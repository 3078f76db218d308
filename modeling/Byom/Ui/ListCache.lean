import Mathlib.Logic.Function.Basic
import Mathlib.Tactic.SplitIfs
import Byom.Ui.InfiniteList

/-!
# The list cache, with its entries as objects

`clearListCache` drops the entries, but a fetch that awaits its page has hold of the entry it
was started for. The page goes to that entry, even if it is no longer in the cache.
-/

namespace Byom.Ui

universe u v

/-- An entry, and the key that it was made for. -/
structure Made (T : Type u) where
  key : String
  entry : Entry T := {}
  deriving DecidableEq

/-- A call of `fetchPage` that is awaited, with the entry that `loadMore` has hold of. -/
structure EntryFetch where
  list : Nat
  key : String
  entry : Nat
  pageToken : String
  deriving DecidableEq, Repr

structure ListCache (T : Type u) (E : Type v) where
  made : List (Made T) := []
  cache : String → Option Nat := fun _ => none
  lists : List (InfiniteList T E) := []
  fetches : List EntryFetch := []

inductive CacheEvent (T : Type u) (E : Type v) where
  | list (event : ListEvent T E)
  | clearListCache

namespace ListCache

variable {T : Type u} {E : Type v}

def clearListCache (s : ListCache T E) : ListCache T E := { s with cache := fun _ => none }

def entry (n : Nat) (s : ListCache T E) : Entry T := (s.made[n]?.map Made.entry).getD {}

def entryFor (key : String) (s : ListCache T E) : Nat × ListCache T E :=
  match s.cache key with
  | some n => (n, s)
  | none =>
    (s.made.length, { s with
      made := s.made ++ [{ key }]
      cache := Function.update s.cache key (some s.made.length) })

def setEntry (n : Nat) (set : Entry T → Entry T) (s : ListCache T E) : ListCache T E :=
  { s with made := s.made.modify n fun m => { m with entry := set m.entry } }

def setSignals (i : Nat) (set : InfiniteList T E → InfiniteList T E) (s : ListCache T E) :
    ListCache T E :=
  { s with lists := s.lists.modify i set }

/-- `loadMore`, from the guard up to the `await`. -/
def startFetch (i : Nat) (key : String) (n : Nat) (s : ListCache T E) : ListCache T E :=
  let pageToken := (s.entry n).pageToken
  let s := s.setEntry n fun entry => { entry with inflight := true }
  let s := s.setSignals i fun l => { l with loading := true }
  { s with fetches := s.fetches ++ [⟨i, key, n, pageToken⟩] }

/-- `loadMore`, up to the `await`. -/
def loadMore (i : Nat) (s : ListCache T E) : ListCache T E :=
  match s.lists[i]? with
  | none => s
  | some l =>
    let (n, s) := s.entryFor l.key
    let entry := s.entry n
    if entry.inflight || entry.done then s else s.startFetch i l.key n

/-- The effect on the key. -/
def runEffect (i : Nat) (s : ListCache T E) : ListCache T E :=
  match s.lists[i]? with
  | none => s
  | some l =>
    let (n, s) := s.entryFor l.key
    let entry := s.entry n
    let s := s.setSignals i fun l =>
      { l with items := entry.items, done := entry.done, scrollY := entry.scrollY, error := none }
    if entry.items.length = 0 && !entry.done then s.loadMore i else s

/-- `loadMore`, in the `try` block after the `await`. -/
def succeed (f : EntryFetch) (page : Page T) (s : ListCache T E) : ListCache T E :=
  let s := s.setEntry f.entry fun entry =>
    { entry with
      items := entry.items ++ page.items
      pageToken := page.nextPageToken
      done := page.nextPageToken = "" }
  let entry := s.entry f.entry
  s.setSignals f.list fun l =>
    if l.key = f.key then { l with items := entry.items, done := entry.done, error := none } else l

/-- The `catch` block. -/
def catchError (f : EntryFetch) (error : E) (s : ListCache T E) : ListCache T E :=
  s.setSignals f.list fun l => if l.key = f.key then { l with error := some error } else l

/-- The `finally` block. -/
def finish (n : Nat) (f : EntryFetch) (s : ListCache T E) : ListCache T E :=
  let s := s.setEntry f.entry fun entry => { entry with inflight := false }
  let s := s.setSignals f.list fun l => if l.key = f.key then { l with loading := false } else l
  { s with fetches := s.fetches.eraseIdx n }

def setScrollY (i : Nat) (key : String) (y : Int) (s : ListCache T E) : ListCache T E :=
  let (n, s) := s.entryFor key
  (s.setEntry n fun entry => { entry with scrollY := y }).setSignals i fun l =>
    { l with scrollY := y }

/-- The component `i`, if it is mounted. -/
def mountedList (i : Nat) (s : ListCache T E) : Option (InfiniteList T E) :=
  s.lists[i]?.filter InfiniteList.mounted

def listStep (s : ListCache T E) : ListEvent T E → Option (ListCache T E)
  | .mount key => some (runEffect s.lists.length { s with lists := s.lists ++ [{ key }] })
  | .unmount i =>
    (s.mountedList i).map fun _ => s.setSignals i fun l => { l with mounted := false }
  | .setKey i key =>
    (s.mountedList i).map fun l =>
      if key = l.key then s else runEffect i (s.setSignals i fun l => { l with key })
  | .loadMore i => (s.mountedList i).map fun _ => s.loadMore i
  | .resolve n page => s.fetches[n]?.map fun f => (s.succeed f page).finish n f
  | .reject n error => s.fetches[n]?.map fun f => (s.catchError f error).finish n f
  | .setScrollY i y => (s.mountedList i).map fun l => s.setScrollY i l.key y

def step (s : ListCache T E) : CacheEvent T E → Option (ListCache T E)
  | .list e => listStep s e
  | .clearListCache => some s.clearListCache

/-- What the cache finds is an entry of the key. -/
def Indexed (s : ListCache T E) : Prop :=
  ∀ key n, s.cache key = some n → ∃ m, s.made[n]? = some m ∧ m.key = key

/-- Each entry is fetched once, while it is `inflight` and
has more pages. -/
structure Flights (s : ListCache T E) : Prop where
  cached : Indexed s
  once : (s.fetches.map EntryFetch.entry).Nodup
  awaits : ∀ f ∈ s.fetches, ∃ m, s.made[f.entry]? = some m ∧ m.key = f.key ∧
    m.entry.inflight = true ∧ m.entry.done = false ∧ m.entry.pageToken = f.pageToken

variable {s s' : ListCache T E} {key : String} {i n : Nat} {f : EntryFetch} {m : Made T}

theorem entry_of_made (found : s.made[n]? = some m) : s.entry n = m.entry := by
  rw [entry, found]
  rfl

theorem made_setEntry {set : Entry T → Entry T} (j : Nat) : (s.setEntry n set).made[j]? =
    s.made[j]?.map fun m => if j = n then { m with entry := set m.entry } else m := by
  unfold setEntry
  rw [List.getElem?_modify]
  cases s.made[j]? <;> grind

theorem made_startFetch (key : String) (j : Nat) : (s.startFetch i key n).made[j]? =
    s.made[j]?.map fun m =>
      if j = n then { m with entry := { m.entry with inflight := true } } else m := by
  have set : (s.startFetch i key n).made[j]? =
      (s.setEntry n fun entry => { entry with inflight := true }).made[j]? := rfl
  rw [set, made_setEntry]

theorem made_finish (j : Nat) : (s.finish n f).made[j]? = s.made[j]?.map fun m =>
    if j = f.entry then { m with entry := { m.entry with inflight := false } } else m := by
  have set : (s.finish n f).made[j]? =
      (s.setEntry f.entry fun entry => { entry with inflight := false }).made[j]? := rfl
  rw [set, made_setEntry]

theorem lists_setSignals {set : InfiniteList T E → InfiniteList T E} (j : Nat) :
    (s.setSignals i set).lists[j]? = s.lists[j]?.map fun l => if j = i then set l else l := by
  unfold setSignals
  rw [List.getElem?_modify]
  cases s.lists[j]? <;> grind

/-- There is an entry for the key, a new one if none was cached. -/
theorem entryFor_cases (key : String) (s : ListCache T E) :
    (∃ n, s.cache key = some n ∧ s.entryFor key = (n, s)) ∨
      s.cache key = none ∧ s.entryFor key = (s.made.length, { s with
        made := s.made ++ [{ key }]
        cache := Function.update s.cache key (some s.made.length) }) := by
  unfold entryFor
  cases s.cache key with
  | some n => exact .inl ⟨n, rfl, rfl⟩
  | none => exact .inr ⟨rfl, rfl⟩

theorem made_append_new (j : Nat) (new : Made T) (found : s.made[j]? = some m) :
    (s.made ++ [new])[j]? = some m := by
  rw [List.getElem?_append_left (List.getElem?_eq_some_iff.mp found).1]
  exact found

theorem lists_entryFor (key : String) (s : ListCache T E) : (s.entryFor key).2.lists = s.lists := by
  rcases entryFor_cases key s with ⟨n, _, same⟩ | ⟨_, new⟩
  · rw [same]
  · rw [new]

/-- Entries stay when the cache makes one, which has nothing yet. -/
theorem made_entryFor {j : Nat} (found : (s.entryFor key).2.made[j]? = some m) :
    s.made[j]? = some m ∨ m = { key } := by
  rcases entryFor_cases key s with ⟨n, _, same⟩ | ⟨_, new⟩
  · rw [same] at found
    exact .inl found
  · rw [new] at found
    rcases List.mem_append.mp (List.mem_of_getElem? found) with _ | fresh
    · by_cases old : j < s.made.length
      · rw [List.getElem?_append_left old] at found
        exact .inl found
      · rw [List.getElem?_append_right (Nat.le_of_not_lt old)] at found
        exact .inr (List.mem_singleton.mp (List.mem_of_getElem? found))
    · exact .inr (List.mem_singleton.mp fresh)

theorem Flights.entryFor (flights : Flights s) (key : String) : Flights (s.entryFor key).2 := by
  rcases entryFor_cases key s with ⟨n, _, same⟩ | ⟨_, new⟩
  · rw [same]
    exact flights
  · rw [new]
    refine ⟨?_, flights.once, ?_⟩
    · intro k n held
      simp only [Function.update_apply] at held
      split_ifs at held with own
      · cases held
        exact ⟨{ key }, by simp, own.symm⟩
      · obtain ⟨m, found, made⟩ := flights.cached k n held
        exact ⟨m, made_append_new n _ found, made⟩
    · intro f awaited
      obtain ⟨m, found, rest⟩ := flights.awaits f awaited
      exact ⟨m, made_append_new f.entry _ found, rest⟩

theorem Flights.made_of_entryFor (flights : Flights s) (key : String) :
    ∃ m, (s.entryFor key).2.made[(s.entryFor key).1]? = some m ∧ m.key = key := by
  rcases entryFor_cases key s with ⟨n, held, same⟩ | ⟨_, new⟩
  · rw [same]
    exact flights.cached key n held
  · rw [new]
    exact ⟨{ key }, by simp, rfl⟩

theorem Indexed.setEntry (cached : Indexed s) (n : Nat) (set : Entry T → Entry T) :
    Indexed (s.setEntry n set) := by
  intro k j held
  obtain ⟨m, found, made⟩ := cached k j held
  rw [made_setEntry, found]
  refine ⟨_, rfl, ?_⟩
  split_ifs <;> exact made

/-- A field other than those that fetches rely on. -/
theorem Flights.setEntry (flights : Flights s) {set : Entry T → Entry T}
    (keeps : ∀ entry, (set entry).inflight = entry.inflight ∧ (set entry).done = entry.done ∧
      (set entry).pageToken = entry.pageToken) : Flights (s.setEntry n set) := by
  refine ⟨flights.cached.setEntry n set, flights.once, ?_⟩
  · intro f awaited
    obtain ⟨m, found, rest⟩ := flights.awaits f awaited
    rw [made_setEntry, found]
    refine ⟨_, rfl, ?_⟩
    split_ifs
    · obtain ⟨inflight, done, token⟩ := keeps m.entry
      rw [inflight, done, token]
      exact rest
    · exact rest

theorem Flights.startFetch (flights : Flights s) (found : s.made[n]? = some m)
    (idle : m.entry.inflight = false) (more : m.entry.done = false) :
    Flights (s.startFetch i m.key n) := by
  have apart : ∀ f ∈ s.fetches, f.entry ≠ n := by
    rintro f awaited rfl
    obtain ⟨m', found', _, inflight, _⟩ := flights.awaits f awaited
    cases found.symm.trans found'
    rw [idle] at inflight
    cases inflight
  have listed : (s.startFetch i m.key n).fetches =
      s.fetches ++ [⟨i, m.key, n, m.entry.pageToken⟩] := by
    rw [← entry_of_made found]
    rfl
  have cached := flights.cached.setEntry n fun entry => { entry with inflight := true }
  refine ⟨cached, ?_, ?_⟩
  · rw [listed, List.map_append, List.nodup_append]
    refine ⟨flights.once, by simp, ?_⟩
    intro a ha b hb
    obtain ⟨f, awaited, rfl⟩ := List.mem_map.mp ha
    obtain rfl : b = n := by simpa using hb
    exact apart f awaited
  · intro f awaited
    rw [made_startFetch]
    rcases List.mem_append.mp (listed ▸ awaited) with old | new
    · obtain ⟨m', found', rest⟩ := flights.awaits f old
      rw [found', Option.map_some, if_neg (apart f old)]
      exact ⟨m', rfl, rest⟩
    · obtain rfl := List.mem_singleton.mp new
      rw [found, Option.map_some, if_pos rfl]
      exact ⟨_, rfl, rfl, rfl, more, rfl⟩

/-- Whether a fetch is started, and for which entry. -/
theorem loadMore_cases (flights : Flights s) (i : Nat) : s.loadMore i = s ∨
    ∃ l, s.lists[i]? = some l ∧ (s.loadMore i = (s.entryFor l.key).2 ∨
      ∃ m, (s.entryFor l.key).2.made[(s.entryFor l.key).1]? = some m ∧ m.key = l.key ∧
        m.entry.inflight = false ∧ m.entry.done = false ∧
          s.loadMore i = (s.entryFor l.key).2.startFetch i m.key (s.entryFor l.key).1) := by
  unfold loadMore
  cases found : s.lists[i]? with
  | none => exact .inl rfl
  | some l =>
    right
    refine ⟨l, rfl, ?_⟩
    obtain ⟨m, made, own⟩ := flights.made_of_entryFor l.key
    simp only [entry_of_made made]
    cases busy : m.entry.inflight || m.entry.done with
    | true => exact .inl (if_pos rfl)
    | false =>
      obtain ⟨inflight, done⟩ := Bool.or_eq_false_iff.mp busy
      refine .inr ⟨m, made, own, inflight, done, ?_⟩
      rw [own]
      exact if_neg Bool.false_ne_true

theorem Flights.loadMore (flights : Flights s) (i : Nat) : Flights (s.loadMore i) := by
  rcases loadMore_cases flights i with same | ⟨l, _, found | ⟨m, made, _, idle, more, started⟩⟩
  · rw [same]
    exact flights
  · rw [found]
    exact flights.entryFor l.key
  · rw [started]
    exact (flights.entryFor l.key).startFetch made idle more

theorem Flights.setSignals (flights : Flights s) (set : InfiniteList T E → InfiniteList T E) :
    Flights (s.setSignals i set) :=
  ⟨flights.cached, flights.once, flights.awaits⟩

theorem Flights.runEffect (flights : Flights s) (i : Nat) : Flights (s.runEffect i) := by
  unfold ListCache.runEffect
  cases s.lists[i]? with
  | none => exact flights
  | some l =>
    simp only
    split
    · exact ((flights.entryFor l.key).setSignals _).loadMore i
    · exact (flights.entryFor l.key).setSignals _

/-- The other fetches are for other entries. -/
theorem Flights.apart_of_mem_eraseIdx (flights : Flights s) (awaited : s.fetches[n]? = some f)
    {g : EntryFetch} (other : g ∈ s.fetches.eraseIdx n) : g ∈ s.fetches ∧ g.entry ≠ f.entry := by
  obtain ⟨inside, here⟩ := List.getElem?_eq_some_iff.mp awaited
  obtain ⟨j, hj, apart, rfl⟩ := List.mem_eraseIdx_iff_getElem.mp other
  refine ⟨List.getElem_mem _, ?_⟩
  intro same
  have entries : (s.fetches.map EntryFetch.entry)[j]? =
      (s.fetches.map EntryFetch.entry)[n]? := by
    simp [hj, inside, here, same]
  exact apart ((List.getElem?_inj (by simpa using hj) flights.once).mp entries)

/-- A fetch that ends, whatever it writes to its entry. -/
theorem Flights.finish (flights : Flights s) (awaited : s.fetches[n]? = some f)
    (set : Entry T → Entry T) (set' : InfiniteList T E → InfiniteList T E) :
    Flights (((s.setEntry f.entry set).setSignals i set').finish n f) := by
  have made : ∀ j, (((s.setEntry f.entry set).setSignals i set').finish n f).made[j]? =
      s.made[j]?.map fun m => if j = f.entry then
        { m with entry := { set m.entry with inflight := false } } else m := by
    intro j
    have signals : ((s.setEntry f.entry set).setSignals i set').made[j]? =
        (s.setEntry f.entry set).made[j]? := rfl
    rw [made_finish, signals, made_setEntry, Option.map_map]
    refine congrArg (s.made[j]?.map ·) (funext fun m => ?_)
    by_cases own : j = f.entry <;> simp [own]
  have cached := (flights.cached.setEntry f.entry set).setEntry f.entry fun entry =>
    { entry with inflight := false }
  refine ⟨cached, ?_, ?_⟩
  · exact (List.Sublist.map _ (List.eraseIdx_sublist _ _)).nodup flights.once
  · intro g other
    obtain ⟨old, apart⟩ := flights.apart_of_mem_eraseIdx awaited other
    obtain ⟨m, found, rest⟩ := flights.awaits g old
    rw [made, found, Option.map_some, if_neg apart]
    exact ⟨m, rfl, rest⟩

theorem Flights.initial : Flights ({} : ListCache T E) :=
  ⟨nofun, List.nodup_nil, List.forall_mem_nil _⟩

theorem setEntry_id (n : Nat) (s : ListCache T E) : s.setEntry n id = s := by
  unfold setEntry
  have same : (fun m : Made T => { m with entry := id m.entry }) = id := rfl
  rw [same, List.modify_id]

theorem step_flights (flights : Flights s) {e : CacheEvent T E} (h : step s e = some s') :
    Flights s' := by
  cases e with
  | clearListCache =>
    cases h
    exact ⟨nofun, flights.once, flights.awaits⟩
  | list e =>
    cases e with
    | mount key =>
      cases h
      have mounted : Flights { s with lists := s.lists ++ [{ key }] } :=
        ⟨flights.cached, flights.once, flights.awaits⟩
      exact mounted.runEffect _
    | unmount i =>
      obtain ⟨l, _, rfl⟩ := Option.map_eq_some_iff.mp h
      exact flights.setSignals _
    | setKey i key =>
      obtain ⟨l, _, rfl⟩ := Option.map_eq_some_iff.mp h
      split_ifs
      · exact flights
      · exact (flights.setSignals _).runEffect i
    | loadMore i =>
      obtain ⟨l, _, rfl⟩ := Option.map_eq_some_iff.mp h
      exact flights.loadMore i
    | resolve n page =>
      obtain ⟨f, awaited, rfl⟩ := Option.map_eq_some_iff.mp h
      exact flights.finish awaited _ _
    | reject n error =>
      obtain ⟨f, awaited, rfl⟩ := Option.map_eq_some_iff.mp h
      have ended := flights.finish (i := f.list) awaited id fun l =>
        if l.key = f.key then { l with error := some error } else l
      rw [setEntry_id] at ended
      exact ended
    | setScrollY i y =>
      obtain ⟨l, _, rfl⟩ := Option.map_eq_some_iff.mp h
      have scrolled : Flights ((s.entryFor l.key).2.setEntry (s.entryFor l.key).1
          fun entry => { entry with scrollY := y }) :=
        (flights.entryFor l.key).setEntry fun _ => ⟨rfl, rfl, rfl⟩
      exact scrolled.setSignals _

end ListCache

end Byom.Ui
