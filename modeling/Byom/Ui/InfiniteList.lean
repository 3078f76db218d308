import Mathlib.Logic.Function.Basic
import Byom.Transition.Run

/-!
# Infinite lists

The cache of `pagination`, the list components with their signals, and the fetches that
await their page. Every handler runs to its end or to its `await`, and the effect of a
component runs with the mount or the key change that causes it.
-/

namespace Byom.Ui

universe u v

structure Page (T : Type u) where
  items : List T
  nextPageToken : String
  deriving DecidableEq

structure Entry (T : Type u) where
  items : List T := []
  pageToken : String := ""
  done : Bool := false
  scrollY : Int := 0
  inflight : Bool := false
  deriving DecidableEq

/-- A list component: its key and its signals. -/
structure InfiniteList (T : Type u) (E : Type v) where
  key : String
  mounted : Bool := true
  items : List T := []
  loading : Bool := false
  done : Bool := false
  error : Option E := none
  scrollY : Int := 0
  deriving DecidableEq

/-- A call of `fetchPage` that is awaited, by the list that made it. -/
structure Fetch where
  list : Nat
  key : String
  pageToken : String
  deriving DecidableEq, Repr

/-- An entry that is not cached yet reads as `entryFor` creates it. -/
structure Pagination (T : Type u) (E : Type v) where
  cache : String → Entry T := fun _ => {}
  lists : List (InfiniteList T E) := []
  fetches : List Fetch := []

inductive ListEvent (T : Type u) (E : Type v) where
  | mount (key : String)
  | unmount (list : Nat)
  | setKey (list : Nat) (key : String)
  | loadMore (list : Nat)
  | resolve (fetch : Nat) (page : Page T)
  | reject (fetch : Nat) (error : E)
  | setScrollY (list : Nat) (y : Int)

/-- What pages write to an entry. -/
def Entry.pages {T : Type u} (entry : Entry T) : List T × String × Bool :=
  (entry.items, entry.pageToken, entry.done)

namespace Pagination

variable {T : Type u} {E : Type v}

def setEntry (key : String) (set : Entry T → Entry T) (s : Pagination T E) : Pagination T E :=
  { s with cache := Function.update s.cache key (set (s.cache key)) }

def setSignals (i : Nat) (set : InfiniteList T E → InfiniteList T E) (s : Pagination T E) :
    Pagination T E :=
  { s with lists := s.lists.modify i set }

/-- `loadMore`, from the guard up to the `await`. -/
def startFetch (i : Nat) (key : String) (s : Pagination T E) : Pagination T E :=
  let pageToken := (s.cache key).pageToken
  let s := s.setEntry key fun entry => { entry with inflight := true }
  let s := s.setSignals i fun l => { l with loading := true }
  { s with fetches := s.fetches ++ [⟨i, key, pageToken⟩] }

/-- `loadMore`, up to the `await`. -/
def loadMore (i : Nat) (s : Pagination T E) : Pagination T E :=
  match s.lists[i]? with
  | none => s
  | some l =>
    let entry := s.cache l.key
    if entry.inflight || entry.done then s else s.startFetch i l.key

/-- The effect on the key. -/
def runEffect (i : Nat) (s : Pagination T E) : Pagination T E :=
  match s.lists[i]? with
  | none => s
  | some l =>
    let entry := s.cache l.key
    let s := s.setSignals i fun l =>
      { l with items := entry.items, done := entry.done, scrollY := entry.scrollY, error := none }
    if entry.items.length = 0 && !entry.done then s.loadMore i else s

/-- `loadMore`, in the `try` block after the `await`. -/
def succeed (f : Fetch) (page : Page T) (s : Pagination T E) : Pagination T E :=
  let s := s.setEntry f.key fun entry =>
    { entry with
      items := entry.items ++ page.items
      pageToken := page.nextPageToken
      done := page.nextPageToken = "" }
  let entry := s.cache f.key
  s.setSignals f.list fun l =>
    if l.key = f.key then { l with items := entry.items, done := entry.done, error := none } else l

/-- The `catch` block. -/
def catchError (f : Fetch) (error : E) (s : Pagination T E) : Pagination T E :=
  s.setSignals f.list fun l => if l.key = f.key then { l with error := some error } else l

/-- The `finally` block. -/
def finish (n : Nat) (f : Fetch) (s : Pagination T E) : Pagination T E :=
  let s := s.setEntry f.key fun entry => { entry with inflight := false }
  let s := s.setSignals f.list fun l => if l.key = f.key then { l with loading := false } else l
  { s with fetches := s.fetches.eraseIdx n }

/-- The component `i`, if it is mounted. -/
def mountedList (i : Nat) (s : Pagination T E) : Option (InfiniteList T E) :=
  s.lists[i]?.filter InfiniteList.mounted

def step (s : Pagination T E) : ListEvent T E → Option (Pagination T E)
  | .mount key => some (runEffect s.lists.length { s with lists := s.lists ++ [{ key }] })
  | .unmount i =>
    (s.mountedList i).map fun _ => s.setSignals i fun l => { l with mounted := false }
  | .setKey i key =>
    (s.mountedList i).map fun l =>
      if key = l.key then s else runEffect i (s.setSignals i fun l => { l with key })
  | .loadMore i => (s.mountedList i).map fun _ => s.loadMore i
  | .resolve n page => s.fetches[n]?.map fun f => (s.succeed f page).finish n f
  | .reject n error => s.fetches[n]?.map fun f => (s.catchError f error).finish n f
  | .setScrollY i y =>
    (s.mountedList i).map fun l =>
      (s.setEntry l.key fun entry => { entry with scrollY := y }).setSignals i fun l =>
        { l with scrollY := y }

/-- A fetch for the key awaits its page. -/
def Fetching (s : Pagination T E) (key : String) : Prop := key ∈ s.fetches.map Fetch.key

instance (s : Pagination T E) (key : String) : Decidable (s.Fetching key) :=
  inferInstanceAs (Decidable (key ∈ s.fetches.map Fetch.key))

/-- `inflight` is true for the keys that are fetched. Each of them is fetched once, and its
list has more pages. -/
structure Flights (s : Pagination T E) : Prop where
  inflight : ∀ key, (s.cache key).inflight = true ↔ s.Fetching key
  once : (s.fetches.map Fetch.key).Nodup
  open_ : ∀ f ∈ s.fetches, (s.cache f.key).done = false
  token : ∀ f ∈ s.fetches, f.pageToken = (s.cache f.key).pageToken

variable {s s' : Pagination T E} {e : ListEvent T E} {key : String} {i n : Nat} {f : Fetch}

theorem cache_setEntry {set : Entry T → Entry T} (k : String) :
    (s.setEntry key set).cache k = if k = key then set (s.cache key) else s.cache k := by
  unfold setEntry
  exact Function.update_apply _ _ _ _

theorem cache_setScrollY (k : String) (y : Int) :
    (s.setEntry k fun entry => { entry with scrollY := y }).cache key =
      { s.cache key with scrollY := if key = k then y else (s.cache key).scrollY } := by
  rw [cache_setEntry]
  split
  · rename_i own
    rw [own]
  · rfl

theorem startFetch_cache (i : Nat) (key k : String) : (s.startFetch i key).cache k =
    if k = key then { s.cache key with inflight := true } else s.cache k := by
  simp only [startFetch, setSignals, cache_setEntry]

theorem finish_cache (n : Nat) (f : Fetch) (k : String) : (s.finish n f).cache k =
    if k = f.key then { s.cache f.key with inflight := false } else s.cache k := by
  simp only [finish, setSignals, cache_setEntry]

theorem succeed_cache (f : Fetch) (page : Page T) (k : String) : (s.succeed f page).cache k =
    if k = f.key then { s.cache f.key with
      items := (s.cache f.key).items ++ page.items
      pageToken := page.nextPageToken
      done := page.nextPageToken = "" } else s.cache k := by
  simp only [succeed, setSignals, cache_setEntry]

theorem loadMore_cases (i : Nat) (s : Pagination T E) : s.loadMore i = s ∨
    ∃ l, s.lists[i]? = some l ∧ (s.cache l.key).inflight = false ∧ (s.cache l.key).done = false ∧
      s.loadMore i = s.startFetch i l.key := by
  unfold loadMore
  cases found : s.lists[i]? with
  | none => exact .inl rfl
  | some l =>
    cases busy : (s.cache l.key).inflight || (s.cache l.key).done with
    | true => exact .inl (if_pos busy)
    | false =>
      obtain ⟨inflight, done⟩ := Bool.or_eq_false_iff.mp busy
      exact .inr ⟨l, rfl, inflight, done, if_neg (by simp [busy])⟩

/-! ### The fetches -/

theorem Flights.initial : Flights ({} : Pagination T E) where
  inflight := by simp [Fetching]
  once := List.nodup_nil
  open_ := List.forall_mem_nil _
  token := List.forall_mem_nil _

/-- Signals do not matter, nor do the other fields of the entries. -/
theorem Flights.of_same (flights : Flights s) (fetches : s'.fetches = s.fetches)
    (same : ∀ key, (s'.cache key).inflight = (s.cache key).inflight ∧
      (s'.cache key).done = (s.cache key).done ∧
        (s'.cache key).pageToken = (s.cache key).pageToken) : Flights s' where
  inflight key := by
    unfold Fetching
    rw [(same key).1, fetches]
    exact flights.inflight key
  once := by
    rw [fetches]
    exact flights.once
  open_ f hf := by
    rw [fetches] at hf
    exact (same f.key).2.1.trans (flights.open_ f hf)
  token f hf := by
    rw [fetches] at hf
    exact (flights.token f hf).trans (same f.key).2.2.symm

theorem Flights.startFetch (flights : Flights s) (idle : (s.cache key).inflight = false)
    (more : (s.cache key).done = false) : Flights (s.startFetch i key) := by
  have free : ¬s.Fetching key := by
    rw [← flights.inflight key, idle]
    exact Bool.false_ne_true
  have apart : ∀ f ∈ s.fetches, f.key ≠ key := by
    rintro f hf rfl
    exact free (List.mem_map_of_mem hf)
  have listed : (s.startFetch i key).fetches =
      s.fetches ++ [⟨i, key, (s.cache key).pageToken⟩] := rfl
  refine ⟨?_, ?_, ?_, ?_⟩
  · intro k
    have others := flights.inflight k
    rw [startFetch_cache, Fetching, listed, List.map_append, List.mem_append]
    by_cases same : k = key
    · simp [same]
    · simp [same, others, Fetching]
  · rw [listed, List.map_append, List.nodup_append]
    refine ⟨flights.once, by simp, ?_⟩
    intro a ha b hb
    obtain ⟨f, hf, rfl⟩ := List.mem_map.mp ha
    obtain rfl : b = key := by simpa using hb
    exact apart f hf
  · intro f hf
    rw [startFetch_cache]
    rcases List.mem_append.mp (listed ▸ hf) with old | new
    · rw [if_neg (apart f old)]
      exact flights.open_ f old
    · obtain rfl := List.mem_singleton.mp new
      simpa using more
  · intro f hf
    rw [startFetch_cache]
    rcases List.mem_append.mp (listed ▸ hf) with old | new
    · rw [if_neg (apart f old)]
      exact flights.token f old
    · obtain rfl := List.mem_singleton.mp new
      simp

theorem Flights.loadMore (flights : Flights s) (i : Nat) : Flights (s.loadMore i) := by
  rcases loadMore_cases i s with same | ⟨l, _, idle, more, started⟩
  · rw [same]
    exact flights
  · rw [started]
    exact flights.startFetch idle more

/-- The other fetches are for other keys. -/
theorem Flights.mem_eraseIdx_iff (flights : Flights s) (awaited : s.fetches[n]? = some f)
    {g : Fetch} : g ∈ s.fetches.eraseIdx n ↔ g ∈ s.fetches ∧ g.key ≠ f.key := by
  obtain ⟨inside, here⟩ := List.getElem?_eq_some_iff.mp awaited
  rw [List.mem_eraseIdx_iff_getElem]
  constructor
  · rintro ⟨m, hm, other, rfl⟩
    refine ⟨List.getElem_mem _, ?_⟩
    intro same
    have keys : (s.fetches.map Fetch.key)[m]? = (s.fetches.map Fetch.key)[n]? := by
      simp [hm, inside, here, same]
    exact other ((List.getElem?_inj (by simpa using hm) flights.once).mp keys)
  · rintro ⟨hg, apart⟩
    obtain ⟨m, hm, rfl⟩ := List.getElem_of_mem hg
    refine ⟨m, hm, ?_, rfl⟩
    rintro rfl
    exact apart (congrArg Fetch.key here)

theorem Flights.fetching_finish (flights : Flights s) (awaited : s.fetches[n]? = some f)
    {mid : Pagination T E} (fetches : mid.fetches = s.fetches) :
    (mid.finish n f).Fetching key ↔ s.Fetching key ∧ key ≠ f.key := by
  have listed : (mid.finish n f).fetches = s.fetches.eraseIdx n := by
    rw [← fetches]
    rfl
  unfold Fetching
  rw [listed, List.mem_map, List.mem_map]
  constructor
  · rintro ⟨g, hg, rfl⟩
    obtain ⟨old, apart⟩ := (flights.mem_eraseIdx_iff awaited).mp hg
    exact ⟨⟨g, old, rfl⟩, apart⟩
  · rintro ⟨⟨g, hg, rfl⟩, apart⟩
    exact ⟨g, (flights.mem_eraseIdx_iff awaited).mpr ⟨hg, apart⟩, rfl⟩

/-- A fetch that ends, whatever it writes to its entry. -/
theorem Flights.finish (flights : Flights s) (awaited : s.fetches[n]? = some f)
    {mid : Pagination T E} (fetches : mid.fetches = s.fetches)
    (elsewhere : ∀ key, key ≠ f.key → mid.cache key = s.cache key) : Flights (mid.finish n f) := by
  have listed : (mid.finish n f).fetches = s.fetches.eraseIdx n := by
    rw [← fetches]
    rfl
  refine ⟨?_, ?_, ?_, ?_⟩
  · intro k
    rw [flights.fetching_finish awaited fetches, finish_cache]
    by_cases same : k = f.key
    · simp [same]
    · rw [if_neg same, elsewhere k same, flights.inflight k]
      simp [same]
  · rw [listed]
    exact (List.Sublist.map _ (List.eraseIdx_sublist _ _)).nodup flights.once
  · intro g hg
    obtain ⟨old, apart⟩ := (flights.mem_eraseIdx_iff awaited).mp (listed ▸ hg)
    rw [finish_cache, if_neg apart, elsewhere g.key apart]
    exact flights.open_ g old
  · intro g hg
    obtain ⟨old, apart⟩ := (flights.mem_eraseIdx_iff awaited).mp (listed ▸ hg)
    rw [finish_cache, if_neg apart, elsewhere g.key apart]
    exact flights.token g old

theorem Flights.runEffect (flights : Flights s) (i : Nat) : Flights (s.runEffect i) := by
  have signals : ∀ set, Flights (s.setSignals i set) :=
    fun _ => flights.of_same rfl fun _ => ⟨rfl, rfl, rfl⟩
  unfold Pagination.runEffect
  cases s.lists[i]? with
  | none => exact flights
  | some l =>
    simp only
    split
    · exact (signals _).loadMore i
    · exact signals _

theorem step_flights (flights : Flights s)
    (h : step s e = some s') : Flights s' := by
  have signals : ∀ i set, Flights (s.setSignals i set) :=
    fun _ _ => flights.of_same rfl fun _ => ⟨rfl, rfl, rfl⟩
  cases e with
  | mount key =>
    cases h
    exact (flights.of_same rfl fun _ => ⟨rfl, rfl, rfl⟩ : Flights { s with
      lists := s.lists ++ [{ key }] }).runEffect _
  | unmount i =>
    obtain ⟨l, _, rfl⟩ := Option.map_eq_some_iff.mp h
    exact signals i _
  | setKey i key =>
    obtain ⟨l, _, rfl⟩ := Option.map_eq_some_iff.mp h
    split
    · exact flights
    · exact (signals i _).runEffect i
  | loadMore i =>
    obtain ⟨l, _, rfl⟩ := Option.map_eq_some_iff.mp h
    exact flights.loadMore i
  | resolve n page =>
    obtain ⟨f, awaited, rfl⟩ := Option.map_eq_some_iff.mp h
    have elsewhere : ∀ key, key ≠ f.key → (s.succeed f page).cache key = s.cache key :=
      fun key other => (succeed_cache f page key).trans (if_neg other)
    exact flights.finish awaited rfl elsewhere
  | reject n error =>
    obtain ⟨f, awaited, rfl⟩ := Option.map_eq_some_iff.mp h
    exact flights.finish awaited rfl fun _ _ => rfl
  | setScrollY i y =>
    obtain ⟨l, _, rfl⟩ := Option.map_eq_some_iff.mp h
    have scrolled : Flights (s.setEntry l.key fun entry => { entry with scrollY := y }) := by
      refine flights.of_same (by rfl) ?_
      intro key
      rw [cache_setScrollY]
      exact ⟨rfl, rfl, rfl⟩
    exact scrolled.of_same rfl fun _ => ⟨rfl, rfl, rfl⟩

/-! ### The pages of an entry -/

theorem pages_setScrollY {k : String} {y : Int} :
    ((s.setEntry k fun entry => { entry with scrollY := y }).cache key).pages =
      (s.cache key).pages := by
  rw [cache_setScrollY]
  rfl

theorem pages_loadMore (i : Nat) :
    ((s.loadMore i).cache key).pages = (s.cache key).pages := by
  rcases loadMore_cases i s with same | ⟨l, _, _, _, started⟩
  · rw [same]
  · rw [started, startFetch_cache]
    split
    · rename_i own
      rw [own]
      rfl
    · rfl

theorem pages_runEffect (i : Nat) :
    ((s.runEffect i).cache key).pages = (s.cache key).pages := by
  unfold runEffect
  cases s.lists[i]? with
  | none => rfl
  | some l =>
    simp only
    split
    · exact pages_loadMore i
    · rfl

theorem pages_finish (n : Nat) (f : Fetch) :
    ((s.finish n f).cache key).pages = (s.cache key).pages := by
  rw [finish_cache]
  split
  · rename_i own
    rw [own]
    rfl
  · rfl

/-- Only a page for the key changes what the entry has of the chain. -/
theorem step_pages (h : step s e = some s')
    (other : ∀ n page f, e = .resolve n page → s.fetches[n]? = some f → f.key ≠ key) :
    (s'.cache key).pages = (s.cache key).pages := by
  cases e with
  | mount k =>
    cases h
    exact pages_runEffect _
  | unmount i =>
    obtain ⟨l, _, rfl⟩ := Option.map_eq_some_iff.mp h
    rfl
  | setKey i k =>
    obtain ⟨l, _, rfl⟩ := Option.map_eq_some_iff.mp h
    split
    · rfl
    · exact pages_runEffect i
  | loadMore i =>
    obtain ⟨l, _, rfl⟩ := Option.map_eq_some_iff.mp h
    exact pages_loadMore i
  | resolve n page =>
    obtain ⟨f, awaited, rfl⟩ := Option.map_eq_some_iff.mp h
    have apart := other n page f rfl awaited
    rw [pages_finish, succeed_cache, if_neg apart.symm]
  | reject n error =>
    obtain ⟨f, _, rfl⟩ := Option.map_eq_some_iff.mp h
    exact pages_finish n f
  | setScrollY i y =>
    obtain ⟨l, _, rfl⟩ := Option.map_eq_some_iff.mp h
    exact pages_setScrollY

end Pagination

end Byom.Ui
