import Mathlib.Tactic.Push
import Mathlib.Tactic.SplitIfs
import Byom.Ui.InfiniteList

/-!
# The signals of a list

A page is written to the entry of its key, and to the signals of the list that asked for it.
Other mounted lists with the key are not told.
-/

namespace Byom.Ui.Pagination

universe u v

variable {T : Type u} {E : Type v} {s s' : Pagination T E} {e : ListEvent T E} {i : Nat}

/-- The list displays its entry. -/
def Shows (s : Pagination T E) (l : InfiniteList T E) : Prop :=
  l.items = (s.cache l.key).items ∧ l.done = (s.cache l.key).done

/-- Every mounted list displays its entry, unless its key is being fetched. -/
def Shown (s : Pagination T E) : Prop :=
  ∀ l ∈ s.lists, l.mounted = true → ¬s.Fetching l.key → s.Shows l

instance [DecidableEq T] (s : Pagination T E) : Decidable (Shown s) :=
  inferInstanceAs (Decidable (∀ l ∈ s.lists, l.mounted = true → ¬s.Fetching l.key →
    l.items = (s.cache l.key).items ∧ l.done = (s.cache l.key).done))

/-- A page that adds to its entry finds no mounted list with the key but the one that asked. -/
def ToOnly (s : Pagination T E) : ListEvent T E → Prop
  | .resolve n page => ∀ f, s.fetches[n]? = some f →
    (page.items = [] ∧ page.nextPageToken ≠ "") ∨
      ∀ (i : Nat) (l : InfiniteList T E), s.lists[i]? = some l → l.mounted = true →
        l.key = f.key → i = f.list
  | _ => True

/-- All mounted lists display their entries, but for the one at `i`. -/
def InSyncBut (i : Nat) (s : Pagination T E) : Prop :=
  ∀ (j : Nat) (l : InfiniteList T E), j ≠ i → s.lists[j]? = some l → l.mounted = true → s.Shows l

/-- All mounted lists display their entries, also those whose key is being fetched. -/
def InSync (s : Pagination T E) : Prop :=
  ∀ (j : Nat) (l : InfiniteList T E), s.lists[j]? = some l → l.mounted = true → s.Shows l

theorem lists_setSignals {set : InfiniteList T E → InfiniteList T E} (j : Nat) :
    (s.setSignals i set).lists[j]? = s.lists[j]?.map fun l => if j = i then set l else l := by
  unfold setSignals
  rw [List.getElem?_modify]
  cases s.lists[j]? <;> grind

theorem shows_of_pages {l : InfiniteList T E}
    (pages : (s'.cache l.key).pages = (s.cache l.key).pages) (shows_ : s.Shows l) : s'.Shows l := by
  obtain ⟨items, rest⟩ := Prod.mk.inj pages
  obtain ⟨_, done⟩ := Prod.mk.inj rest
  exact ⟨shows_.1.trans items.symm, shows_.2.trans done.symm⟩

/-- The signals that are set do not show what the entry has. -/
theorem InSync.setSignals {set : InfiniteList T E → InfiniteList T E} (sync : InSync s)
    (keeps : ∀ l, (set l).key = l.key ∧ (set l).items = l.items ∧ (set l).done = l.done ∧
      ((set l).mounted = true → l.mounted = true)) : InSync (s.setSignals i set) := by
  intro j l' found mounted
  rw [lists_setSignals] at found
  obtain ⟨l, at_, rfl⟩ := Option.map_eq_some_iff.mp found
  split_ifs at mounted ⊢
  · obtain ⟨key, items, done, was⟩ := keeps l
    have shown := sync j l at_ (was mounted)
    unfold Shows
    rw [key, items, done]
    exact shown
  · exact sync j l at_ mounted

theorem InSync.loadMore (sync : InSync s) (i : Nat) : InSync (s.loadMore i) := by
  have pages : ∀ k, ((s.loadMore i).cache k).pages = (s.cache k).pages := fun _ => pages_loadMore i
  intro j l' found mounted
  apply shows_of_pages (pages _)
  rcases loadMore_cases i s with same | ⟨l, _, _, _, started⟩
  · rw [same] at found
    exact sync j l' found mounted
  · rw [started] at found
    have signals : InSync (s.setSignals i fun l => { l with loading := true }) :=
      sync.setSignals fun _ => ⟨rfl, rfl, rfl, id⟩
    exact signals j l' found mounted

/-- The effect puts the entry into the signals of its list. -/
theorem InSyncBut.runEffect (sync : InSyncBut i s) : InSync (s.runEffect i) := by
  unfold Pagination.runEffect
  cases found : s.lists[i]? with
  | none =>
    intro j l at_
    apply sync j l
    · rintro rfl
      rw [found] at at_
      cases at_
    · exact at_
  | some l =>
    have copied : InSync (s.setSignals i fun m => { m with
        items := (s.cache l.key).items
        done := (s.cache l.key).done
        scrollY := (s.cache l.key).scrollY
        error := none }) := by
      intro j m' at_ mounted
      rw [lists_setSignals] at at_
      obtain ⟨m, was, rfl⟩ := Option.map_eq_some_iff.mp at_
      split_ifs at mounted ⊢ with here
      · rw [here, found] at was
        cases was
        exact ⟨rfl, rfl⟩
      · exact sync j m here was mounted
    simp only
    split
    · exact copied.loadMore i
    · exact copied

theorem InSync.finish (sync : InSync s) (n : Nat) (f : Fetch) : InSync (s.finish n f) := by
  intro j l found mounted
  apply shows_of_pages (pages_finish n f)
  have signals : InSync (s.setSignals f.list fun l =>
      if l.key = f.key then { l with loading := false } else l) := by
    apply sync.setSignals
    intro l
    split_ifs <;> exact ⟨rfl, rfl, rfl, id⟩
  exact signals j l found mounted

/-- Only a page that arrives can leave a list behind. -/
theorem step_inSync (sync : InSync s) (h : step s e = some s')
    (other : ∀ n page, e ≠ .resolve n page) : InSync s' := by
  cases e with
  | mount key =>
    cases h
    have others : InSyncBut s.lists.length { s with lists := s.lists ++ [{ key }] } := by
      intro j l apart found mounted
      have old : j < s.lists.length := by
        have inside := (List.getElem?_eq_some_iff.mp found).1
        rw [List.length_append, List.length_singleton] at inside
        omega
      rw [List.getElem?_append_left old] at found
      exact sync j l found mounted
    exact others.runEffect
  | unmount i =>
    obtain ⟨l, _, rfl⟩ := Option.map_eq_some_iff.mp h
    exact sync.setSignals fun _ => ⟨rfl, rfl, rfl, nofun⟩
  | setKey i key =>
    obtain ⟨l, _, rfl⟩ := Option.map_eq_some_iff.mp h
    split_ifs
    · exact sync
    · have others : InSyncBut i (s.setSignals i fun l => { l with key }) := by
        intro j m apart found mounted
        rw [lists_setSignals] at found
        obtain ⟨m, was, rfl⟩ := Option.map_eq_some_iff.mp found
        rw [if_neg apart] at mounted ⊢
        exact sync j m was mounted
      exact others.runEffect
  | loadMore i =>
    obtain ⟨l, _, rfl⟩ := Option.map_eq_some_iff.mp h
    exact sync.loadMore i
  | resolve n page => exact absurd rfl (other n page)
  | reject n error =>
    obtain ⟨f, _, rfl⟩ := Option.map_eq_some_iff.mp h
    have caught : InSync (s.catchError f error) := by
      apply sync.setSignals
      intro l
      split_ifs <;> exact ⟨rfl, rfl, rfl, id⟩
    exact caught.finish n f
  | setScrollY i y =>
    obtain ⟨l, _, rfl⟩ := Option.map_eq_some_iff.mp h
    have scrolled : InSync (s.setEntry l.key fun entry => { entry with scrollY := y }) := by
      intro j m found mounted
      apply shows_of_pages pages_setScrollY
      exact sync j m found mounted
    exact scrolled.setSignals fun _ => ⟨rfl, rfl, rfl, id⟩

/-! ### A page that arrives -/

variable {n : Nat} {f : Fetch} {page : Page T}

theorem resolve_cache (k : String) : ((s.succeed f page).finish n f).cache k =
    if k = f.key then { s.cache f.key with
      items := (s.cache f.key).items ++ page.items
      pageToken := page.nextPageToken
      done := page.nextPageToken = ""
      inflight := false } else s.cache k := by
  rw [finish_cache, succeed_cache, succeed_cache, if_pos rfl]
  split_ifs <;> rfl

theorem resolve_lists (j : Nat) : ((s.succeed f page).finish n f).lists[j]? =
    s.lists[j]?.map fun l => if j = f.list ∧ l.key = f.key then { l with
      items := (s.cache f.key).items ++ page.items
      done := page.nextPageToken = ""
      error := none
      loading := false } else l := by
  have twice : ((s.succeed f page).finish n f).lists[j]? = ((s.lists[j]?.map fun l =>
      if j = f.list then if l.key = f.key then { l with
        items := ((s.succeed f page).cache f.key).items
        done := ((s.succeed f page).cache f.key).done
        error := none } else l else l).map fun l =>
      if j = f.list then if l.key = f.key then { l with loading := false } else l else l) := by
    rw [← lists_setSignals, ← lists_setSignals]
    rfl
  rw [twice, succeed_cache, if_pos rfl, Option.map_map]
  apply congrArg (s.lists[j]?.map ·)
  funext l
  by_cases here : j = f.list <;> by_cases own : l.key = f.key <;> simp [here, own]

theorem Flights.idle_resolve (flights : Flights s) (awaited : s.fetches[n]? = some f) :
    ¬((s.succeed f page).finish n f).Fetching f.key := by
  have apart : ((s.succeed f page).finish n f).Fetching f.key ↔ _ :=
    flights.fetching_finish awaited rfl
  rw [apart]
  exact fun still => still.2 rfl

/-- A list with the key that did not ask displays the page only if it adds nothing. -/
theorem shown_resolve_iff (flights : Flights s) (sync : InSync s)
    (awaited : s.fetches[n]? = some f) : Shown ((s.succeed f page).finish n f) ↔
      (page.items = [] ∧ page.nextPageToken ≠ "") ∨
        ∀ (i : Nat) (l : InfiniteList T E), s.lists[i]? = some l → l.mounted = true →
          l.key = f.key → i = f.list := by
  have open_ := flights.open_ f (List.mem_of_getElem? awaited)
  constructor
  · intro shown
    by_cases told : ∀ (i : Nat) (l : InfiniteList T E), s.lists[i]? = some l → l.mounted = true →
        l.key = f.key → i = f.list
    · exact .inr told
    push Not at told
    obtain ⟨i, l, found, mounted, own, untold⟩ := told
    -- it still displays the entry as it was
    have kept : ((s.succeed f page).finish n f).lists[i]? = some l := by
      rw [resolve_lists, found, Option.map_some, if_neg fun both => untold both.1]
    have idle : ¬((s.succeed f page).finish n f).Fetching l.key := by
      rw [own]
      exact flights.idle_resolve awaited
    obtain ⟨items, done⟩ := shown l (List.mem_of_getElem? kept) mounted idle
    obtain ⟨items', done'⟩ := sync i l found mounted
    rw [resolve_cache, if_pos own] at items done
    rw [own] at items' done'
    left
    constructor
    · simpa [items'] using items
    · rw [done', open_] at done
      simpa using done
  · rintro told l' member mounted -
    obtain ⟨j, at_⟩ := List.mem_iff_getElem?.mp member
    rw [resolve_lists] at at_
    obtain ⟨l, found, rfl⟩ := Option.map_eq_some_iff.mp at_
    by_cases asked : j = f.list ∧ l.key = f.key
    · rw [if_pos asked, Shows, resolve_cache, if_pos asked.2]
      exact ⟨rfl, rfl⟩
    rw [if_neg asked] at mounted ⊢
    have shown := sync j l found mounted
    unfold Shows at shown ⊢
    rw [resolve_cache]
    by_cases own : l.key = f.key
    · rcases told with ⟨nothing, more⟩ | told
      · rw [own] at shown
        rw [if_pos own]
        simp [shown, nothing, more, open_]
      · exact absurd ⟨told j l found mounted own, own⟩ asked
    · rw [if_neg own]
      exact shown

theorem InSync.shown (sync : InSync s) : Shown s := by
  intro l member mounted _
  obtain ⟨j, found⟩ := List.mem_iff_getElem?.mp member
  exact sync j l found mounted

theorem shown_step_iff (flights : Flights s) (sync : InSync s) (h : step s e = some s') :
    Shown s' ↔ ToOnly s e := by
  by_cases resolved : ∃ n page, e = .resolve n page
  · obtain ⟨n, page, rfl⟩ := resolved
    obtain ⟨f, awaited, rfl⟩ := Option.map_eq_some_iff.mp h
    rw [shown_resolve_iff flights sync awaited]
    simp only [ToOnly, awaited, Option.some.injEq, forall_eq']
  · have other : ∀ n page, e ≠ .resolve n page := fun n page same => resolved ⟨n, page, same⟩
    refine iff_of_true (step_inSync sync h other).shown ?_
    cases e with
    | resolve n page => exact absurd rfl (other n page)
    | _ => trivial

/-- Once a page has arrived, what is displayed is what was displayed before the next one. -/
theorem step_inSync_of_shown (flights : Flights s) (sync : InSync s) (h : step s e = some s')
    (shown : Shown s') : InSync s' := by
  by_cases resolved : ∃ n page, e = .resolve n page
  · obtain ⟨n, page, rfl⟩ := resolved
    obtain ⟨f, awaited, rfl⟩ := Option.map_eq_some_iff.mp h
    intro j l' at_ mounted
    by_cases own : l'.key = f.key
    · apply shown l' (List.mem_of_getElem? at_) mounted
      rw [own]
      exact flights.idle_resolve awaited
    · rw [resolve_lists] at at_
      obtain ⟨l, found, rfl⟩ := Option.map_eq_some_iff.mp at_
      by_cases asked : j = f.list ∧ l.key = f.key
      · rw [if_pos asked] at own
        exact absurd asked.2 own
      · rw [if_neg asked] at own mounted ⊢
        rw [Shows, resolve_cache, if_neg own]
        exact sync j l found mounted
  · exact step_inSync sync h fun n page same => resolved ⟨n, page, same⟩

/-- Several lists may share a key, or follow each other while it is fetched. -/
theorem shown_iff_toOnly (events : List (ListEvent T E)) :
    Transition.Along step Shown ({} : Pagination T E) events ↔
      Transition.StepsMeet step ToOnly ({} : Pagination T E) events := by
  apply Transition.along_iff_stepsMeet (I := fun s => Flights s ∧ (Shown s → InSync s))
  · rintro s e s' ⟨flights, sync⟩ shown h
    exact ⟨step_flights flights h, step_inSync_of_shown flights (sync shown) h⟩
  · rintro s e s' ⟨flights, sync⟩ shown h
    exact shown_step_iff flights (sync shown) h
  · refine ⟨Flights.initial, ?_⟩
    rintro - j l found
    cases found
  · exact List.forall_mem_nil _

/-- The list left while its first page was fetched, and a new list with the key after it. -/
theorem returned_stays_empty : ¬Transition.Along step Shown ({} : Pagination Nat String)
    [.mount "a", .unmount 0, .mount "a", .resolve 0 ⟨[1, 2], ""⟩] := by
  decide

end Byom.Ui.Pagination
