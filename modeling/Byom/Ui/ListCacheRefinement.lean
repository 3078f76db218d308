import Mathlib.Data.List.InsertIdx
import Byom.Ui.ListCache

/-!
# Between two clears

While no entry has been dropped, the objects are the entries of their keys, and the steps are
those of `Pagination`.
-/

namespace Byom.Ui

universe u v

variable {T : Type u} {E : Type v}

def EntryFetch.fetch (f : EntryFetch) : Fetch := ⟨f.list, f.key, f.pageToken⟩

namespace ListCache

/-- Every fetch has hold of the entry that the cache has for its key. -/
def NoneDropped (s : ListCache T E) : Prop := ∀ f ∈ s.fetches, s.cache f.key = some f.entry

/-- What keys have, whatever object it is in. -/
def pagination (s : ListCache T E) : Pagination T E where
  cache key := ((s.cache key).map fun n => s.entry n).getD {}
  lists := s.lists
  fetches := s.fetches.map EntryFetch.fetch

variable {s s' : ListCache T E} {key : String} {i n : Nat} {f : EntryFetch} {m : Made T}
  {page : Page T}

theorem pagination_cache (held : s.cache key = some n) :
    s.pagination.cache key = s.entry n := by
  simp [pagination, held]

theorem Flights.pagination_entryFor (flights : Flights s) (key : String) :
    (s.entryFor key).2.pagination = s.pagination ∧
      (s.entryFor key).2.cache key = some (s.entryFor key).1 := by
  rcases entryFor_cases key s with ⟨n, held, same⟩ | ⟨absent, new⟩
  · rw [same]
    exact ⟨rfl, held⟩
  · rw [new]
    refine ⟨?_, Function.update_self _ _ _⟩
    unfold pagination
    congr 1
    funext k
    by_cases own : k = key
    · simp [own, absent, entry]
    · simp only [Function.update_of_ne own]
      cases held : s.cache k with
      | none => rfl
      | some n =>
        obtain ⟨m, found, _⟩ := flights.cached k n held
        have old := made_append_new n { key } found
        simp [entry, found, old]

theorem Indexed.pagination_setEntry (cached : Indexed s) (held : s.cache key = some n)
    (set : Entry T → Entry T) : (s.setEntry n set).pagination = s.pagination.setEntry key set := by
  unfold pagination Pagination.setEntry
  congr 1
  funext k
  obtain ⟨m, found, own⟩ := cached key n held
  by_cases same : k = key
  · subst same
    have here : (s.setEntry n set).cache k = some n := held
    simp [here, held, entry, made_setEntry, found]
  · rw [Function.update_of_ne same]
    cases other : s.cache k with
    | none =>
      have here : (s.setEntry n set).cache k = none := other
      simp [here, other]
    | some j =>
      have here : (s.setEntry n set).cache k = some j := other
      obtain ⟨m', found', own'⟩ := cached k j other
      -- an object is made for one key
      have apart : j ≠ n := by
        rintro rfl
        cases found.symm.trans found'
        exact same (own'.symm.trans own)
      simp [here, other, entry, made_setEntry, found', apart]

theorem pagination_setSignals (set : InfiniteList T E → InfiniteList T E) :
    (s.setSignals i set).pagination = s.pagination.setSignals i set := rfl

theorem Flights.pagination_startFetch (flights : Flights s) (held : s.cache key = some n) :
    (s.startFetch i key n).pagination = s.pagination.startFetch i key := by
  have set := flights.cached.pagination_setEntry held fun entry => { entry with inflight := true }
  have token := pagination_cache held
  unfold ListCache.startFetch Pagination.startFetch
  rw [← set, token]
  unfold pagination
  simp only [List.map_append, List.map_cons, List.map_nil]
  rfl

theorem Flights.pagination_loadMore (flights : Flights s) (i : Nat) :
    (s.loadMore i).pagination = s.pagination.loadMore i := by
  unfold ListCache.loadMore Pagination.loadMore
  have lists : s.pagination.lists = s.lists := rfl
  rw [lists]
  cases s.lists[i]? with
  | none => rfl
  | some l =>
    obtain ⟨same, held⟩ := flights.pagination_entryFor l.key
    have flights' := flights.entryFor l.key
    have own := pagination_cache held
    have started := flights'.pagination_startFetch (i := i) held
    simp only
    rw [← own, same]
    split
    · exact same
    · rw [started, same]

theorem Flights.pagination_runEffect (flights : Flights s) (i : Nat) :
    (s.runEffect i).pagination = s.pagination.runEffect i := by
  unfold ListCache.runEffect Pagination.runEffect
  have lists : s.pagination.lists = s.lists := rfl
  rw [lists]
  cases s.lists[i]? with
  | none => rfl
  | some l =>
    obtain ⟨same, held⟩ := flights.pagination_entryFor l.key
    have flights' := flights.entryFor l.key
    have own := pagination_cache held
    simp only
    rw [← own, same]
    split
    · rw [(flights'.setSignals _).pagination_loadMore i, pagination_setSignals, same]
    · rw [pagination_setSignals, same]

theorem Indexed.pagination_finish (cached : Indexed s) (held : s.cache f.key = some f.entry)
    (n : Nat) : (s.finish n f).pagination = s.pagination.finish n f.fetch := by
  have set := cached.pagination_setEntry held fun entry => { entry with inflight := false }
  have key : f.fetch.key = f.key := rfl
  unfold ListCache.finish Pagination.finish
  rw [key, ← set]
  unfold pagination
  simp only [← List.eraseIdx_map]
  rfl

theorem Indexed.pagination_succeed (cached : Indexed s) (held : s.cache f.key = some f.entry)
    (page : Page T) :
    (s.succeed f page).pagination = s.pagination.succeed f.fetch page := by
  have set := cached.pagination_setEntry held fun entry => { entry with
    items := entry.items ++ page.items
    pageToken := page.nextPageToken
    done := page.nextPageToken = "" }
  have key : f.fetch.key = f.key := rfl
  have now : (s.setEntry f.entry fun entry => { entry with
      items := entry.items ++ page.items
      pageToken := page.nextPageToken
      done := page.nextPageToken = "" }).cache f.key = some f.entry := held
  unfold succeed Pagination.succeed
  simp only [key, ← set]
  generalize s.setEntry f.entry _ = mid at now
  rw [pagination_cache now]
  rfl

/-- The steps are the same, and an entry is not dropped by them. -/
theorem listStep_pagination (flights : Flights s) (none : NoneDropped s) (e : ListEvent T E) :
    (listStep s e).map pagination = Pagination.step s.pagination e := by
  have mounted : ∀ i, s.pagination.mountedList i = s.mountedList i := fun _ => rfl
  have awaited : ∀ n : Nat, s.pagination.fetches[n]? = s.fetches[n]?.map EntryFetch.fetch := by
    intro n
    simp [pagination]
  cases e with
  | mount key =>
    have flights' : Flights { s with lists := s.lists ++ [{ key }] } :=
      ⟨flights.cached, flights.once, flights.awaits⟩
    exact congrArg some (flights'.pagination_runEffect _)
  | unmount i =>
    simp only [listStep, Pagination.step, mounted, Option.map_map]
    rfl
  | setKey i key =>
    simp only [listStep, Pagination.step, mounted, Option.map_map]
    congr 1
    funext l
    simp only [Function.comp_apply]
    split_ifs
    · rfl
    · exact (flights.setSignals _).pagination_runEffect i
  | loadMore i =>
    simp only [listStep, Pagination.step, mounted, Option.map_map]
    congr 1
    funext l
    exact flights.pagination_loadMore i
  | resolve n page =>
    simp only [listStep, Pagination.step, awaited, Option.map_map]
    cases found : s.fetches[n]? with
    | none => rfl
    | some f =>
      have held := none f (List.mem_of_getElem? found)
      have now := flights.cached.pagination_succeed held page
      have cached : Indexed (s.succeed f page) := flights.cached.setEntry f.entry fun entry =>
        { entry with
          items := entry.items ++ page.items
          pageToken := page.nextPageToken
          done := page.nextPageToken = "" }
      simp only [Option.map_some, Function.comp_apply, ← now]
      exact congrArg some (cached.pagination_finish held n)
  | reject n error =>
    simp only [listStep, Pagination.step, awaited, Option.map_map]
    cases found : s.fetches[n]? with
    | none => rfl
    | some f =>
      have held := none f (List.mem_of_getElem? found)
      have cached : Indexed (s.catchError f error) := flights.cached
      exact congrArg some (cached.pagination_finish held n)
  | setScrollY i y =>
    simp only [listStep, Pagination.step, mounted, Option.map_map]
    congr 1
    funext l
    obtain ⟨same, held⟩ := flights.pagination_entryFor l.key
    have set := (flights.entryFor l.key).cached.pagination_setEntry held fun entry =>
      { entry with scrollY := y }
    simp only [Function.comp_apply, setScrollY]
    rw [pagination_setSignals, set, same]

/-! ### Entries stay in the cache -/

theorem NoneDropped.entryFor (none : NoneDropped s) (key : String) :
    NoneDropped (s.entryFor key).2 := by
  rcases entryFor_cases key s with ⟨n, _, same⟩ | ⟨absent, new⟩
  · rw [same]
    exact none
  · rw [new]
    intro f awaited
    have held := none f awaited
    have apart : f.key ≠ key := by
      rintro rfl
      rw [absent] at held
      cases held
    exact (Function.update_of_ne apart _ _).trans held

theorem NoneDropped.loadMore (none : NoneDropped s) (flights : Flights s) (i : Nat) :
    NoneDropped (s.loadMore i) := by
  rcases loadMore_cases flights i with same | ⟨l, _, found | ⟨m, _, own, _, _, started⟩⟩
  · rw [same]
    exact none
  · rw [found]
    exact none.entryFor l.key
  · rw [started]
    intro f awaited
    rcases List.mem_append.mp awaited with old | new
    · exact none.entryFor l.key f old
    · obtain rfl := List.mem_singleton.mp new
      rw [own]
      exact (flights.pagination_entryFor l.key).2

theorem NoneDropped.runEffect (none : NoneDropped s) (flights : Flights s) (i : Nat) :
    NoneDropped (s.runEffect i) := by
  unfold ListCache.runEffect
  cases s.lists[i]? with
  | none => exact none
  | some l =>
    have copied : ∀ set, NoneDropped ((s.entryFor l.key).2.setSignals i set) :=
      fun _ => none.entryFor l.key
    simp only
    split
    · exact (copied _).loadMore ((flights.entryFor l.key).setSignals _) i
    · exact copied _

theorem listStep_noneDropped (flights : Flights s) (none : NoneDropped s) {e : ListEvent T E}
    (h : listStep s e = some s') : NoneDropped s' := by
  cases e with
  | mount key =>
    cases h
    have flights' : Flights { s with lists := s.lists ++ [{ key }] } :=
      ⟨flights.cached, flights.once, flights.awaits⟩
    have none' : NoneDropped { s with lists := s.lists ++ [{ key }] } := none
    exact none'.runEffect flights' _
  | unmount i =>
    obtain ⟨l, _, rfl⟩ := Option.map_eq_some_iff.mp h
    exact none
  | setKey i key =>
    obtain ⟨l, _, rfl⟩ := Option.map_eq_some_iff.mp h
    have none' : NoneDropped (s.setSignals i fun l => { l with key }) := none
    split_ifs
    · exact none
    · exact none'.runEffect (flights.setSignals _) i
  | loadMore i =>
    obtain ⟨l, _, rfl⟩ := Option.map_eq_some_iff.mp h
    exact none.loadMore flights i
  | resolve n page =>
    obtain ⟨f, _, rfl⟩ := Option.map_eq_some_iff.mp h
    exact fun g awaited => none g (List.mem_of_mem_eraseIdx awaited)
  | reject n error =>
    obtain ⟨f, _, rfl⟩ := Option.map_eq_some_iff.mp h
    exact fun g awaited => none g (List.mem_of_mem_eraseIdx awaited)
  | setScrollY i y =>
    obtain ⟨l, _, rfl⟩ := Option.map_eq_some_iff.mp h
    exact none.entryFor l.key

/-- Runs of list events are those of the plain cache. -/
theorem run_pagination (events : List (ListEvent T E)) :
    (Transition.run step ({} : ListCache T E) (events.map .list)).map pagination =
      Transition.run Pagination.step ({} : Pagination T E) events := by
  have general : ∀ s : ListCache T E, Flights s → NoneDropped s →
      (Transition.run step s (events.map .list)).map pagination =
        Transition.run Pagination.step s.pagination events := by
    induction events with
    | nil => exact fun _ _ _ => rfl
    | cons e rest ih =>
      intro s flights none
      have one := listStep_pagination flights none e
      rw [List.map_cons, Transition.run_cons, Transition.run_cons, ← one]
      cases next : listStep s e with
      | none => simp [step, next]
      | some s' =>
        have flights' : Flights s' := step_flights flights (e := .list e) next
        simpa [step, next] using ih s' flights' (listStep_noneDropped flights none next)
  exact general {} Flights.initial (List.forall_mem_nil _)

end ListCache

end Byom.Ui
