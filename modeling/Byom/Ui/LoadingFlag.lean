import Byom.Ui.InfiniteList

/-!
# The loading flag

One mounted list, on the entries that earlier lists left. The flag is set and cleared by the
fetches of the current key, and a key change carries it over to the next key.
-/

namespace Byom.Ui

universe u v

/-- What happens to one mounted list. -/
inductive ListChange (T : Type u) (E : Type v) where
  | setKey (key : String)
  | loadMore
  | resolve (fetch : Nat) (page : Page T)
  | reject (fetch : Nat) (error : E)
  | setScrollY (y : Int)

variable {T : Type u} {E : Type v}

def ListChange.event : ListChange T E → ListEvent T E
  | .setKey key => .setKey 0 key
  | .loadMore => .loadMore 0
  | .resolve n page => .resolve n page
  | .reject n error => .reject n error
  | .setScrollY y => .setScrollY 0 y

/-- The effect loads the first page of such an entry. -/
def Entry.Fresh (entry : Entry T) : Prop :=
  entry.items = [] ∧ entry.done = false ∧ entry.inflight = false

namespace Pagination

def change (s : Pagination T E) (c : ListChange T E) : Option (Pagination T E) := step s c.event

/-- Nothing is in flight before the list is mounted. -/
def mountedOn (stored : String → Entry T) (key : String) : Pagination T E :=
  runEffect 0 {
    cache := fun key => { stored key with inflight := false }
    lists := [{ key }] }

/-- The flag says whether the current key is being fetched. -/
def LoadingTells (s : Pagination T E) : Prop :=
  ∀ l ∈ s.lists, l.loading = true ↔ s.Fetching l.key

instance (s : Pagination T E) : Decidable (LoadingTells s) :=
  inferInstanceAs (Decidable (∀ l ∈ s.lists, l.loading = true ↔ s.Fetching l.key))

/-- The list switches to a key that is fetched as the current one is, or that it fetches. -/
def SwitchesAlike (s : Pagination T E) : ListChange T E → Prop
  | .setKey key => ∀ l ∈ s.lists, key ≠ l.key →
    (s.cache key).Fresh ∨ (s.cache l.key).inflight = (s.cache key).inflight
  | _ => True

/-- There is one list, and the fetches are its own. -/
structure Sole (s : Pagination T E) : Prop where
  one : ∃ l, s.lists = [l]
  own : ∀ f ∈ s.fetches, f.list = 0

variable {s s' : Pagination T E} {l : InfiniteList T E} {n : Nat} {f : Fetch}
  {set : InfiniteList T E → InfiniteList T E}

/-- The flag is the one of the entry. -/
def Tells (s : Pagination T E) : Prop := ∀ l ∈ s.lists, l.loading = (s.cache l.key).inflight

theorem mount_eq_mountedOn (stored : String → Entry T) (key : String) :
    step ({ cache := fun key => { stored key with inflight := false } } : Pagination T E)
      (.mount key) = some (mountedOn stored key) := rfl

theorem loadingTells_iff (flights : Flights s) : LoadingTells s ↔ Tells s := by
  unfold LoadingTells Tells
  apply forall₂_congr
  intro l _
  rw [← flights.inflight]
  exact Bool.eq_iff_iff.symm

theorem tells_iff (one : s.lists = [l]) : Tells s ↔ l.loading = (s.cache l.key).inflight := by
  rw [Tells, one, List.forall_mem_singleton]

theorem sole_setSignals (one : s.lists = [l]) : (s.setSignals 0 set).lists = [set l] := by
  simp [setSignals, one]

/-! ### One list -/

theorem Sole.setSignals (sole : Sole s) : Sole (s.setSignals 0 set) := by
  obtain ⟨l, one⟩ := sole.one
  exact ⟨⟨set l, sole_setSignals one⟩, sole.own⟩

theorem Sole.setEntry {key : String} {set : Entry T → Entry T} (sole : Sole s) :
    Sole (s.setEntry key set) := ⟨sole.one, sole.own⟩

theorem Sole.loadMore (sole : Sole s) : Sole (s.loadMore 0) := by
  rcases loadMore_cases 0 s with same | ⟨l, _, _, _, started⟩
  · rw [same]
    exact sole
  · rw [started]
    have signals : Sole (s.setSignals 0 fun l => { l with loading := true }) := sole.setSignals
    refine ⟨signals.one, ?_⟩
    intro f member
    rcases List.mem_append.mp member with old | new
    · exact sole.own f old
    · rw [List.mem_singleton.mp new]

theorem Sole.runEffect (sole : Sole s) : Sole (s.runEffect 0) := by
  unfold Pagination.runEffect
  cases s.lists[0]? with
  | none => exact sole
  | some l =>
    simp only
    split
    · exact sole.setSignals.loadMore
    · exact sole.setSignals

theorem Sole.finish (sole : Sole s) (awaited : s.fetches[n]? = some f) : Sole (s.finish n f) := by
  have own := sole.own f (List.mem_of_getElem? awaited)
  refine ⟨?_, fun g member => sole.own g (List.mem_of_mem_eraseIdx member)⟩
  unfold Pagination.finish
  rw [own]
  exact sole.setSignals.one

theorem change_sole {c : ListChange T E} (sole : Sole s) (h : change s c = some s') : Sole s' := by
  cases c with
  | setKey key =>
    obtain ⟨l, _, rfl⟩ := Option.map_eq_some_iff.mp h
    split
    · exact sole
    · exact sole.setSignals.runEffect
  | loadMore =>
    obtain ⟨l, _, rfl⟩ := Option.map_eq_some_iff.mp h
    exact sole.loadMore
  | resolve n page =>
    obtain ⟨f, awaited, rfl⟩ := Option.map_eq_some_iff.mp h
    have own := sole.own f (List.mem_of_getElem? awaited)
    have written : Sole (s.succeed f page) := by
      unfold succeed
      rw [own]
      exact sole.setEntry.setSignals
    exact written.finish awaited
  | reject n error =>
    obtain ⟨f, awaited, rfl⟩ := Option.map_eq_some_iff.mp h
    have own := sole.own f (List.mem_of_getElem? awaited)
    have written : Sole (s.catchError f error) := by
      unfold catchError
      rw [own]
      exact sole.setSignals
    exact written.finish awaited
  | setScrollY y =>
    obtain ⟨l, _, rfl⟩ := Option.map_eq_some_iff.mp h
    exact sole.setEntry.setSignals

/-! ### The flag -/

theorem tells_startFetch {key : String} (one : s.lists = [l]) (current : l.key = key) :
    Tells (s.startFetch 0 key) := by
  have listed : (s.startFetch 0 key).lists = [{ l with loading := true }] :=
    sole_setSignals (s := s.setEntry key _) one
  rw [tells_iff listed, startFetch_cache, if_pos current]

theorem tells_loadMore (one : s.lists = [l]) (tells : Tells s) : Tells (s.loadMore 0) := by
  rcases loadMore_cases 0 s with same | ⟨l', found, _, _, started⟩
  · rw [same]
    exact tells
  · obtain rfl : l = l' := by simpa [one] using found
    rw [started]
    exact tells_startFetch one rfl

/-- The effect leaves the flag alone, unless it loads the first page. -/
theorem tells_runEffect_iff (one : s.lists = [l]) : Tells (s.runEffect 0) ↔
    (s.cache l.key).Fresh ∨ l.loading = (s.cache l.key).inflight := by
  have found : s.lists[0]? = some l := by simp [one]
  generalize ready : s.setSignals 0 (fun m => { m with
    items := (s.cache l.key).items
    done := (s.cache l.key).done
    scrollY := (s.cache l.key).scrollY
    error := none }) = t
  have copied : t.lists = [{ l with
      items := (s.cache l.key).items
      done := (s.cache l.key).done
      scrollY := (s.cache l.key).scrollY
      error := none }] := by
    rw [← ready]
    exact sole_setSignals one
  have cache : t.cache = s.cache := by
    rw [← ready]
    rfl
  simp only [runEffect, found, ready]
  have same := tells_iff copied
  rw [cache] at same
  by_cases fresh : (s.cache l.key).Fresh
  · obtain ⟨items, done, inflight⟩ := fresh
    have started : t.loadMore 0 = t.startFetch 0 l.key := by
      simp [loadMore, copied, cache, inflight, done]
    rw [if_pos (by simp [items, done]), started]
    exact iff_of_true (tells_startFetch copied rfl) (.inl ⟨items, done, inflight⟩)
  · have idle : (if (s.cache l.key).items.length = 0 && !(s.cache l.key).done then
        t.loadMore 0 else t) = t := by
      split
      · rename_i wanted
        obtain ⟨items, done⟩ : (s.cache l.key).items = [] ∧ (s.cache l.key).done = false := by
          simpa using wanted
        have inflight : (s.cache l.key).inflight = true := by
          by_contra off
          exact fresh ⟨items, done, (Bool.not_eq_true _).mp off⟩
        simp [loadMore, copied, cache, inflight]
      · rfl
    rw [idle, same, or_iff_right fresh]

theorem tells_finish (one : s.lists = [l]) (own : f.list = 0)
    (others : l.key ≠ f.key → l.loading = (s.cache l.key).inflight) : Tells (s.finish n f) := by
  have listed : (s.finish n f).lists =
      [if l.key = f.key then { l with loading := false } else l] := by
    unfold finish
    rw [own]
    exact sole_setSignals (s := s.setEntry f.key _) one
  rw [tells_iff listed, finish_cache]
  by_cases current : l.key = f.key
  · simp [current]
  · simpa [current] using others current

theorem change_tells_iff {c : ListChange T E} (sole : Sole s) (tells : Tells s)
    (h : change s c = some s') : Tells s' ↔ SwitchesAlike s c := by
  obtain ⟨l, one⟩ := sole.one
  cases c with
  | setKey key =>
    obtain ⟨l', here, rfl⟩ := Option.map_eq_some_iff.mp h
    obtain rfl : l = l' := by
      have found := Option.eq_some_of_filter_eq_some here
      simpa [one] using found
    have flag := (tells_iff one).mp tells
    rw [SwitchesAlike, one, List.forall_mem_singleton]
    by_cases current : key = l.key
    · rw [if_pos current]
      exact iff_of_true tells fun other => absurd current other
    · rw [if_neg current]
      have switched : (s.setSignals 0 fun l => { l with key }).lists = [{ l with key }] :=
        sole_setSignals one
      rw [tells_runEffect_iff switched, imp_iff_right current, ← flag]
      rfl
  | loadMore =>
    obtain ⟨l', _, rfl⟩ := Option.map_eq_some_iff.mp h
    exact iff_of_true (tells_loadMore one tells) trivial
  | resolve n page =>
    obtain ⟨f, awaited, rfl⟩ := Option.map_eq_some_iff.mp h
    refine iff_of_true ?_ trivial
    have own := sole.own f (List.mem_of_getElem? awaited)
    have written : (s.succeed f page).lists = [if l.key = f.key then { l with
        items := ((s.succeed f page).cache f.key).items
        done := ((s.succeed f page).cache f.key).done
        error := none } else l] := by
      unfold succeed
      rw [own]
      exact sole_setSignals (s := s.setEntry f.key _) one
    apply tells_finish written own
    split
    · exact fun other => absurd (by assumption) other
    · intro other
      rw [succeed_cache, if_neg other]
      exact (tells_iff one).mp tells
  | reject n error =>
    obtain ⟨f, awaited, rfl⟩ := Option.map_eq_some_iff.mp h
    refine iff_of_true ?_ trivial
    have own := sole.own f (List.mem_of_getElem? awaited)
    have written : (s.catchError f error).lists =
        [if l.key = f.key then { l with error := some error } else l] := by
      unfold catchError
      rw [own]
      exact sole_setSignals one
    apply tells_finish written own
    split
    · exact fun other => absurd (by assumption) other
    · exact fun _ => (tells_iff one).mp tells
  | setScrollY y =>
    obtain ⟨l', _, rfl⟩ := Option.map_eq_some_iff.mp h
    refine iff_of_true ?_ trivial
    have scrolled : ((s.setEntry l'.key fun entry => { entry with scrollY := y }).setSignals 0
        fun l => { l with scrollY := y }).lists = [{ l with scrollY := y }] := sole_setSignals one
    rw [tells_iff scrolled]
    have cache : ((s.setEntry l'.key fun entry => { entry with scrollY := y }).cache l.key).inflight =
        (s.cache l.key).inflight := by
      rw [cache_setScrollY]
    exact ((tells_iff one).mp tells).trans cache.symm

/-- A switch to a key that is fetched unlike the current one leaves the flag wrong, and no
other change does. -/
theorem loadingTells_iff_switchesAlike (stored : String → Entry T) (key : String)
    (changes : List (ListChange T E)) :
    Transition.Along change LoadingTells (mountedOn stored key) changes ↔
      Transition.StepsMeet change SwitchesAlike (mountedOn stored key) changes := by
  have quiet : Flights ({ cache := fun key => { stored key with inflight := false } } :
      Pagination T E) := by
    refine ⟨?_, List.nodup_nil, List.forall_mem_nil _, List.forall_mem_nil _⟩
    simp [Fetching]
  have flights : Flights (mountedOn (E := E) stored key) :=
    step_flights quiet (mount_eq_mountedOn stored key)
  have sole : Sole (mountedOn (E := E) stored key) := by
    apply Sole.runEffect
    exact ⟨⟨_, rfl⟩, List.forall_mem_nil _⟩
  have tells : Tells (mountedOn (E := E) stored key) := by
    apply (tells_runEffect_iff rfl).mpr
    exact .inr rfl
  apply Transition.along_iff_stepsMeet (I := fun s => Flights s ∧ Sole s)
  · rintro s c s' ⟨flights, sole⟩ - h
    exact ⟨step_flights flights h, change_sole sole h⟩
  · rintro s c s' ⟨flights, sole⟩ tells h
    rw [loadingTells_iff (step_flights flights h)]
    exact change_tells_iff sole ((loadingTells_iff flights).mp tells) h
  · exact ⟨flights, sole⟩
  · exact (loadingTells_iff flights).mpr tells

/-- Back to a cached key while the other one loads. -/
theorem back_to_cached_sticks :
    ¬Transition.Along change LoadingTells (mountedOn (T := Nat) (E := String) (fun _ => {}) "a")
      [.resolve 0 ⟨[1, 2], "2"⟩, .setKey "b", .setKey "a"] := by
  decide

end Pagination

end Byom.Ui
