import Byom.Ui.ListCache

/-!
# What lists display

What pages build up from nothing holds of every entry, and of what every list displays, also
of entries that were dropped from the cache.
-/

namespace Byom.Ui

universe u v w

variable {T : Type u} {E : Type v}

namespace ListCache

/-- What is to hold of a key, with items, the next token and whether that is all. -/
abbrev Claim (T : Type u) := String → List T → String → Bool → Prop

def EntriesMeet (Q : Claim T) (s : ListCache T E) : Prop :=
  ∀ m ∈ s.made, Q m.key m.entry.items m.entry.pageToken m.entry.done

def Displays (Q : Claim T) (l : InfiniteList T E) : Prop := ∃ token, Q l.key l.items token l.done

def ListsMeet (Q : Claim T) (s : ListCache T E) : Prop := ∀ l ∈ s.lists, Displays Q l

/-- The lists other than the one at `i`. -/
def ListsMeetBut (i : Nat) (Q : Claim T) (s : ListCache T E) : Prop :=
  ∀ (j : Nat) (l : InfiniteList T E), j ≠ i → s.lists[j]? = some l → Displays Q l

/-- A page that arrives adds to what holds of its key. -/
def Advances (Q : Claim T) (s : ListCache T E) : CacheEvent T E → Prop
  | .list (.resolve n page) => ∀ f ∈ s.fetches[n]?, ∀ items, Q f.key items f.pageToken false →
    Q f.key (items ++ page.items) page.nextPageToken (page.nextPageToken = "")
  | _ => True

variable {Q : Claim T} {s s' : ListCache T E} {key : String} {i n : Nat} {f : EntryFetch}
  {m : Made T} {page : Page T}

theorem EntriesMeet.entryFor (entries : EntriesMeet Q s) (new : Q key [] "" false) :
    EntriesMeet Q (s.entryFor key).2 := by
  intro m made
  obtain ⟨j, found⟩ := List.mem_iff_getElem?.mp made
  rcases made_entryFor found with old | rfl
  · exact entries m (List.mem_of_getElem? old)
  · exact new

theorem EntriesMeet.setEntry (entries : EntriesMeet Q s) {set : Entry T → Entry T}
    (keeps : ∀ m, s.made[n]? = some m → Q m.key m.entry.items m.entry.pageToken m.entry.done →
      Q m.key (set m.entry).items (set m.entry).pageToken (set m.entry).done) :
    EntriesMeet Q (s.setEntry n set) := by
  intro m' made
  obtain ⟨j, found⟩ := List.mem_iff_getElem?.mp made
  rw [made_setEntry] at found
  obtain ⟨m, old, rfl⟩ := Option.map_eq_some_iff.mp found
  have held := entries m (List.mem_of_getElem? old)
  by_cases own : j = n
  · rw [if_pos own]
    exact keeps m (own ▸ old) held
  · rw [if_neg own]
    exact held

theorem EntriesMeet.loadMore (entries : EntriesMeet Q s) (flights : Flights s)
    (new : ∀ key, Q key [] "" false) (i : Nat) : EntriesMeet Q (s.loadMore i) := by
  rcases loadMore_cases flights i with same | ⟨l, _, found | ⟨m, _, _, _, _, started⟩⟩
  · rw [same]
    exact entries
  · rw [found]
    exact entries.entryFor (new l.key)
  · have inflight : EntriesMeet Q ((s.entryFor l.key).2.setEntry (s.entryFor l.key).1
        fun entry => { entry with inflight := true }) :=
      (entries.entryFor (new l.key)).setEntry fun _ _ held => held
    rw [started]
    exact inflight

/-- Signals other than the key and what is displayed. -/
theorem ListsMeet.setSignals (lists : ListsMeet Q s) {set : InfiniteList T E → InfiniteList T E}
    (keeps : ∀ l, Displays Q l → Displays Q (set l)) : ListsMeet Q (s.setSignals i set) := by
  intro l' member
  obtain ⟨j, found⟩ := List.mem_iff_getElem?.mp member
  rw [lists_setSignals] at found
  obtain ⟨l, old, rfl⟩ := Option.map_eq_some_iff.mp found
  have shown := lists l (List.mem_of_getElem? old)
  split_ifs
  · exact keeps l shown
  · exact shown

theorem lists_loadMore (flights : Flights s) (i : Nat) : (s.loadMore i).lists = s.lists ∨
    (s.loadMore i).lists = (s.setSignals i fun l => { l with loading := true }).lists := by
  rcases loadMore_cases flights i with same | ⟨l, _, found | ⟨m, _, _, _, _, started⟩⟩
  · exact .inl (congrArg lists same)
  · left
    rw [found, lists_entryFor]
  · right
    rw [started]
    have kept := lists_entryFor l.key s
    unfold startFetch setEntry ListCache.setSignals
    rw [kept]

theorem ListsMeet.loadMore (lists : ListsMeet Q s) (flights : Flights s) (i : Nat) :
    ListsMeet Q (s.loadMore i) := by
  rcases lists_loadMore flights i with same | signals
  · intro l member
    exact lists l (same ▸ member)
  · have shown : ListsMeet Q (s.setSignals i fun l => { l with loading := true }) :=
      lists.setSignals fun _ shown => shown
    intro l member
    exact shown l (signals ▸ member)

theorem EntriesMeet.finish (entries : EntriesMeet Q s) (n : Nat) (f : EntryFetch) :
    EntriesMeet Q (s.finish n f) := by
  have written : EntriesMeet Q (s.setEntry f.entry fun entry => { entry with inflight := false }) :=
    entries.setEntry fun _ _ held => held
  exact written

theorem ListsMeet.finish (lists : ListsMeet Q s) (n : Nat) (f : EntryFetch) :
    ListsMeet Q (s.finish n f) := by
  have shown : ListsMeet Q (s.setSignals f.list fun l =>
      if l.key = f.key then { l with loading := false } else l) := by
    apply lists.setSignals
    intro l shown
    split_ifs <;> exact shown
  exact shown

/-- The effect displays the entry of the key, whatever the list displayed. -/
theorem meets_runEffect (entries : EntriesMeet Q s) (lists : ListsMeetBut i Q s)
    (flights : Flights s) (new : ∀ key, Q key [] "" false) :
    EntriesMeet Q (s.runEffect i) ∧ ListsMeet Q (s.runEffect i) := by
  unfold runEffect
  cases found : s.lists[i]? with
  | none =>
    refine ⟨entries, ?_⟩
    intro l member
    obtain ⟨j, at_⟩ := List.mem_iff_getElem?.mp member
    apply lists j l _ at_
    rintro rfl
    rw [found] at at_
    cases at_
  | some l =>
    have entries' := entries.entryFor (new l.key)
    have flights' := flights.entryFor l.key
    obtain ⟨m, made, own⟩ := flights.made_of_entryFor l.key
    have kept := lists_entryFor l.key s
    simp only [entry_of_made made]
    generalize (s.entryFor l.key).2 = mid at entries' flights' made kept
    have shown : ListsMeet Q (mid.setSignals i fun l => { l with
        items := m.entry.items
        done := m.entry.done
        scrollY := m.entry.scrollY
        error := none }) := by
      intro k' member
      obtain ⟨j, at_⟩ := List.mem_iff_getElem?.mp member
      rw [lists_setSignals, kept] at at_
      obtain ⟨k, was, rfl⟩ := Option.map_eq_some_iff.mp at_
      by_cases here : j = i
      · rw [here, found] at was
        cases was
        rw [if_pos here]
        exact ⟨m.entry.pageToken, own ▸ entries' m (List.mem_of_getElem? made)⟩
      · rw [if_neg here]
        exact lists j k here was
    generalize copied : mid.setSignals i _ = after at shown
    have entries'' : EntriesMeet Q after := by
      rw [← copied]
      exact entries'
    have flights'' : Flights after := by
      rw [← copied]
      exact flights'.setSignals _
    split
    · exact ⟨entries''.loadMore flights'' new i, shown.loadMore flights'' i⟩
    · exact ⟨entries'', shown⟩

/-- The page goes to the entry that the fetch has hold of, and to the list that asked. -/
theorem meets_resolve (entries : EntriesMeet Q s) (lists : ListsMeet Q s) (flights : Flights s)
    (awaited : s.fetches[n]? = some f)
    (advances : ∀ items, Q f.key items f.pageToken false →
      Q f.key (items ++ page.items) page.nextPageToken (page.nextPageToken = "")) :
    EntriesMeet Q ((s.succeed f page).finish n f) ∧
      ListsMeet Q ((s.succeed f page).finish n f) := by
  obtain ⟨m, made, own, _, more, token⟩ := flights.awaits f (List.mem_of_getElem? awaited)
  have before := entries m (List.mem_of_getElem? made)
  rw [own, more, token] at before
  have after := advances m.entry.items before
  have written : EntriesMeet Q (s.setEntry f.entry fun entry => { entry with
      items := entry.items ++ page.items
      pageToken := page.nextPageToken
      done := page.nextPageToken = "" }) := by
    apply entries.setEntry
    intro m' found _
    obtain rfl := Option.some.inj (made.symm.trans found)
    rw [own]
    exact after
  have now : (s.setEntry f.entry fun entry => { entry with
      items := entry.items ++ page.items
      pageToken := page.nextPageToken
      done := page.nextPageToken = "" }).made[f.entry]? = some { m with entry := { m.entry with
        items := m.entry.items ++ page.items
        pageToken := page.nextPageToken
        done := page.nextPageToken = "" } } := by
    rw [made_setEntry, made, Option.map_some, if_pos rfl]
  have shown : ListsMeet Q (s.succeed f page) := by
    unfold succeed
    simp only [entry_of_made now]
    apply ListsMeet.setSignals (s := s.setEntry f.entry _) lists
    intro l shown
    split_ifs with same
    · exact ⟨page.nextPageToken, same ▸ after⟩
    · exact shown
  have kept : EntriesMeet Q (s.succeed f page) := written
  exact ⟨kept.finish n f, shown.finish n f⟩

theorem step_meets (new : ∀ key, Q key [] "" false) (flights : Flights s)
    (entries : EntriesMeet Q s) (lists : ListsMeet Q s) {e : CacheEvent T E}
    (advances : Advances Q s e) (h : step s e = some s') : EntriesMeet Q s' ∧ ListsMeet Q s' := by
  cases e with
  | clearListCache =>
    cases h
    exact ⟨entries, lists⟩
  | list e =>
    cases e with
    | mount key =>
      cases h
      have flights' : Flights { s with lists := s.lists ++ [{ key }] } :=
        ⟨flights.cached, flights.once, flights.awaits⟩
      refine meets_runEffect (s := { s with lists := s.lists ++ [{ key }] }) entries ?_ flights' new
      intro j l apart found
      have old : j < s.lists.length := by
        have inside := (List.getElem?_eq_some_iff.mp found).1
        rw [List.length_append, List.length_singleton] at inside
        omega
      rw [List.getElem?_append_left old] at found
      exact lists l (List.mem_of_getElem? found)
    | unmount i =>
      obtain ⟨l, _, rfl⟩ := Option.map_eq_some_iff.mp h
      exact ⟨entries, lists.setSignals fun _ shown => shown⟩
    | setKey i key =>
      obtain ⟨l, _, rfl⟩ := Option.map_eq_some_iff.mp h
      split_ifs
      · exact ⟨entries, lists⟩
      · refine meets_runEffect (s := s.setSignals i _) entries ?_ (flights.setSignals _) new
        intro j k' apart found
        rw [lists_setSignals] at found
        obtain ⟨k, was, rfl⟩ := Option.map_eq_some_iff.mp found
        rw [if_neg apart]
        exact lists k (List.mem_of_getElem? was)
    | loadMore i =>
      obtain ⟨l, _, rfl⟩ := Option.map_eq_some_iff.mp h
      exact ⟨entries.loadMore flights new i, lists.loadMore flights i⟩
    | resolve n page =>
      obtain ⟨f, awaited, rfl⟩ := Option.map_eq_some_iff.mp h
      exact meets_resolve entries lists flights awaited (advances f awaited)
    | reject n error =>
      obtain ⟨f, awaited, rfl⟩ := Option.map_eq_some_iff.mp h
      have caught : ListsMeet Q (s.catchError f error) := by
        apply lists.setSignals
        intro l shown
        split_ifs <;> exact shown
      have kept : EntriesMeet Q (s.catchError f error) := entries
      exact ⟨kept.finish n f, caught.finish n f⟩
    | setScrollY i y =>
      obtain ⟨l, _, rfl⟩ := Option.map_eq_some_iff.mp h
      have kept : ListsMeet Q (s.entryFor l.key).2 := by
        intro k member
        exact lists k (lists_entryFor l.key s ▸ member)
      have entries' : EntriesMeet Q ((s.entryFor l.key).2.setEntry (s.entryFor l.key).1
          fun entry => { entry with scrollY := y }) :=
        (entries.entryFor (new l.key)).setEntry fun _ _ held => held
      have lists' : ListsMeet Q ((s.entryFor l.key).2.setSignals i
          fun l => { l with scrollY := y }) := kept.setSignals fun _ shown => shown
      exact ⟨entries', lists'⟩

/-- What pages keep holds throughout, whatever is mounted, switched, cleared or failed. -/
theorem along_of_advances (new : ∀ key, Q key [] "" false) (events : List (CacheEvent T E))
    (advances : Transition.StepsMeet step (Advances Q) ({} : ListCache T E) events) :
    Transition.Along step (fun s => EntriesMeet Q s ∧ ListsMeet Q s) ({} : ListCache T E)
      events := by
  apply Transition.along_of_stepsMeet
    (I := fun s => Flights s ∧ EntriesMeet Q s ∧ ListsMeet Q s) (C := Advances Q)
  · rintro s e s' ⟨flights, entries, lists⟩ advances h
    exact ⟨step_flights flights h, step_meets new flights entries lists advances h⟩
  · exact fun _ all => all.2
  · exact ⟨Flights.initial, List.forall_mem_nil _, List.forall_mem_nil _⟩
  · exact advances

end ListCache

/-! ### Lists of a server -/

variable {S : Type w} {ε : Type w}

/-- Items that pages of a server add up to, each from a state that meets `P`, with the token
of the next page. -/
inductive Served (serve : S → String → Except ε (Page T)) (P : S → Prop) :
    List T → String → Bool → Prop where
  | start : Served serve P [] "" false
  | page {items : List T} {token : String} {s : S} {page : Page T}
    (earlier : Served serve P items token false) (origin : P s)
    (answer : serve s token = .ok page) :
    Served serve P (items ++ page.items) page.nextPageToken (page.nextPageToken = "")

end Byom.Ui
