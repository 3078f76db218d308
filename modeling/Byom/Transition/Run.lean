/-!
# Runs of a partial step function

A system is a function `State → Action → Option State`; an action that is not
enabled has no successor. A run is given by its list of actions, so it can be
evaluated, and properties of all its states are stated along that list.
-/

namespace Byom.Transition

universe u v

variable {State : Type u} {Action : Type v}

/-- The state a list of actions leads to, if every one of them is enabled. -/
def run (step : State → Action → Option State) : State → List Action → Option State
  | s, [] => some s
  | s, a :: as => (step s a).bind fun s' => run step s' as

/-- `P` holds in every state the actions pass through, both ends included. -/
def Along (step : State → Action → Option State) (P : State → Prop) :
    State → List Action → Prop
  | s, [] => P s
  | s, a :: as => P s ∧ ∀ s', step s a = some s' → Along step P s' as

/-- Every step of the run meets `C` in the state it is taken in. -/
def StepsMeet (step : State → Action → Option State) (C : State → Action → Prop) :
    State → List Action → Prop
  | _, [] => True
  | s, a :: as => ∀ s', step s a = some s' → C s a ∧ StepsMeet step C s' as

/-- Runs are evaluated, so both can be decided along them. -/
instance decidableAlong (step : State → Action → Option State) (P : State → Prop)
    [DecidablePred P] : (s : State) → (as : List Action) → Decidable (Along step P s as)
  | s, [] => inferInstanceAs (Decidable (P s))
  | s, a :: as =>
    match h : step s a with
    | none => decidable_of_iff (P s) (by simp [Along, h])
    | some s' =>
      have := decidableAlong step P s' as
      decidable_of_iff (P s ∧ Along step P s' as) (by simp [Along, h])

instance decidableStepsMeet (step : State → Action → Option State) (C : State → Action → Prop)
    [∀ s a, Decidable (C s a)] : (s : State) → (as : List Action) →
      Decidable (StepsMeet step C s as)
  | _, [] => .isTrue trivial
  | s, a :: as =>
    match h : step s a with
    | none => .isTrue (by simp [StepsMeet, h])
    | some s' =>
      have := decidableStepsMeet step C s' as
      decidable_of_iff (C s a ∧ StepsMeet step C s' as) (by simp [StepsMeet, h])

variable {step : State → Action → Option State} {I P : State → Prop}
  {C : State → Action → Prop}

@[simp] theorem run_nil (s : State) : run step s [] = some s := rfl

@[simp] theorem run_cons (s : State) (a : Action) (as : List Action) :
    run step s (a :: as) = (step s a).bind fun s' => run step s' as := rfl

theorem run_append (s : State) (as bs : List Action) :
    run step s (as ++ bs) = (run step s as).bind fun s' => run step s' bs := by
  induction as generalizing s with
  | nil => rfl
  | cons a as ih =>
    cases h : step s a with
    | none => simp [h]
    | some s' => simpa [h] using ih s'

theorem Along.head {s : State} {as : List Action} (along : Along step P s as) : P s := by
  cases as with
  | nil => exact along
  | cons a as => exact along.1

/-- What holds in every state holds in the last one. -/
theorem Along.last {s t : State} {as : List Action} (along : Along step P s as)
    (ends : run step s as = some t) : P t := by
  induction as generalizing s with
  | nil =>
    cases ends
    exact along
  | cons a as ih =>
    obtain ⟨s', first, rest⟩ := Option.bind_eq_some_iff.mp ends
    exact ih (along.2 s' first) rest

theorem Along.mono {Q : State → Prop} (gives : ∀ s, P s → Q s) {s : State} {as : List Action}
    (along : Along step P s as) : Along step Q s as := by
  induction as generalizing s with
  | nil => exact gives s along
  | cons a as ih => exact ⟨gives s along.1, fun s' first => ih (along.2 s' first)⟩

/-- Read a condition on all steps at one of them. -/
theorem StepsMeet.at {s t t' : State} {as bs : List Action} {a : Action}
    (meets : StepsMeet step C s (as ++ a :: bs)) (ends : run step s as = some t)
    (taken : step t a = some t') : C t a := by
  induction as generalizing s with
  | nil =>
    cases ends
    exact (meets t' taken).1
  | cons b as ih =>
    obtain ⟨s', first, rest⟩ := Option.bind_eq_some_iff.mp ends
    exact ih (meets s' first).2 rest

/-- An invariant that each step keeps holds at the end of every run. -/
theorem invariant_of_run (keeps : ∀ s a s', I s → step s a = some s' → I s')
    {s t : State} {as : List Action} (start : I s) (ends : run step s as = some t) : I t := by
  induction as generalizing s with
  | nil =>
    cases ends
    exact start
  | cons a as ih =>
    obtain ⟨s', first, rest⟩ := Option.bind_eq_some_iff.mp ends
    exact ih (keeps s a s' start first) rest

/-- An invariant that each step keeps holds in every state of every run. -/
theorem along_of_invariant (keeps : ∀ s a s', I s → step s a = some s' → I s')
    (gives : ∀ s, I s → P s) {s : State} {as : List Action} (start : I s) :
    Along step P s as := by
  induction as generalizing s with
  | nil => exact gives s start
  | cons a as ih =>
    refine ⟨gives s start, ?_⟩
    intro s' first
    exact ih (keeps s a s' start first)

/-- Steps that meet `C` keep `I`, and `I` gives `P`: then `P` holds throughout. -/
theorem along_of_stepsMeet (keeps : ∀ s a s', I s → C s a → step s a = some s' → I s')
    (gives : ∀ s, I s → P s) {s : State} {as : List Action} (start : I s)
    (meets : StepsMeet step C s as) : Along step P s as := by
  induction as generalizing s with
  | nil => exact gives s start
  | cons a as ih =>
    refine ⟨gives s start, ?_⟩
    intro s' first
    obtain ⟨met, rest⟩ := meets s' first
    exact ih (keeps s a s' start met first) rest

/-- Steps that meet `C` keep `I`, and on `I` they also meet `D`. -/
theorem stepsMeet_of_stepsMeet {D : State → Action → Prop}
    (keeps : ∀ s a s', I s → C s a → step s a = some s' → I s')
    (gives : ∀ s a s', I s → C s a → step s a = some s' → D s a) {s : State} {as : List Action}
    (start : I s) (meets : StepsMeet step C s as) : StepsMeet step D s as := by
  induction as generalizing s with
  | nil => trivial
  | cons a as ih =>
    intro s' first
    obtain ⟨met, rest⟩ := meets s' first
    exact ⟨gives s a s' start met first, ih (keeps s a s' start met first) rest⟩

/-- If, on the invariant, a step lands in `P` exactly when it meets `C`, then a
run stays in `P` exactly when all its steps meet `C`. -/
theorem along_iff_stepsMeet (keeps : ∀ s a s', I s → P s → step s a = some s' → I s')
    (lands : ∀ s a s', I s → P s → step s a = some s' → (P s' ↔ C s a))
    {s : State} {as : List Action} (start : I s) (good : P s) :
    Along step P s as ↔ StepsMeet step C s as := by
  induction as generalizing s with
  | nil => exact ⟨fun _ => trivial, fun _ => good⟩
  | cons a as ih =>
    cases first : step s a with
    | none => simp [Along, StepsMeet, first, good]
    | some s' =>
      have landed := lands s a s' start good first
      have kept := keeps s a s' start good first
      simp only [Along, StepsMeet, first, Option.some.injEq, forall_eq', good, true_and]
      constructor
      · intro along
        have good' : P s' := along.head
        exact ⟨landed.mp good', (ih kept good').mp along⟩
      · rintro ⟨meets, rest⟩
        exact (ih kept (landed.mpr meets)).mpr rest

/-- A run takes no more steps that use up some measure than there is of it. -/
theorem countP_le_of_run (uses : Action → Bool) (measure : State → Nat)
    (keeps : ∀ s a s', I s → step s a = some s' → I s')
    (spends : ∀ s a s', I s → step s a = some s' →
      measure s' + (if uses a then 1 else 0) ≤ measure s) {s t : State} {as : List Action}
    (start : I s) (ends : run step s as = some t) : as.countP uses + measure t ≤ measure s := by
  induction as generalizing s with
  | nil =>
    cases ends
    simp
  | cons a as ih =>
    obtain ⟨s', first, rest⟩ := Option.bind_eq_some_iff.mp ends
    have spent := spends s a s' start first
    have later := ih (keeps s a s' start first) rest
    rw [List.countP_cons]
    omega

/-! ### A list of parties, one of which moves -/

section Moves

variable {Party : Type u} {parties : List Party} {i j : Nat} {p moved old : Party}

theorem getElem?_set_cases (h : (parties.set i moved)[j]? = some p) :
    (j = i ∧ p = moved) ∨ (j ≠ i ∧ parties[j]? = some p) := by
  by_cases here : i = j
  · subst here
    rw [List.getElem?_set_self'] at h
    obtain ⟨_, _, rfl⟩ := Option.map_eq_some_iff.mp h
    exact .inl ⟨rfl, rfl⟩
  · rw [List.getElem?_set_ne here] at h
    exact .inr ⟨Ne.symm here, h⟩

theorem getElem?_set_of_ne (apart : j ≠ i) (found : parties[j]? = some p) :
    (parties.set i moved)[j]? = some p := by
  rw [List.getElem?_set_ne apart.symm]
  exact found

theorem getElem?_set_here (found : parties[i]? = some old) :
    (parties.set i moved)[i]? = some moved := by
  simp [(List.getElem?_eq_some_iff.mp found).1]

end Moves

end Byom.Transition
