import Byom.Text.Split

/-!
# Words

A text cut at its runs of separators, the blank pieces left out. Words joined by a
separator that none of them has are apart by exactly one.
-/

namespace Byom.Text

universe u

variable {α : Type u}

/-- The run of separators that the text starts with. -/
def run (sep : α → Bool) (s : List α) : Option Nat :=
  match s.takeWhile sep with
  | [] => none
  | _ :: rest => some rest.length

/-- The pieces between the runs of separators. -/
def runPieces (sep : α → Bool) (s : List α) : List (List α) := cut (run sep) s 0

def nonempty (pieces : List (List α)) : List (List α) := pieces.filter fun w => !w.isEmpty

def words (sep : α → Bool) (s : List α) : List (List α) := nonempty (runPieces sep s)

/-- The texts have the same characters between their runs of separators. -/
inductive SameRuns (sep : α → Bool) : List α → List α → Prop where
  | nil : SameRuns sep [] []
  | char {c s s'} : sep c = false → SameRuns sep s s' → SameRuns sep (c :: s) (c :: s')
  | run {r r' s s'} : r ≠ [] → r' ≠ [] → (∀ c ∈ r, sep c = true) → (∀ c ∈ r', sep c = true) →
      SameRuns sep s s' → SameRuns sep (r ++ s) (r' ++ s')

/-- The separator is neither first nor last, and there are no two in a row. -/
structure NoStray (x : α) (s : List α) : Prop where
  first : s.head? ≠ some x
  last : s.getLast? ≠ some x
  twice : ¬[x, x] <:+: s

variable {sep : α → Bool} {s s' p : List α} {c : α}

theorem run_cons (sep : α → Bool) (c : α) (s : List α) :
    run sep (c :: s) = if sep c then some (s.takeWhile sep).length else none := by
  cases blank : sep c <;> simp [run, blank]

theorem nonempty_cons (p : List α) (ps : List (List α)) :
    nonempty (p :: ps) = nonempty [p] ++ nonempty ps := List.filter_append [p] ps

/-- The text after a separator: the rest of the run is passed over. -/
theorem nonempty_cut_run (sep : α → Bool) (s : List α) :
    nonempty (cut (run sep) s (s.takeWhile sep).length) = words sep s := by
  cases s with
  | nil => rfl
  | cons c s =>
    cases blank : sep c with
    | false => simp [words, runPieces, blank]
    | true =>
      rw [words, runPieces, cut, run_cons, if_pos blank, List.takeWhile_cons_of_pos blank]
      rfl

theorem runPieces_sep (blank : sep c = true) (s : List α) :
    ∃ ps, runPieces sep (c :: s) = [] :: ps ∧ nonempty ps = words sep s := by
  refine ⟨_, ?_, nonempty_cut_run sep s⟩
  rw [runPieces, cut, run_cons, if_pos blank]

theorem words_sep (blank : sep c = true) (s : List α) : words sep (c :: s) = words sep s := by
  obtain ⟨ps, pieces, rest⟩ := runPieces_sep blank s
  rw [words, pieces, ← rest]
  rfl

theorem words_char (char : sep c = false) {ps : List (List α)} (pieces : runPieces sep s = p :: ps) :
    runPieces sep (c :: s) = (c :: p) :: ps ∧ words sep (c :: s) = (c :: p) :: nonempty ps := by
  have whole : runPieces sep (c :: s) = (c :: p) :: ps := by
    rw [runPieces] at pieces ⊢
    rw [cut, run_cons, if_neg (by simp [char]), pieces]
    rfl
  refine ⟨whole, ?_⟩
  rw [words, whole]
  rfl

theorem words_run {r : List α} (blank : ∀ c ∈ r, sep c = true) (s : List α) :
    words sep (r ++ s) = words sep s := by
  induction r with
  | nil => rfl
  | cons c r ih =>
    obtain ⟨first, rest⟩ := List.forall_mem_cons.mp blank
    rw [List.cons_append, words_sep first, ih rest]

theorem not_sep_of_mem_cut {k : Nat} (h : p ∈ cut (run sep) s k) : ∀ c ∈ p, sep c = false := by
  induction s generalizing k p with
  | nil =>
    obtain rfl : p = [] := by simpa [cut] using h
    simp
  | cons d rest ih =>
    cases k with
    | succ k => exact ih h
    | zero =>
      rw [cut, run_cons] at h
      cases char : sep d with
      | true =>
        simp only [char, if_true] at h
        rcases List.mem_cons.mp h with rfl | later
        · simp
        · exact ih later
      | false =>
        simp only [char, Bool.false_eq_true, if_false] at h
        cases pieces : cut (run sep) rest 0 with
        | nil => exact absurd pieces (cut_ne_nil _ _ _)
        | cons q qs =>
          rw [pieces] at h
          rcases List.mem_cons.mp h with rfl | later
          · exact List.forall_mem_cons.mpr ⟨char, ih (pieces ▸ List.mem_cons_self)⟩
          · exact ih (pieces ▸ List.mem_cons_of_mem _ later)

/-- A word has a character, and no separator. -/
theorem words_spec {w : List α} (h : w ∈ words sep s) : w ≠ [] ∧ ∀ c ∈ w, sep c = false := by
  obtain ⟨piece, some_⟩ := List.mem_filter.mp h
  exact ⟨by simpa using some_, not_sep_of_mem_cut piece⟩

/-- What the runs are made of does not matter. -/
theorem SameRuns.words_eq (same : SameRuns sep s s') : words sep s = words sep s' := by
  have heads : ∃ p ps ps', runPieces sep s = p :: ps ∧ runPieces sep s' = p :: ps' ∧
      nonempty ps = nonempty ps' := by
    induction same with
    | nil => exact ⟨[], [], [], rfl, rfl, rfl⟩
    | char char _ ih =>
      obtain ⟨p, ps, ps', left, right, rest⟩ := ih
      exact ⟨_, ps, ps', (words_char char left).1, (words_char char right).1, rest⟩
    | @run r r' s s' some_ some' blank blank' _ ih =>
      obtain ⟨p, ps, ps', left, right, rest⟩ := ih
      have words_eq : words sep s = words sep s' := by
        rw [words, words, left, right, nonempty_cons, rest, ← nonempty_cons]
      obtain ⟨c, r, rfl⟩ := List.exists_cons_of_ne_nil some_
      obtain ⟨d, r', rfl⟩ := List.exists_cons_of_ne_nil some'
      obtain ⟨first, run_⟩ := List.forall_mem_cons.mp blank
      obtain ⟨first', run'⟩ := List.forall_mem_cons.mp blank'
      obtain ⟨qs, pieces, words_⟩ := runPieces_sep first (r ++ s)
      obtain ⟨qs', pieces', words'⟩ := runPieces_sep first' (r' ++ s')
      refine ⟨[], qs, qs', pieces, pieces', ?_⟩
      rw [words_, words', words_run run_, words_run run', words_eq]
  obtain ⟨p, ps, ps', left, right, rest⟩ := heads
  rw [words, words, left, right, nonempty_cons, rest, ← nonempty_cons]

/-! ### Joined words -/

/-- The words after the first, each behind a separator. -/
theorem intercalate_cons_flatMap (x : α) (w : List α) (ws : List (List α)) :
    [x].intercalate (w :: ws) = w ++ ws.flatMap fun v => x :: v := by
  induction ws generalizing w with
  | nil => simp
  | cons v ws ih =>
    rw [List.intercalate_cons_cons, ih, List.flatMap_cons]
    simp

theorem intercalate_ne_nil {x : α} {w : List α} (full : w ≠ []) (ws : List (List α)) :
    [x].intercalate (w :: ws) ≠ [] := by
  rw [intercalate_cons_flatMap]
  exact List.append_ne_nil_of_left_ne_nil full _

theorem not_twice_append {x : α} {w t : List α} (without : x ∉ w) (first : t.head? ≠ some x)
    (twice : ¬[x, x] <:+: t) : ¬[x, x] <:+: w ++ x :: t := by
  induction w with
  | nil =>
    rw [List.nil_append, List.infix_cons_iff, not_or]
    refine ⟨fun front => ?_, twice⟩
    obtain ⟨rest, same⟩ := (List.cons_prefix_cons.mp front).2
    exact first (by rw [← same]; rfl)
  | cons c w ih =>
    obtain ⟨other, without⟩ := not_or.mp (List.mem_cons.not.mp without)
    rw [List.cons_append, List.infix_cons_iff, not_or]
    exact ⟨fun front => other (List.cons_prefix_cons.mp front).1, ih without⟩

theorem noStray_of_not_mem {x : α} {w : List α} (without : x ∉ w) : NoStray x w where
  first := fun there => without (List.mem_of_mem_head? there)
  last := fun there => without (List.mem_of_getLast? there)
  twice := fun there => without (there.subset List.mem_cons_self)

/-- Words that are there, without the separator, have no stray one between them. -/
theorem noStray_intercalate (x : α) {ws : List (List α)} (some_ : ∀ w ∈ ws, w ≠ [])
    (without : ∀ w ∈ ws, x ∉ w) : NoStray x ([x].intercalate ws) := by
  induction ws with
  | nil => exact noStray_of_not_mem List.not_mem_nil
  | cons w ws ih =>
    obtain ⟨full, others⟩ := List.forall_mem_cons.mp some_
    obtain ⟨own, apart⟩ := List.forall_mem_cons.mp without
    cases ws with
    | nil =>
      rw [List.intercalate_singleton]
      exact noStray_of_not_mem own
    | cons v ws =>
      obtain ⟨first, last, twice⟩ := ih others apart
      obtain ⟨c, w, rfl⟩ := List.exists_cons_of_ne_nil full
      have rest : [x].intercalate (v :: ws) ≠ [] :=
        intercalate_ne_nil (others v List.mem_cons_self) ws
      rw [List.intercalate_cons_cons, List.append_assoc, List.singleton_append]
      refine ⟨?_, ?_, not_twice_append own first twice⟩
      · intro there
        cases there
        exact own List.mem_cons_self
      · rw [List.getLast?_append, List.getLast?_cons_of_ne_nil rest,
          List.getLast?_eq_some_getLast rest, Option.some_or, ← List.getLast?_eq_some_getLast rest]
        exact last

/-- Words that are there, without the separator, can be read off the joined text. -/
theorem intercalate_inj {x : α} {ws ws' : List (List α)}
    (plain : ∀ w ∈ ws ++ ws', w ≠ [] ∧ x ∉ w)
    (same : [x].intercalate ws = [x].intercalate ws') : ws = ws' := by
  induction ws generalizing ws' with
  | nil =>
    cases ws' with
    | nil => rfl
    | cons w' ws' => exact absurd same.symm (intercalate_ne_nil (plain w' (by simp)).1 _)
  | cons w ws ih =>
    cases ws' with
    | nil => exact absurd same (intercalate_ne_nil (plain w (by simp)).1 _)
    | cons w' ws' =>
      have own := (plain w (by simp)).2
      have own' := (plain w' (by simp)).2
      cases ws with
      | nil =>
        cases ws' with
        | nil =>
          rw [List.intercalate_singleton, List.intercalate_singleton] at same
          rw [same]
        | cons v' ws' =>
          rw [List.intercalate_singleton, List.intercalate_cons_cons] at same
          exact absurd (by simp [same]) own
      | cons v ws =>
        cases ws' with
        | nil =>
          rw [List.intercalate_singleton, List.intercalate_cons_cons] at same
          exact absurd (by simp [← same]) own'
        | cons v' ws' =>
          rw [List.intercalate_cons_cons, List.intercalate_cons_cons, List.append_assoc,
            List.append_assoc, List.singleton_append, List.singleton_append,
            append_separator_inj own own'] at same
          obtain ⟨rfl, rest⟩ := same
          refine congrArg (List.cons w) (ih (fun u hu => plain u ?_) rest)
          rcases List.mem_append.mp hu with left | right
          · exact List.mem_append_left _ (List.mem_cons_of_mem _ left)
          · exact List.mem_append_right _ (List.mem_cons_of_mem _ right)

end Byom.Text
