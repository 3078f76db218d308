import Mathlib.Data.List.DropRight

/-!
# Cutting text into pieces

`split` cuts at each occurrence of a delimiter, from left to right. A round of cuts also
trims the pieces and drops the blank ones; two rounds are one that looks for both
delimiters at once.
-/

namespace Byom.Text

universe u

variable {α : Type u}

/-- A character goes in front of the first piece. -/
def glue (c : α) : List (List α) → List (List α)
  | [] => [[c]]
  | p :: ps => (c :: p) :: ps

/-- The pieces between delimiters. Where a delimiter starts, `hit` has the number of its
characters after the first; the last argument is the number of them left to pass over. -/
def cut (hit : List α → Option Nat) : List α → Nat → List (List α)
  | [], _ => [[]]
  | _ :: rest, k + 1 => cut hit rest k
  | c :: rest, 0 =>
    match hit (c :: rest) with
    | some k => [] :: cut hit rest k
    | none => glue c (cut hit rest 0)

section Delimiters

variable [DecidableEq α]

/-- Where the delimiter starts. -/
def starts (delim s : List α) : Option Nat :=
  if delim.isPrefixOf s then some (delim.length - 1) else none

/-- `strings.Split`, for a delimiter that is not empty. -/
def split (delim s : List α) : List (List α) := cut (starts delim) s 0

/-- `strings.Cut`: what is before the first delimiter, and what is after it. -/
def cutFirst (delim : List α) : List α → Option (List α × List α)
  | [] => if delim.isPrefixOf [] then some ([], []) else none
  | c :: rest =>
    if delim.isPrefixOf (c :: rest) then some ([], (c :: rest).drop delim.length)
    else (cutFirst delim rest).map fun (before, after) => (c :: before, after)

/-- Cuts at both delimiters in one pass. -/
def splitEither (delim other s : List α) : List (List α) :=
  cut (fun s => (starts delim s).or (starts other s)) s 0

end Delimiters

/-- Without the characters with `space` at both ends. -/
def trim (space : α → Bool) (s : List α) : List α :=
  (s.dropWhile space).rdropWhile space

/-- The piece trimmed, if something is left. -/
def trimmed (space : α → Bool) (s : List α) : Option (List α) :=
  if (trim space s).isEmpty then none else some (trim space s)

/-- The first and the last character are there, and neither has `space`. -/
structure Trimmed (space : α → Bool) (s : List α) : Prop where
  some_ : s ≠ []
  first : ∀ c ∈ s.head?, space c = false
  last : ∀ c ∈ s.getLast?, space c = false

/-! ### The pieces of a text -/

variable {hit : List α → Option Nat} {s p : List α} {k : Nat}

theorem glue_append (c : α) {ps : List (List α)} (some_ : ps ≠ []) (qs : List (List α)) :
    glue c (ps ++ qs) = glue c ps ++ qs := by
  cases ps with
  | nil => exact absurd rfl some_
  | cons p ps => rfl

theorem glue_ne_nil (c : α) (ps : List (List α)) : glue c ps ≠ [] := by
  cases ps <;> exact List.cons_ne_nil _ _

theorem cut_ne_nil (hit : List α → Option Nat) (s : List α) (k : Nat) : cut hit s k ≠ [] := by
  induction s generalizing k with
  | nil => exact List.cons_ne_nil _ _
  | cons c rest ih =>
    cases k with
    | succ k => exact ih k
    | zero =>
      unfold cut
      split
      · exact List.cons_ne_nil _ _
      · exact glue_ne_nil _ _

/-- The pieces are parts of the text, and the first one leads it if nothing is passed over. -/
theorem cut_pieces (hit : List α → Option Nat) (s : List α) (k : Nat) :
    (∀ p ∈ cut hit s k, p <:+: s) ∧ (k = 0 → ∀ p ∈ (cut hit s k).head?, p <+: s) := by
  induction s generalizing k with
  | nil => simp [cut]
  | cons c rest ih =>
    cases k with
    | succ k => exact ⟨fun p hp => List.infix_cons ((ih k).1 p hp), by simp⟩
    | zero =>
      unfold cut
      split
      · rename_i k _
        refine ⟨?_, by simp⟩
        intro p hp
        rcases List.mem_cons.mp hp with rfl | later
        · exact List.nil_infix
        · exact List.infix_cons ((ih k).1 p later)
      · obtain ⟨parts, leads⟩ := ih 0
        cases pieces : cut hit rest 0 with
        | nil => exact absurd pieces (cut_ne_nil _ _ _)
        | cons q qs =>
          rw [pieces] at parts leads
          have front : c :: q <+: c :: rest :=
            List.cons_prefix_cons.mpr ⟨rfl, leads rfl q rfl⟩
          refine ⟨?_, by simpa [glue] using front⟩
          intro p hp
          rcases List.mem_cons.mp hp with rfl | later
          · exact front.isInfix
          · exact List.infix_cons (parts p (List.mem_cons_of_mem _ later))

section Delimiters

variable [DecidableEq α] {delim other : List α}

theorem starts_eq_some_iff : starts delim s = some k ↔ delim <+: s ∧ delim.length - 1 = k := by
  simp [starts]

theorem starts_eq_none_iff : starts delim s = none ↔ ¬delim <+: s := by
  simp [starts]

theorem part_of_mem_split (h : p ∈ split delim s) : p <:+: s := (cut_pieces _ _ _).1 p h

theorem cutFirst_leads {after : List α} (h : cutFirst delim s = some (p, after)) : p <+: s := by
  induction s generalizing p with
  | nil =>
    unfold cutFirst at h
    split at h
    · cases h
      exact List.nil_prefix
    · cases h
  | cons c rest ih =>
    unfold cutFirst at h
    split at h
    · cases h
      exact List.nil_prefix
    · obtain ⟨⟨before, later⟩, found, same⟩ := Option.map_eq_some_iff.mp h
      cases same
      exact List.cons_prefix_cons.mpr ⟨rfl, ih found⟩

/-- No piece has the delimiter in it. -/
theorem not_infix_of_mem_cut (h : p ∈ cut (starts delim) s k) (some_ : delim ≠ []) :
    ¬delim <:+: p := by
  induction s generalizing k p with
  | nil =>
    obtain rfl : p = [] := by simpa [cut] using h
    rwa [List.infix_nil]
  | cons c rest ih =>
    cases k with
    | succ k => exact ih h
    | zero =>
      unfold cut at h
      split at h
      · rcases List.mem_cons.mp h with rfl | later
        · rwa [List.infix_nil]
        · exact ih later
      · rename_i miss
        cases pieces : cut (starts delim) rest 0 with
        | nil => exact absurd pieces (cut_ne_nil _ _ _)
        | cons q qs =>
          rw [pieces] at h
          rcases List.mem_cons.mp h with rfl | later
          · have leads : q <+: rest := (cut_pieces _ _ 0).2 rfl q (by rw [pieces]; rfl)
            rw [List.infix_cons_iff, not_or]
            refine ⟨fun front => ?_, ih (by rw [pieces]; exact List.mem_cons_self)⟩
            exact starts_eq_none_iff.mp miss
              (front.trans (List.cons_prefix_cons.mpr ⟨rfl, leads⟩))
          · exact ih (by rw [pieces]; exact List.mem_cons_of_mem _ later)

/-! ### Two delimiters -/

theorem starts_single (x c : α) (s : List α) :
    starts [x] (c :: s) = if c = x then some 0 else none := by
  by_cases same : c = x
  · simp [starts, same]
  · simp [starts, same, Ne.symm same]

theorem split_single_cons (x c : α) (s : List α) :
    split [x] (c :: s) = if c = x then [] :: split [x] s else glue c (split [x] s) := by
  rw [split, cut, starts_single]
  by_cases same : c = x
  · rw [if_pos same, if_pos same]
    rfl
  · rw [if_neg same, if_neg same]
    rfl

/-- A delimiter with other characters than `x` starts the same before the next `x`. -/
theorem prefix_iff_of_not_mem {x : α} {ps : List (List α)} (apart : x ∉ delim)
    (pieces : split [x] s = p :: ps) : delim <+: p ↔ delim <+: s := by
  have leads : p <+: s := (cut_pieces _ _ 0).2 rfl p (by
    rw [show cut (starts [x]) s 0 = p :: ps from pieces]; rfl)
  refine ⟨fun front => front.trans leads, fun front => ?_⟩
  induction delim generalizing s p ps with
  | nil => exact List.nil_prefix
  | cons d rest ih =>
    cases s with
    | nil => simp at front
    | cons c s =>
      obtain ⟨rfl, tail⟩ := List.cons_prefix_cons.mp front
      have other : d ≠ x := fun same => apart (same ▸ List.mem_cons_self)
      cases later : split [x] s with
      | nil => exact absurd later (cut_ne_nil _ _ _)
      | cons q qs =>
        have cuts : split [x] (d :: s) = (d :: q) :: qs := by
          rw [split_single_cons, if_neg other, later]
          rfl
        rw [cuts] at pieces
        obtain ⟨rfl, rfl⟩ := List.cons.inj pieces
        have front' : q <+: s := (List.cons_prefix_cons.mp leads).2
        exact List.cons_prefix_cons.mpr
          ⟨rfl, ih (fun there => apart (List.mem_cons_of_mem _ there)) later front' tail⟩

/-- Pieces cut at `x`, with the second delimiter looked for in each. -/
theorem cut_first (x : α) (apart : x ∉ delim) {ps : List (List α)}
    (pieces : split [x] s = p :: ps) (within : k ≤ p.length) :
    cut (starts delim) p k ++ ps.flatMap (split delim) =
      cut (fun s => (starts [x] s).or (starts delim s)) s k := by
  induction s generalizing p ps k with
  | nil =>
    obtain ⟨rfl, rfl⟩ := List.cons.inj pieces
    obtain rfl : k = 0 := Nat.le_zero.mp within
    rfl
  | cons c rest ih =>
    cases later : split [x] rest with
    | nil => exact absurd later (cut_ne_nil _ _ _)
    | cons q qs =>
      have whole := pieces
      rw [split_single_cons, later] at pieces
      by_cases here : c = x
      · rw [if_pos here] at pieces
        obtain ⟨rfl, rfl⟩ := List.cons.inj pieces
        obtain rfl : k = 0 := Nat.le_zero.mp within
        rw [cut, cut, starts_single, if_pos here, Option.some_or]
        exact congrArg (List.cons []) (ih later (Nat.zero_le _))
      · rw [if_neg here] at pieces
        obtain ⟨rfl, rfl⟩ := List.cons.inj pieces
        cases k with
        | succ k => exact ih later (Nat.le_of_succ_le_succ within)
        | zero =>
          have same : starts delim (c :: q) = starts delim (c :: rest) := by
            simp only [starts, List.isPrefixOf_iff_prefix, prefix_iff_of_not_mem apart whole]
          rw [cut, cut, starts_single, if_neg here, Option.none_or, same]
          cases hit : starts delim (c :: rest) with
          | none =>
            have glued := glue_append c (cut_ne_nil (starts delim) q 0) (qs.flatMap (split delim))
            exact glued.symm.trans (congrArg (glue c) (ih later (Nat.zero_le _)))
          | some k =>
            obtain ⟨front, length⟩ := starts_eq_some_iff.mp (same.trans hit)
            have fits : k ≤ q.length := by
              have := front.length_le
              rw [List.length_cons] at this
              omega
            exact congrArg (List.cons []) (ih later fits)

/-- Pieces cut at the second delimiter, with `x` looked for in each. -/
theorem cut_second (x : α) (some_ : delim ≠ []) (apart : x ∉ delim) (s : List α) (k : Nat) :
    (cut (starts delim) s k).flatMap (split [x]) =
      cut (fun s => (starts [x] s).or (starts delim s)) s k := by
  induction s generalizing k with
  | nil => rfl
  | cons c rest ih =>
    cases k with
    | succ k => exact ih k
    | zero =>
      rw [cut, cut, starts_single]
      cases hit : starts delim (c :: rest) with
      | some k =>
        have other : c ≠ x := by
          rintro rfl
          obtain ⟨d, ds, rfl⟩ := List.exists_cons_of_ne_nil some_
          obtain ⟨same, _⟩ := List.cons_prefix_cons.mp (starts_eq_some_iff.mp hit).1
          exact apart (same ▸ List.mem_cons_self)
        rw [if_neg other]
        exact congrArg (List.cons []) (ih k)
      | none =>
        have later := ih 0
        cases pieces : cut (starts delim) rest 0 with
        | nil => exact absurd pieces (cut_ne_nil _ _ _)
        | cons q qs =>
          rw [pieces] at later
          have cuts : (glue c (q :: qs)).flatMap (split [x]) =
              split [x] (c :: q) ++ qs.flatMap (split [x]) := rfl
          simp only [cuts, split_single_cons]
          by_cases here : c = x
          · simp only [if_pos here, Option.some_or]
            exact congrArg (List.cons []) later
          · simp only [if_neg here, Option.none_or]
            have glued := glue_append c (cut_ne_nil (starts [x]) q 0) (qs.flatMap (split [x]))
            exact glued.symm.trans (congrArg (glue c) later)

/-- It does not matter which of the delimiters is looked for first. -/
theorem flatMap_split (x : α) (some_ : delim ≠ []) (apart : x ∉ delim) (s : List α) :
    (split [x] s).flatMap (split delim) = splitEither [x] delim s ∧
      (split delim s).flatMap (split [x]) = splitEither [x] delim s := by
  refine ⟨?_, cut_second x some_ apart s 0⟩
  cases pieces : split [x] s with
  | nil => exact absurd pieces (cut_ne_nil _ _ _)
  | cons p ps => exact cut_first x apart pieces (Nat.zero_le _)

/-! ### Rounds of cuts -/

variable (space : α → Bool)

/-- A round of cuts: the pieces of all values, trimmed, without the blank ones. -/
def round (delim : List α) (values : List (List α)) : List (List α) :=
  values.flatMap fun v => (split delim v).filterMap (trimmed space)

end Delimiters

variable {space : α → Bool}

theorem trim_part (space : α → Bool) (s : List α) : trim space s <:+: s :=
  (List.rdropWhile_prefix _ _).isInfix.trans (List.dropWhile_suffix _).isInfix

theorem trim_cons {c : α} (blank : space c = true) (s : List α) :
    trim space (c :: s) = trim space s := by
  rw [trim, List.dropWhile_cons_of_pos blank, trim]

theorem trim_concat {c : α} (blank : space c = true) (s : List α) :
    trim space (s ++ [c]) = trim space s := by
  rw [trim, trim, List.dropWhile_append]
  split
  · rename_i all
    rw [List.isEmpty_iff.mp all, List.dropWhile_cons_of_pos blank]
    rfl
  · exact List.rdropWhile_concat_pos space _ c blank

theorem trimmed_spec {t : List α} (h : trimmed space s = some t) : Trimmed space t ∧ t <:+: s := by
  unfold trimmed at h
  split at h
  · cases h
  · rename_i some_
    obtain rfl := Option.some.inj h
    have some' : trim space s ≠ [] := by simpa using some_
    refine ⟨⟨some', ?_, ?_⟩, trim_part space s⟩
    · intro c hc
      obtain ⟨rest, same⟩ : trim space s <+: s.dropWhile space := List.rdropWhile_prefix _ _
      have first := List.head?_dropWhile_not space s
      rw [← same, List.head?_append, Option.mem_def.mp hc] at first
      exact first
    · intro c hc
      have last := List.rdropWhile_last_not space (s.dropWhile space) some'
      obtain ⟨_, rfl⟩ := List.mem_getLast?_eq_getLast hc
      exact Bool.not_eq_true _ ▸ last

/-- What a round leaves: trimmed parts of the values, without the delimiter. -/
theorem mem_round [DecidableEq α] {delim t : List α} {values : List (List α)}
    (h : t ∈ round space delim values) :
    Trimmed space t ∧ (∃ v ∈ values, t <:+: v) ∧ (delim ≠ [] → ¬delim <:+: t) := by
  obtain ⟨v, hv, piece⟩ := List.mem_flatMap.mp h
  obtain ⟨p, hp, kept⟩ := List.mem_filterMap.mp piece
  obtain ⟨clean, inside⟩ := trimmed_spec kept
  refine ⟨clean, ⟨v, hv, inside.trans (part_of_mem_split hp)⟩, ?_⟩
  exact fun some_ there => not_infix_of_mem_cut hp some_ (there.trans inside)

/-! ### Blank ends and delimiters without blanks -/

theorem trimmed_cons {c : α} (blank : space c = true) (s : List α) :
    trimmed space (c :: s) = trimmed space s := by
  rw [trimmed, trim_cons blank, trimmed]

theorem trimmed_concat {c : α} (blank : space c = true) (s : List α) :
    trimmed space (s ++ [c]) = trimmed space s := by
  rw [trimmed, trim_concat blank, trimmed]

section Blank

variable [DecidableEq α] {delim : List α} {c : α}

theorem starts_cons_of_not_mem (some_ : delim ≠ []) (other : c ∉ delim) (s : List α) :
    starts delim (c :: s) = none := by
  rw [starts_eq_none_iff]
  intro front
  obtain ⟨d, ds, rfl⟩ := List.exists_cons_of_ne_nil some_
  obtain ⟨rfl, _⟩ := List.cons_prefix_cons.mp front
  exact other List.mem_cons_self

theorem starts_concat_of_not_mem (other : c ∉ delim) (s : List α) :
    starts delim (s ++ [c]) = starts delim s := by
  have front : delim <+: s ++ [c] ↔ delim <+: s := by
    rw [List.prefix_concat_iff]
    refine or_iff_right fun whole => other ?_
    rw [whole]
    exact List.mem_append_right _ List.mem_cons_self
  simp only [starts, List.isPrefixOf_iff_prefix, front]

/-- A character that the delimiter does not have stays at the end of the last piece. -/
theorem cut_concat (some_ : delim ≠ []) (other : c ∉ delim) (within : k ≤ s.length) :
    ∃ ps p, cut (starts delim) s k = ps ++ [p] ∧
      cut (starts delim) (s ++ [c]) k = ps ++ [p ++ [c]] := by
  induction s generalizing k with
  | nil =>
    obtain rfl : k = 0 := Nat.le_zero.mp within
    refine ⟨[], [], rfl, ?_⟩
    rw [List.nil_append, cut, starts_cons_of_not_mem some_ other]
    rfl
  | cons d rest ih =>
    cases k with
    | succ k => exact ih (Nat.le_of_succ_le_succ within)
    | zero =>
      have same := starts_concat_of_not_mem other (d :: rest)
      rw [List.cons_append] at same ⊢
      rw [cut, cut, same]
      cases hit : starts delim (d :: rest) with
      | some k =>
        have fits : k ≤ rest.length := by
          obtain ⟨front, length⟩ := starts_eq_some_iff.mp hit
          have := front.length_le
          rw [List.length_cons] at this
          omega
        obtain ⟨ps, p, old, new⟩ := ih fits
        refine ⟨[] :: ps, p, ?_, ?_⟩
        · exact congrArg (List.cons []) old
        · exact congrArg (List.cons []) new
      | none =>
        obtain ⟨ps, p, old, new⟩ := ih (Nat.zero_le _)
        simp only [old, new]
        cases ps with
        | nil => exact ⟨[], d :: p, rfl, rfl⟩
        | cons q qs => exact ⟨(d :: q) :: qs, p, rfl, rfl⟩

section Solid

variable (some_ : delim ≠ []) (solid : ∀ c ∈ delim, space c = false)
include some_ solid

theorem split_dropWhile (s : List α) :
    (split delim (s.dropWhile space)).filterMap (trimmed space) =
      (split delim s).filterMap (trimmed space) := by
  induction s with
  | nil => rfl
  | cons c rest ih =>
    cases blank : space c with
    | false => rw [List.dropWhile_cons_of_neg (by simp [blank])]
    | true =>
      have other : c ∉ delim := fun there => by simp [solid c there] at blank
      rw [List.dropWhile_cons_of_pos blank, ih, split, split, cut,
        starts_cons_of_not_mem some_ other]
      cases pieces : cut (starts delim) rest 0 with
      | nil => exact absurd pieces (cut_ne_nil _ _ _)
      | cons q qs => simp only [glue, List.filterMap_cons, trimmed_cons blank]

theorem split_rdropWhile (s : List α) :
    (split delim (s.rdropWhile space)).filterMap (trimmed space) =
      (split delim s).filterMap (trimmed space) := by
  induction s using List.reverseRecOn with
  | nil => rfl
  | append_singleton rest c ih =>
    cases blank : space c with
    | false => rw [List.rdropWhile_concat_neg space _ c (by simp [blank])]
    | true =>
      have other : c ∉ delim := fun there => by simp [solid c there] at blank
      obtain ⟨ps, p, old, new⟩ := cut_concat some_ other (Nat.zero_le rest.length)
      rw [List.rdropWhile_concat_pos space _ c blank, ih, split, split, old, new]
      simp only [List.filterMap_append, List.filterMap_cons, trimmed_concat blank]

/-- Blanks at the ends of a value are trimmed off its pieces anyway. -/
theorem split_trim (s : List α) : (split delim (trim space s)).filterMap (trimmed space) =
    (split delim s).filterMap (trimmed space) := by
  rw [trim, split_rdropWhile some_ solid, split_dropWhile some_ solid]

/-- The second round need not wait for the first to trim. -/
theorem round_round (other : List α) (values : List (List α)) :
    round space delim (round space other values) =
      values.flatMap fun v =>
        ((split other v).flatMap (split delim)).filterMap (trimmed space) := by
  have each : ∀ p : List α, (trimmed space p).toList.flatMap
      (fun t => (split delim t).filterMap (trimmed space)) =
        (split delim p).filterMap (trimmed space) := by
    intro p
    rw [← split_trim some_ solid p]
    unfold trimmed
    split
    · rename_i blank
      rw [List.isEmpty_iff.mp blank]
      simp [split, cut, trim]
    · simp
  rw [round, round, List.flatMap_assoc]
  refine List.flatMap_congr fun v _ => ?_
  rw [List.filterMap_eq_flatMap_toList, List.flatMap_assoc, List.filterMap_flatMap]
  exact List.flatMap_congr fun p _ => each p

end Solid

end Blank

/-! ### Joined texts -/

theorem forall_mem_intercalate {P : α → Prop} {sep : List α} (between : ∀ c ∈ sep, P c)
    {texts : List (List α)} (each : ∀ s ∈ texts, ∀ c ∈ s, P c) :
    ∀ c ∈ sep.intercalate texts, P c := by
  induction texts with
  | nil => simp
  | cons s rest ih =>
    obtain ⟨first, later⟩ := List.forall_mem_cons.mp each
    cases rest with
    | nil => simpa using first
    | cons t rest =>
      intro c hc
      rw [List.intercalate_cons_cons, List.mem_append, List.mem_append] at hc
      rcases hc with (here | separator) | there
      · exact first c here
      · exact between c separator
      · exact ih later c there

/-- Two texts around a separator that the first has not. -/
theorem append_separator_inj {c : α} {s s' t t' : List α} (without : c ∉ s) (without' : c ∉ s') :
    s ++ c :: t = s' ++ c :: t' ↔ s = s' ∧ t = t' := by
  refine ⟨fun same => ?_, fun ⟨left, right⟩ => by rw [left, right]⟩
  induction s generalizing s' with
  | nil =>
    cases s' with
    | nil => exact ⟨rfl, (List.cons.inj same).2⟩
    | cons d s' =>
      obtain ⟨rfl, _⟩ := List.cons.inj same
      exact absurd List.mem_cons_self without'
  | cons d s ih =>
    cases s' with
    | nil =>
      obtain ⟨rfl, _⟩ := List.cons.inj same
      exact absurd List.mem_cons_self without
    | cons e s' =>
      obtain ⟨rfl, rest⟩ := List.cons.inj same
      obtain ⟨rfl, after⟩ := ih (fun there => without (List.mem_cons_of_mem _ there))
        (fun there => without' (List.mem_cons_of_mem _ there)) rest
      exact ⟨rfl, after⟩

end Byom.Text
