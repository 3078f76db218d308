import Byom.Relational.Reference

/-!
# Selections of rows

A write leaves a selection alone if it only concerns rows outside of it. Rows that are
inserted one after the other, with conflicts ignored, come out less the duplicates.
-/

namespace Byom.Relational

universe u v

variable {Row : Type u} {p q : Row → Bool} {conflict : Row → Row → Bool} {fresh : Row}
  {rows added : List Row}

theorem filter_deleteWhere_of_disjoint (apart : ∀ r ∈ rows, q r = true → p r = false) :
    (deleteWhere p rows).filter q = rows.filter q := by
  unfold deleteWhere
  rw [List.filter_filter]
  apply List.filter_congr
  intro r hr
  cases selected : q r with
  | false => rw [Bool.false_and]
  | true => rw [apart r hr selected, Bool.not_false, Bool.and_self]

theorem filter_insertOrIgnore_of_disjoint (outside : q fresh = false) :
    (insertOrIgnore conflict fresh rows).filter q = rows.filter q := by
  unfold insertOrIgnore
  split
  · rfl
  · simp [outside]

/-- Under a unique constraint a key selects one row. -/
theorem UniqueOn.filter_key {Key : Type v} [DecidableEq Key] {key : Row → Key}
    (unique : UniqueOn key rows) {r : Row} (hr : r ∈ rows) :
    (rows.filter fun a => key a = key r) = [r] := by
  apply unique.filter_eq_singleton hr
  · exact decide_eq_true rfl
  · exact fun a _ same => of_decide_eq_true same

/-! ### Inserts in a row -/

def insertAllOrIgnore (conflict : Row → Row → Bool) : List Row → List Row → List Row
  | [], rows => rows
  | fresh :: added, rows => insertAllOrIgnore conflict added (insertOrIgnore conflict fresh rows)

theorem filter_insertAllOrIgnore_of_disjoint (outside : ∀ r ∈ added, q r = false) :
    (insertAllOrIgnore conflict added rows).filter q = rows.filter q := by
  induction added generalizing rows with
  | nil => rfl
  | cons fresh added ih =>
    obtain ⟨here, later⟩ := List.forall_mem_cons.mp outside
    exact (ih later).trans (filter_insertOrIgnore_of_disjoint here)

/-- Of new rows that only conflict within the selection, the ones that do not conflict with
an earlier row get in. -/
theorem filter_insertAllOrIgnore (inside : ∀ r ∈ added, q r = true)
    (within : ∀ r ∈ added, ∀ a, conflict r a = true → q a = true) :
    (insertAllOrIgnore conflict added rows).filter q = rows.filter q ++
      (added.filter fun r => !(rows.filter q).any (conflict r)).eraseDupsBy conflict := by
  induction added generalizing rows with
  | nil => simp [insertAllOrIgnore]
  | cons fresh added ih =>
    obtain ⟨here, later⟩ := List.forall_mem_cons.mp inside
    obtain ⟨withinHere, withinLater⟩ := List.forall_mem_cons.mp within
    have selected : (rows.filter q).any (conflict fresh) = rows.any (conflict fresh) := by
      rw [List.any_filter]
      congr 1
      funext a
      cases hit : conflict fresh a with
      | false => rw [Bool.and_false]
      | true => rw [withinHere a hit, Bool.and_self]
    rw [insertAllOrIgnore, ih later withinLater, List.filter_cons, selected]
    unfold insertOrIgnore
    cases taken : rows.any (conflict fresh) with
    | true => rfl
    | false =>
      have grown : (rows ++ [fresh]).filter q = rows.filter q ++ [fresh] := by simp [here]
      simp only [Bool.false_eq_true, if_false, Bool.not_false, if_true, grown]
      rw [List.eraseDupsBy_cons, List.filter_filter, List.append_assoc, List.singleton_append]
      congr 3
      apply List.filter_congr
      intro r _
      rw [List.any_append, List.any_cons, List.any_nil, Bool.or_false]
      cases conflict r fresh <;> cases (rows.filter q).any (conflict r) <;> rfl

/-! ### Rows that replace others -/

theorem filter_replaced_of_disjoint (apart : ∀ r ∈ rows, q r = true → p r = false)
    (outside : ∀ r ∈ added, q r = false) :
    (insertAllOrIgnore conflict added (deleteWhere p rows)).filter q = rows.filter q :=
  (filter_insertAllOrIgnore_of_disjoint outside).trans (filter_deleteWhere_of_disjoint apart)

theorem filter_replaced (inside : ∀ r ∈ added, q r = true)
    (within : ∀ r ∈ added, ∀ a, conflict r a = true → q a = true) :
    (insertAllOrIgnore conflict added (deleteWhere q rows)).filter q =
      added.eraseDupsBy conflict := by
  have empty : (deleteWhere q rows).filter q = [] := by
    apply List.filter_eq_nil_iff.mpr
    intro r hr selected
    have kept := (mem_deleteWhere.mp hr).2
    rw [selected] at kept
    cases kept
  have all : added.filter (fun _ => true) = added := List.filter_true _
  rw [filter_insertAllOrIgnore inside within, empty]
  simp only [List.any_nil, Bool.not_false, List.nil_append, all]

/-! ### Duplicates -/

theorem insertAllOrIgnore_nil (conflict : Row → Row → Bool) (added : List Row) :
    insertAllOrIgnore conflict added [] = added.eraseDupsBy conflict := by
  have all : ∀ rows : List Row, rows.filter (fun _ => true) = rows := fun _ => List.filter_true _
  have inserted : (insertAllOrIgnore conflict added (deleteWhere (fun _ => true) [])).filter
      (fun _ => true) = added.eraseDupsBy conflict :=
    filter_replaced (fun _ _ => rfl) fun _ _ _ _ => rfl
  rwa [all] at inserted

variable {α : Type v}

theorem insertAllOrIgnore_map (f : α → Row) (added rows : List α) :
    insertAllOrIgnore conflict (added.map f) (rows.map f) =
      (insertAllOrIgnore (fun a b => conflict (f a) (f b)) added rows).map f := by
  induction added generalizing rows with
  | nil => rfl
  | cons fresh added ih =>
    rw [List.map_cons, insertAllOrIgnore, insertAllOrIgnore, ← ih]
    congr 1
    unfold insertOrIgnore
    rw [List.any_map, apply_ite (List.map f), List.map_append]
    rfl

theorem eraseDupsBy_map (f : α → Row) (added : List α) :
    (added.map f).eraseDupsBy conflict =
      (added.eraseDupsBy fun a b => conflict (f a) (f b)).map f := by
  rw [← insertAllOrIgnore_nil, ← insertAllOrIgnore_nil, ← insertAllOrIgnore_map]
  rfl

/-- Only the conflicts of a row with an earlier one count. -/
theorem eraseDupsBy_congr {conflict' : Row → Row → Bool}
    (agree : added.Pairwise fun a b => conflict b a = conflict' b a) :
    added.eraseDupsBy conflict = added.eraseDupsBy conflict' := by
  suffices same : ∀ rows : List Row, (∀ a ∈ rows, ∀ r ∈ added, conflict r a = conflict' r a) →
      insertAllOrIgnore conflict added rows = insertAllOrIgnore conflict' added rows by
    rw [← insertAllOrIgnore_nil, ← insertAllOrIgnore_nil, same [] (List.forall_mem_nil _)]
  induction added with
  | nil => exact fun _ _ => rfl
  | cons fresh added ih =>
    intro rows stored
    obtain ⟨first, rest⟩ := List.pairwise_cons.mp agree
    have one : insertOrIgnore conflict fresh rows = insertOrIgnore conflict' fresh rows := by
      have hits : rows.any (conflict fresh) = rows.any (conflict' fresh) := by
        rw [Bool.eq_iff_iff, List.any_eq_true, List.any_eq_true]
        refine exists_congr fun a => and_congr_right fun ha => ?_
        rw [stored a ha fresh List.mem_cons_self]
      unfold insertOrIgnore
      rw [hits]
    rw [insertAllOrIgnore, insertAllOrIgnore, one]
    apply ih rest
    intro a ha r hr
    have origin : a ∈ rows ∨ a = fresh := by
      unfold insertOrIgnore at ha
      split at ha
      · exact .inl ha
      · exact (List.mem_append.mp ha).imp id List.mem_singleton.mp
    rcases origin with old | rfl
    · exact stored a old r (List.mem_cons_of_mem _ hr)
    · exact first r hr

end Byom.Relational
