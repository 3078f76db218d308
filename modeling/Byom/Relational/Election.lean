import Byom.Relational.Reference

/-!
# Groups of rows with one elected row

Rows fall into groups, and a flag elects a row of each. `representative` is the
key of the elected row of a group. When a group has lost it, `promote` elects
the row with the smallest key.
-/

namespace Byom.Relational

universe u v w

/-- How rows are grouped, identified and elected. Electing a row only sets its flag. -/
structure Election (Row : Type u) (Group : Type v) (Key : Type w) where
  group : Row → Group
  pk : Row → Key
  elected : Row → Bool
  elect : Row → Row
  group_elect : ∀ r, group (elect r) = group r
  pk_elect : ∀ r, pk (elect r) = pk r
  elected_elect : ∀ r, elected (elect r) = true

namespace Election

variable {Row : Type u} {Group : Type v} {Key : Type w} [DecidableEq Group]
  (E : Election Row Group Key)

/-- The elected row of the group `g`. -/
def isRepresentative (g : Group) (r : Row) : Bool := E.group r = g && E.elected r

/-- The key of the elected row of a group. -/
def representative (g : Group) (rows : List Row) : Option Key :=
  (rows.find? (E.isRepresentative g)).map E.pk

/-- Every group with a row has an elected one. -/
def Represented (rows : List Row) : Prop :=
  ∀ r ∈ rows, (E.representative (E.group r) rows).isSome

/-- No group has two elected rows. -/
abbrev AtMostOne (rows : List Row) : Prop := UniqueOn E.group (rows.filter E.elected)

variable {E} {rows : List Row} {g h : Group} {k : Key}

theorem isRepresentative_iff {r : Row} :
    E.isRepresentative g r = true ↔ E.group r = g ∧ E.elected r = true := by
  simp [isRepresentative]

theorem representative_isSome_iff :
    (E.representative g rows).isSome ↔ ∃ r ∈ rows, E.group r = g ∧ E.elected r = true := by
  simp [representative, isRepresentative]

theorem AtMostOne.representative_eq_some_iff (one : E.AtMostOne rows) :
    E.representative g rows = some k ↔
      ∃ r ∈ rows, E.group r = g ∧ E.elected r = true ∧ E.pk r = k := by
  unfold representative
  constructor
  · intro found
    obtain ⟨r, hr, same⟩ := Option.map_eq_some_iff.mp found
    obtain ⟨group, elected⟩ := isRepresentative_iff.mp (List.find?_some hr)
    exact ⟨r, List.mem_of_find?_eq_some hr, group, elected, same⟩
  · rintro ⟨r, hr, group, elected, same⟩
    cases found : rows.find? (E.isRepresentative g) with
    | none =>
      have not := List.find?_eq_none.mp found r hr
      exact absurd (isRepresentative_iff.mpr ⟨group, elected⟩) not
    | some a =>
      obtain ⟨groupA, electedA⟩ := isRepresentative_iff.mp (List.find?_some found)
      have ha := List.mem_of_find?_eq_some found
      have eq : a = r := one.eq_of_key (List.mem_filter.mpr ⟨ha, electedA⟩)
        (List.mem_filter.mpr ⟨hr, elected⟩) (groupA.trans group.symm)
      rw [Option.map_some, eq, same]

/-- An update that keeps keys, groups and flags keeps every representative. -/
theorem representative_updateWhere {p : Row → Bool} {set : Row → Row}
    (pk : ∀ r, E.pk (set r) = E.pk r) (group : ∀ r, E.group (set r) = E.group r)
    (elected : ∀ r, E.elected (set r) = E.elected r) :
    E.representative g (updateWhere p set rows) = E.representative g rows := by
  unfold representative updateWhere
  rw [List.find?_map, Option.map_map]
  have flags : E.isRepresentative g ∘ (fun r => if p r then set r else r) =
      E.isRepresentative g := by
    funext r
    by_cases hit : p r <;> simp [isRepresentative, hit, group, elected]
  rw [flags]
  congr 1
  funext r
  by_cases hit : p r <;> simp [hit, pk]

theorem representative_append {fresh : Row} :
    E.representative g (rows ++ [fresh]) = (E.representative g rows).or
      (if E.group fresh = g ∧ E.elected fresh then some (E.pk fresh) else none) := by
  unfold representative
  rw [List.find?_append, Option.map_or]
  congr 1
  by_cases hit : E.isRepresentative g fresh = true
  · simp [hit, isRepresentative_iff.mp hit]
  · have miss : ¬(E.group fresh = g ∧ E.elected fresh = true) := fun both =>
      hit (isRepresentative_iff.mpr both)
    simp only [if_neg miss, List.find?_singleton, if_neg hit, Option.map_none]

theorem Represented.append (all : E.Represented rows) {fresh : Row}
    (covered : (E.representative (E.group fresh) rows).isSome ∨ E.elected fresh = true) :
    E.Represented (rows ++ [fresh]) := by
  intro r hr
  rw [representative_append, Option.isSome_or]
  rcases List.mem_append.mp hr with old | new
  · simp [all r old]
  · obtain rfl := List.mem_singleton.mp new
    rcases covered with held | elected
    · simp [held]
    · simp [elected]

theorem Represented.updateWhere (all : E.Represented rows) {p : Row → Bool} {set : Row → Row}
    (pk : ∀ r, E.pk (set r) = E.pk r) (group : ∀ r, E.group (set r) = E.group r)
    (elected : ∀ r, E.elected (set r) = E.elected r) :
    E.Represented (updateWhere p set rows) := by
  intro r hr
  rw [representative_updateWhere pk group elected]
  obtain ⟨old, hold, rfl⟩ := mem_updateWhere.mp hr
  have same : E.group (if p old then set old else old) = E.group old := by
    by_cases hit : p old <;> simp [hit, group]
  rw [same]
  exact all old hold

/-- A delete takes the representative of the groups whose elected row it deletes. -/
theorem AtMostOne.representative_deleteWhere (one : E.AtMostOne rows) (p : Row → Bool) :
    E.representative g (deleteWhere p rows) = some k ↔
      ∃ r ∈ rows, E.group r = g ∧ E.elected r = true ∧ E.pk r = k ∧ p r = false := by
  have rest : E.AtMostOne (deleteWhere p rows) := one.partialIndex p
  rw [rest.representative_eq_some_iff]
  constructor
  · rintro ⟨r, hr, group, elected, same⟩
    obtain ⟨hr, kept⟩ := mem_deleteWhere.mp hr
    exact ⟨r, hr, group, elected, same, kept⟩
  · rintro ⟨r, hr, group, elected, same, kept⟩
    exact ⟨r, mem_deleteWhere.mpr ⟨hr, kept⟩, group, elected, same⟩

section Promote

variable [Min Key]

variable (E) in
/-- `SELECT MIN(pk) FROM rows WHERE group = g`. -/
def oldest (g : Group) (rows : List Row) : Option Key :=
  ((rows.filter fun r => E.group r = g).map E.pk).min?

theorem oldest_eq_none_iff : E.oldest g rows = none ↔ ∀ r ∈ rows, E.group r ≠ g := by
  simp [oldest]

variable [DecidableEq Key]

variable (E) in
/-- `UPDATE rows SET elected` for the row with the key `MIN(pk)` of the group, if no
row of the group is elected. -/
def promote (g : Group) (rows : List Row) : List Row :=
  updateWhere (fun r => E.oldest g rows = some (E.pk r) && (E.representative g rows).isNone)
    E.elect rows

theorem oldest_promote : E.oldest g (E.promote h rows) = E.oldest g rows := by
  unfold oldest promote updateWhere
  rw [List.filter_map, List.map_map]
  have groups : ∀ r : Row, ∀ c : Bool, E.group (if c then E.elect r else r) = E.group r := by
    intro r c
    cases c <;> simp [E.group_elect]
  have keys : ∀ r : Row, ∀ c : Bool, E.pk (if c then E.elect r else r) = E.pk r := by
    intro r c
    cases c <;> simp [E.pk_elect]
  simp only [Function.comp_def, groups, keys]

theorem promote_of_some (held : E.representative h rows = some k) : E.promote h rows = rows := by
  simp [promote, updateWhere, held]

theorem mem_promote_of_none (vacant : E.representative h rows = none) {r : Row} :
    r ∈ E.promote h rows ↔
      ∃ a ∈ rows, (if E.oldest h rows = some (E.pk a) then E.elect a else a) = r := by
  simp [promote, vacant]

variable [LE Key] [Std.IsLinearOrder Key] [Std.LawfulOrderMin Key]

omit [DecidableEq Key] in
theorem oldest_eq_some_iff : E.oldest g rows = some k ↔
    (∃ r ∈ rows, E.group r = g ∧ E.pk r = k) ∧ ∀ r ∈ rows, E.group r = g → k ≤ E.pk r := by
  unfold oldest
  rw [List.min?_eq_some_iff]
  apply and_congr
  · simp [and_assoc]
  · constructor
    · intro least r hr group
      exact least _ (List.mem_map_of_mem (List.mem_filter.mpr ⟨hr, by simpa using group⟩))
    · intro least b hb
      obtain ⟨r, hr, rfl⟩ := List.mem_map.mp hb
      obtain ⟨hr, group⟩ := List.mem_filter.mp hr
      exact least r hr (by simpa using group)

/-- A promotion gives the group a representative if it has rows and none is
elected, and changes no other group. -/
theorem representative_promote (ids : UniqueOn E.pk rows) (one : E.AtMostOne rows)
    (still : E.AtMostOne (E.promote h rows)) :
    E.representative g (E.promote h rows) =
      (E.representative g rows).or (if g = h then E.oldest g rows else none) := by
  cases held : E.representative h rows with
  | some k =>
    rw [promote_of_some held]
    by_cases eq : g = h
    · rw [eq, held, Option.some_or]
    · rw [if_neg eq, Option.or_none]
  | none =>
    have vacant : ∀ r ∈ rows, E.group r = h → E.elected r = false := by
      simpa [representative, isRepresentative] using held
    have flagged : ∀ k, E.representative g (E.promote h rows) = some k ↔ ∃ r ∈ rows,
        E.group r = g ∧ (E.oldest h rows = some (E.pk r) ∨ E.elected r = true) ∧ E.pk r = k := by
      intro k
      rw [still.representative_eq_some_iff]
      simp only [mem_promote_of_none held, exists_exists_and_eq_and]
      refine exists_congr fun r => and_congr_right fun _ => ?_
      by_cases hit : E.oldest h rows = some (E.pk r)
      · simp [hit, E.group_elect, E.elected_elect, E.pk_elect]
      · simp [hit]
    ext k
    rw [flagged]
    by_cases eq : g = h
    · subst eq
      rw [held, if_pos rfl, Option.none_or]
      constructor
      · rintro ⟨r, hr, group, chosen | elected, rfl⟩
        · exact chosen
        · simp [vacant r hr group] at elected
      · intro chosen
        obtain ⟨⟨r, hr, group, rfl⟩, _⟩ := oldest_eq_some_iff.mp chosen
        exact ⟨r, hr, group, .inl chosen, rfl⟩
    · rw [if_neg eq, Option.or_none, one.representative_eq_some_iff]
      refine exists_congr fun r => and_congr_right fun hr => and_congr_right fun group => ?_
      refine and_congr_left fun _ => ⟨?_, .inr⟩
      rintro (chosen | elected)
      · -- the chosen row is one of the group `h`
        obtain ⟨⟨a, ha, other, same⟩, _⟩ := oldest_eq_some_iff.mp chosen
        obtain rfl := ids.eq_of_key ha hr same
        exact absurd (group.symm.trans other) eq
      · exact elected

end Promote

end Election

end Byom.Relational
