import Byom.Relational.Election
import Byom.Relational.Reference

/-!
# Constraints over writes

An upsert takes care of the one unique constraint that it names, and an insert that ignores
conflicts of those it is told about. For every other constraint the lemmas below say what
the new row has to meet.
-/

namespace Byom.Relational

universe u v w

variable {Row : Type u} {Key : Type v} {Col : Type w} {key : Row → Key} {col : Row → Col}
  {merge : Row → Row} {fresh : Row} {rows : List Row} {q : Row → Bool} {cols : List Col}

/-! ### Unique indexes -/

theorem uniqueOn_filter_iff : UniqueOn col (rows.filter q) ↔
    rows.Pairwise fun a b => q a = true → q b = true → col a ≠ col b := by
  unfold UniqueOn List.Nodup
  rw [List.pairwise_map, List.pairwise_filter]

/-- An index over the rows with `q` survives an update that keeps its columns and `q`. -/
theorem UniqueOn.updateWhere_index (unique : UniqueOn col (rows.filter q)) {p : Row → Bool}
    (keeps : ∀ r, col (merge r) = col r) (flags : ∀ r, q (merge r) = q r) :
    UniqueOn col ((Relational.updateWhere p merge rows).filter q) := by
  rw [uniqueOn_filter_iff] at unique ⊢
  unfold Relational.updateWhere
  rw [List.pairwise_map]
  have same : ∀ r, col (if p r then merge r else r) = col r ∧
      q (if p r then merge r else r) = q r := by
    intro r
    split
    · exact ⟨keeps r, flags r⟩
    · exact ⟨rfl, rfl⟩
  refine unique.imp ?_
  intro a b apart flagA flagB
  rw [(same a).2] at flagA
  rw [(same b).2] at flagB
  rw [(same a).1, (same b).1]
  exact apart flagA flagB

theorem UniqueOn.append_index (unique : UniqueOn col (rows.filter q))
    (new : q fresh = true → ∀ r ∈ rows, q r = true → col r ≠ col fresh) :
    UniqueOn col ((rows ++ [fresh]).filter q) := by
  rw [List.filter_append]
  cases flag : q fresh with
  | false => simpa [flag] using unique
  | true =>
    have single : [fresh].filter q = [fresh] := by simp [flag]
    rw [single]
    apply unique.append
    intro r hr
    obtain ⟨member, flagR⟩ := List.mem_filter.mp hr
    exact new flag r member flagR

/-- An index that the upsert does not name. -/
theorem UniqueOn.upsertOn_index [DecidableEq Key] (unique : UniqueOn col (rows.filter q))
    (keeps : ∀ r, col (merge r) = col r) (flags : ∀ r, q (merge r) = q r)
    (new : q fresh = true → ∀ r ∈ rows, q r = true → col r ≠ col fresh) :
    UniqueOn col ((Relational.upsertOn key merge fresh rows).filter q) := by
  cases found : lookup key (key fresh) rows with
  | none =>
    rw [upsertOn_of_absent _ found]
    exact unique.append_index new
  | some old =>
    rw [upsertOn_of_lookup _ found]
    exact unique.updateWhere_index keeps flags

theorem UniqueOn.upsertOn_other [DecidableEq Key] (unique : UniqueOn col rows)
    (keeps : ∀ r, col (merge r) = col r) (new : ∀ r ∈ rows, col r ≠ col fresh) :
    UniqueOn col (Relational.upsertOn key merge fresh rows) := by
  have all : ∀ rows : List Row, rows.filter (fun _ => true) = rows := fun _ => List.filter_true _
  rw [← all rows] at unique
  rw [← all (Relational.upsertOn key merge fresh rows)]
  exact unique.upsertOn_index keeps (fun _ => rfl) fun _ r hr _ => new r hr

theorem UniqueOn.insertOrIgnore (unique : UniqueOn col rows) {conflict : Row → Row → Bool}
    (caught : ∀ r, col r = col fresh → conflict fresh r = true) :
    UniqueOn col (Relational.insertOrIgnore conflict fresh rows) := by
  unfold Relational.insertOrIgnore
  split
  · exact unique
  · rename_i free
    apply unique.append
    intro r hr same
    exact free (List.any_eq_true.mpr ⟨r, hr, caught r same⟩)

/-! ### Foreign keys -/

theorem References.upsertOn [DecidableEq Key] (refs : References col rows cols)
    (kept : ∀ r ∈ rows, col (merge r) ∈ cols) (new : col fresh ∈ cols) :
    References col (Relational.upsertOn key merge fresh rows) cols := by
  intro r hr
  rcases mem_upsertOn hr with ⟨rfl, _⟩ | ⟨old, _⟩ | ⟨old, hold, _, rfl⟩
  · exact new
  · exact refs r old
  · exact kept old hold

theorem References.insertOrIgnore (refs : References col rows cols)
    {conflict : Row → Row → Bool} (new : col fresh ∈ cols) :
    References col (Relational.insertOrIgnore conflict fresh rows) cols := by
  unfold Relational.insertOrIgnore
  split
  · exact refs
  · intro r hr
    rcases List.mem_append.mp hr with old | last
    · exact refs r old
    · rw [List.mem_singleton.mp last]
      exact new

/-! ### Elections -/

section

variable {Group : Type w} [DecidableEq Group] [LE Key] [Min Key] [DecidableEq Key]
  [Std.IsLinearOrder Key] [Std.LawfulOrderMin Key] {E : Election Row Group Key} {g : Group}

/-- A promotion elects nobody beside another elected row. -/
theorem Election.AtMostOne.promote (one : E.AtMostOne rows) (ids : UniqueOn E.pk rows) :
    E.AtMostOne (E.promote g rows) := by
  cases held : E.representative g rows with
  | some k =>
    rw [promote_of_some held]
    exact one
  | none =>
    have vacant : ∀ r ∈ rows, E.group r = g → E.elected r = false := by
      simpa [representative, isRepresentative] using held
    -- the row that is promoted is of the group, and no other row has its key
    have chosen : ∀ a ∈ rows, ∀ b ∈ rows, E.oldest g rows = some (E.pk a) →
        E.elected b = true → E.group a ≠ E.group b := by
      intro a ha b hb oldest elected same
      obtain ⟨⟨r, hr, group, pk⟩, _⟩ := oldest_eq_some_iff.mp oldest
      have own : r = a := ids.eq_of_key hr ha pk
      subst own
      have plain := vacant b hb (same.symm.trans group)
      rw [elected] at plain
      cases plain
    have pairs : rows.Pairwise fun a b => E.pk a ≠ E.pk b := List.pairwise_map.mp ids
    unfold AtMostOne at one ⊢
    rw [uniqueOn_filter_iff] at one ⊢
    unfold Election.promote Relational.updateWhere
    rw [List.pairwise_map, held]
    refine (one.and pairs).imp_of_mem ?_
    rintro a b ha hb ⟨apart, keys⟩
    simp only [Option.isNone_none, Bool.and_true, decide_eq_true_eq]
    by_cases first : E.oldest g rows = some (E.pk a)
    · have second : E.oldest g rows ≠ some (E.pk b) := by
        intro both
        exact keys (Option.some.inj (first.symm.trans both))
      rw [if_pos first, if_neg second, E.group_elect]
      intro _ elected
      exact chosen a ha b hb first elected
    · rw [if_neg first]
      by_cases second : E.oldest g rows = some (E.pk b)
      · rw [if_pos second, E.group_elect]
        intro elected _
        exact (chosen b hb a ha second elected).symm
      · rw [if_neg second]
        exact apart

end

end Byom.Relational
