import Mathlib.Data.Prod.Lex
import Mathlib.Order.Lex
import Byom.Paging.Keyset

/-!
# The first rows of a sort that need not be stable

Rows are sorted by a key, the greatest first. Where the rows with one key come is up to the
sort, so a row is among the first `n` for certain only if there is room for all with its key.
-/

namespace Byom.Paging

universe u

/-- A sort by a key, the greatest first. -/
structure UnstableSort {Row : Type u} (key : Row → Int) where
  sort : List Row → List Row
  perm : ∀ rows, (sort rows).Perm rows
  sorted : ∀ rows, (sort rows).Pairwise fun a b => key b ≤ key a

namespace UnstableSort

variable {Row : Type u} {key : Row → Int} {rows : List Row} {x : Row} {n : Nat}

theorem byTie_pairwise (tie : Row → Nat) (rows : List Row) :
    (ordered (· < ·) (fun x => toLex (OrderDual.toDual (key x), tie x)) rows).Pairwise fun a b =>
      key b < key a ∨ key a = key b ∧ tie a ≤ tie b := by
  refine (ordered_weak rows).imp ?_
  intro a b before
  rcases Prod.Lex.toLex_le_toLex.mp (not_lt.mp before) with less | ⟨same, le⟩
  · exact .inl less
  · exact .inr ⟨OrderDual.toDual_inj.mp same, le⟩

/-- Ties are broken by a second key, the least first. -/
def byTie (key : Row → Int) (tie : Row → Nat) : UnstableSort key where
  sort := ordered (· < ·) fun x => toLex (OrderDual.toDual (key x), tie x)
  perm := ordered_perm
  sorted rows := by
    refine (byTie_pairwise tie rows).imp ?_
    rintro a b (less | ⟨same, _⟩)
    · exact le_of_lt less
    · exact le_of_eq same.symm

theorem mem_take_of_length {pre post : List Row} (room : pre.length < n) :
    x ∈ (pre ++ x :: post).take n := by
  rw [List.take_append]
  obtain ⟨k, more⟩ := Nat.exists_eq_add_of_lt room
  apply List.mem_append_right
  have left : n - pre.length = k + 1 := by omega
  rw [left, List.take_succ_cons]
  exact List.mem_cons_self

/-- Where a row among the first `n` is. -/
theorem exists_of_mem_take {sorted : List Row} (first : x ∈ sorted.take n) :
    ∃ pre post, sorted = pre ++ x :: post ∧ pre.length < n := by
  obtain ⟨pre, post, split⟩ := List.append_of_mem first
  refine ⟨pre, post ++ sorted.drop n, ?_, ?_⟩
  · rw [← List.cons_append, ← List.append_assoc, ← split, List.take_append_drop]
  · have short := List.length_take_le n sorted
    rw [split, List.length_append, List.length_cons] at short
    omega

/-- There is room for all rows with the key. -/
theorem mem_take_sort (s : UnstableSort key) (listed : x ∈ rows)
    (room : (rows.countP fun y => key x ≤ key y) ≤ n) : x ∈ (s.sort rows).take n := by
  obtain ⟨pre, post, split⟩ := List.append_of_mem ((s.perm rows).mem_iff.mpr listed)
  have sorted := s.sorted rows
  rw [split] at sorted ⊢
  obtain ⟨_, _, before⟩ := List.pairwise_append.mp sorted
  have all : (pre.countP fun y => key x ≤ key y) = pre.length :=
    List.countP_eq_length.mpr fun y hy => decide_eq_true (before y hy x List.mem_cons_self)
  rw [← (s.perm rows).countP_eq, split, List.countP_append, all,
    List.countP_cons_of_pos (by simp)] at room
  exact mem_take_of_length (by omega)

/-- Rows with greater keys take all the room. -/
theorem not_mem_take_sort (s : UnstableSort key)
    (full : n ≤ rows.countP fun y => key x < key y) : x ∉ (s.sort rows).take n := by
  intro first
  obtain ⟨pre, post, split, room⟩ := exists_of_mem_take first
  have sorted := s.sorted rows
  rw [split] at sorted
  obtain ⟨_, after, _⟩ := List.pairwise_append.mp sorted
  have none_ : (post.countP fun y => key x < key y) = 0 := by
    apply List.countP_eq_zero.mpr
    intro y hy
    have le := (List.pairwise_cons.mp after).1 y hy
    simpa using le
  have few := List.countP_le_length (p := fun y => key x < key y) (l := pre)
  rw [← (s.perm rows).countP_eq, split, List.countP_append,
    List.countP_cons_of_neg (by simp), none_] at full
  omega

variable [DecidableEq Row]

/-- Among the first `n` of every sort, a row has room when it comes last of its key. -/
theorem forall_mem_take_iff (distinct : rows.Nodup) (listed : x ∈ rows) :
    (∀ s : UnstableSort key, x ∈ (s.sort rows).take n) ↔
      (rows.countP fun y => key x ≤ key y) ≤ n := by
  refine ⟨?_, fun room s => s.mem_take_sort listed room⟩
  intro always
  obtain ⟨pre, post, split, room⟩ :=
    exists_of_mem_take (always (byTie key fun y => if y = x then 1 else 0))
  have perm := (byTie key fun y => if y = x then 1 else 0).perm rows
  have sorted := @byTie_pairwise Row key (fun y => if y = x then 1 else 0) rows
  have nodup := perm.nodup_iff.mpr distinct
  rw [split] at perm nodup
  rw [show ordered _ _ rows = _ from split] at sorted
  have apart := (List.nodup_cons.mp (List.nodup_append.mp nodup).2.1).1
  obtain ⟨_, after, _⟩ := List.pairwise_append.mp sorted
  have none_ : (post.countP fun y => key x ≤ key y) = 0 := by
    apply List.countP_eq_zero.mpr
    intro y hy le
    rcases (List.pairwise_cons.mp after).1 y hy with less | ⟨_, tie⟩
    · exact absurd (of_decide_eq_true le) (not_le_of_gt less)
    · have other : y ≠ x := fun same => apart (same ▸ hy)
      simp [other] at tie
  have few := List.countP_le_length (p := fun y => key x ≤ key y) (l := pre)
  rw [← perm.countP_eq, List.countP_append, List.countP_cons_of_pos (by simp), none_]
  omega

/-- Among the first `n` of no sort, a row is left out when it comes first of its key. -/
theorem forall_not_mem_take_iff (distinct : rows.Nodup) (listed : x ∈ rows) :
    (∀ s : UnstableSort key, x ∉ (s.sort rows).take n) ↔
      n ≤ rows.countP fun y => key x < key y := by
  refine ⟨?_, fun full s => s.not_mem_take_sort full⟩
  intro never
  have left := never (byTie key fun y => if y = x then 0 else 1)
  have perm := (byTie key fun y => if y = x then 0 else 1).perm rows
  have sorted := @byTie_pairwise Row key (fun y => if y = x then 0 else 1) rows
  have nodup := perm.nodup_iff.mpr distinct
  obtain ⟨pre, post, split⟩ := List.append_of_mem (perm.mem_iff.mpr listed)
  rw [split] at perm nodup left
  rw [show ordered _ _ rows = _ from split] at sorted
  obtain ⟨_, _, before⟩ := List.pairwise_append.mp sorted
  have all : (pre.countP fun y => key x < key y) = pre.length := by
    apply List.countP_eq_length.mpr
    intro y hy
    rcases before y hy x List.mem_cons_self with less | ⟨_, tie⟩
    · exact decide_eq_true less
    · have other : y ≠ x := (List.nodup_append.mp nodup).2.2 y hy x List.mem_cons_self
      simp [other] at tie
  rw [← perm.countP_eq, List.countP_append, all]
  by_contra few
  exact left (mem_take_of_length (by omega))

end UnstableSort

end Byom.Paging
