import Mathlib.Data.List.Destutter
import Mathlib.Data.List.Sort

/-!
# Sorted, without repetitions

Sorting by a key and dropping repetitions gives one list for each set of elements.
-/

namespace Byom.Relational

universe u v

variable {α : Type u} [DecidableEq α] {Key : Type v} [LinearOrder Key] {key : α → Key}

/-- Drop each element that is the same as the one before it. -/
def compact (l : List α) : List α := l.destutter (· ≠ ·)

def sortCompact (key : α → Key) (l : List α) : List α :=
  compact (l.insertionSort fun a b => key a ≤ key b)

theorem mem_destutter' {a b : α} {l : List α} :
    a ∈ l.destutter' (· ≠ ·) b ↔ a = b ∨ a ∈ l := by
  induction l generalizing b with
  | nil => simp
  | cons c rest ih =>
    rw [List.destutter'_cons]
    split
    · rw [List.mem_cons, ih, List.mem_cons]
    · rename_i same
      obtain rfl : b = c := not_not.mp same
      rw [ih, List.mem_cons]
      exact ⟨.imp_right .inr, fun h => h.elim .inl id⟩

theorem mem_compact {a : α} {l : List α} : a ∈ compact l ↔ a ∈ l := by
  cases l with
  | nil => rfl
  | cons b rest =>
    rw [compact, List.destutter_cons', mem_destutter', List.mem_cons]

@[simp] theorem mem_sortCompact {a : α} {l : List α} : a ∈ sortCompact key l ↔ a ∈ l := by
  rw [sortCompact, mem_compact, List.mem_insertionSort]

/-- Keys that tell elements apart strictly increase. -/
theorem sortCompact_pairwise (distinct : Function.Injective key) (l : List α) :
    (sortCompact key l).Pairwise fun a b => key a < key b := by
  have sorted : (l.insertionSort fun a b => key a ≤ key b).Pairwise fun a b => key a ≤ key b :=
    List.pairwise_insertionSort _ l
  have kept := sorted.sublist (List.destutter_sublist (· ≠ ·) _)
  have apart := List.isChain_destutter (· ≠ ·) (l.insertionSort fun a b => key a ≤ key b)
  have strict : (sortCompact key l).IsChain fun a b => key a < key b := by
    rw [List.isChain_iff_getElem] at apart ⊢
    intro i hi
    have le := List.pairwise_iff_getElem.mp kept i (i + 1) (Nat.lt_of_succ_lt hi) hi (by omega)
    exact lt_of_le_of_ne le fun same => apart i hi (distinct same)
  have trans : IsTrans α fun a b => key a < key b := ⟨fun _ _ _ => lt_trans⟩
  exact strict.pairwise

/-- One list for each set. -/
theorem sortCompact_eq_iff (distinct : Function.Injective key) {l l' : List α} :
    sortCompact key l = sortCompact key l' ↔ ∀ a, a ∈ l ↔ a ∈ l' := by
  constructor
  · intro same a
    have listed : a ∈ sortCompact key l ↔ a ∈ l := mem_sortCompact
    rw [← listed, same, mem_sortCompact]
  · intro same
    have irrefl : Std.Irrefl fun a b : α => key a < key b := ⟨fun _ => lt_irrefl _⟩
    have asymm : Std.Asymm fun a b : α => key a < key b := ⟨fun _ _ => lt_asymm⟩
    apply (sortCompact_pairwise distinct l).eq_of_mem_iff (sortCompact_pairwise distinct l')
    intro a
    rw [mem_sortCompact, mem_sortCompact]
    exact same a

end Byom.Relational
