import Mathlib.Data.List.Nodup
import Mathlib.Data.List.Perm.Basic

/-!
# Leases

A lease is a claim on a key that some lock backs. Keys whose locks are free can
be leased next to the leases that are out, and no key is then leased twice.
-/

namespace Byom.Transition

universe u v

variable {Claim : Type u} {Key : Type v}

/-- The leases that are out: no two on one key, and each backed by its lock. -/
structure Leases (key : Claim → Key) (backed : Claim → Prop) (out : List Claim) : Prop where
  exclusive : (out.map key).Nodup
  backed : ∀ c ∈ out, backed c

variable {key : Claim → Key} {backed backed' : Claim → Prop} {out out' batch : List Claim}
  {c : Claim}

theorem Leases.perm (leases : Leases key backed out) (same : out'.Perm out) :
    Leases key backed out' :=
  ⟨(same.map key).nodup_iff.mpr leases.exclusive, fun c hc => leases.backed c (same.mem_iff.mp hc)⟩

/-- Writes that leave the locks of leased keys alone. -/
theorem Leases.imp (leases : Leases key backed out)
    (keeps : ∀ c ∈ out, backed c → backed' c) : Leases key backed' out :=
  ⟨leases.exclusive, fun c hc => keeps c hc (leases.backed c hc)⟩

theorem Leases.ne_of_cons (leases : Leases key backed (c :: out)) {d : Claim} (hd : d ∈ out) :
    key d ≠ key c := by
  intro same
  have apart := (List.nodup_cons.mp leases.exclusive).1
  exact apart (same ▸ List.mem_map_of_mem hd)

/-- Giving back a lease may free its lock, and must not free another. -/
theorem Leases.giveBack (leases : Leases key backed (c :: out))
    (keeps : ∀ d ∈ out, key d ≠ key c → backed d → backed' d) : Leases key backed' out := by
  refine ⟨(List.nodup_cons.mp leases.exclusive).2, ?_⟩
  intro d hd
  exact keeps d hd (leases.ne_of_cons hd) (leases.backed d (List.mem_cons_of_mem _ hd))

theorem Leases.acquire (leases : Leases key backed out) (distinct : (batch.map key).Nodup)
    (free : ∀ b ∈ batch, ∀ c ∈ out, key b ≠ key c) (taken : ∀ b ∈ batch, backed' b)
    (keeps : ∀ c ∈ out, backed c → backed' c) : Leases key backed' (batch ++ out) := by
  refine ⟨?_, ?_⟩
  · rw [List.map_append, List.nodup_append]
    refine ⟨distinct, leases.exclusive, ?_⟩
    intro a ha b hb
    obtain ⟨x, hx, rfl⟩ := List.mem_map.mp ha
    obtain ⟨y, hy, rfl⟩ := List.mem_map.mp hb
    exact free x hx y hy
  · intro c hc
    rcases List.mem_append.mp hc with new | old
    · exact taken c new
    · exact keeps c old (leases.backed c old)

/-- The values held in the slots of a list, when one slot changes. -/
theorem filterMap_set_perm {Slot : Type*} {Value : Type*} (held : Slot → Option Value)
    {slots : List Slot} {i : Nat} {x : Slot} (found : slots[i]? = some x) (y : Slot) :
    ((held x).toList ++ (slots.set i y).filterMap held).Perm
      ((held y).toList ++ slots.filterMap held) := by
  induction slots generalizing i with
  | nil => simp at found
  | cons a slots ih =>
    cases i with
    | zero =>
      obtain rfl : a = x := by simpa using found
      have front : ∀ z : Slot, (z :: slots).filterMap held =
          (held z).toList ++ slots.filterMap held := by
        intro z
        cases h : held z <;> simp [h]
      rw [List.set_cons_zero, front, front, ← List.append_assoc, ← List.append_assoc]
      exact List.perm_append_comm.append_right _
    | succ i =>
      have tail := ih (by simpa using found)
      have front : ∀ rest : List Slot, (a :: rest).filterMap held =
          (held a).toList ++ rest.filterMap held := by
        intro rest
        cases h : held a <;> simp [h]
      rw [List.set_cons_succ, front, front]
      have swap : ∀ u v w : List Value, (u ++ (v ++ w)).Perm (v ++ (u ++ w)) := by
        intro u v w
        rw [← List.append_assoc, ← List.append_assoc]
        exact List.perm_append_comm.append_right w
      exact ((swap _ _ _).trans (tail.append_left _)).trans (swap _ _ _)

end Byom.Transition
