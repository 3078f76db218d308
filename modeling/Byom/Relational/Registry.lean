import Mathlib.Logic.Function.Basic

/-!
# Keys with names

A registry gives some keys a name, and no name to two of them.
-/

namespace Byom.Relational

universe u v

variable {Key : Type u} {Name : Type v}

structure Registry (Key : Type u) (Name : Type v) where
  name : Key → Option Name
  distinct : ∀ a b n, name a = some n → name b = some n → a = b

namespace Registry

def empty : Registry Key Name := ⟨fun _ => none, nofun⟩

/-- The name belongs to no other key. -/
def FreeFor (reg : Registry Key Name) (k : Key) (n : Name) : Prop :=
  ∀ other, reg.name other = some n → other = k

variable [DecidableEq Key]

/-- The key gets the name. -/
def bind (reg : Registry Key Name) (k : Key) (n : Name) (free : reg.FreeFor k n) :
    Registry Key Name where
  name := Function.update reg.name k (some n)
  distinct := by
    intro a b m ha hb
    rw [Function.update_apply] at ha hb
    split at ha <;> split at hb
    · simp_all
    · cases ha
      exact absurd (free b hb) ‹_›
    · cases hb
      exact absurd (free a ha) ‹_›
    · exact reg.distinct a b m ha hb

/-- The key has no name any more. -/
def release (reg : Registry Key Name) (k : Key) : Registry Key Name where
  name := Function.update reg.name k none
  distinct := by
    intro a b m ha hb
    rw [Function.update_apply] at ha hb
    split at ha
    · cases ha
    · split at hb
      · cases hb
      · exact reg.distinct a b m ha hb

variable {reg : Registry Key Name} {k other : Key} {n : Name} {free : reg.FreeFor k n}

@[simp] theorem name_bind : (reg.bind k n free).name other =
    if other = k then some n else reg.name other :=
  Function.update_apply ..

@[simp] theorem name_release : (reg.release k).name other =
    if other = k then none else reg.name other :=
  Function.update_apply ..

end Registry

end Byom.Relational
