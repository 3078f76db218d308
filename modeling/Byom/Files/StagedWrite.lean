import Mathlib.Data.List.Basic
import Mathlib.Logic.Function.Basic

/-!
# Writing files under temporary names

A writer stages the data of a file under a temporary name beside it, and renames it into
place. Any number of writers may be at it, each step may fail, and each may be the last: a file
under a lasting name is complete from the moment it is there.
-/

namespace Byom.Files

abbrev Bytes := List UInt8

/-- The files there are, with their content. -/
abbrev Disk (Name : Type) := Name → Option Bytes

inductive WriteStage (Name : Type) where
  | making
  | checking
  | creating
  | writing (tmp : Name)
  | closing (tmp : Name)
  | renaming (tmp : Name)
  | removing (tmp : Name)
  | returned (ok : Bool)
  deriving DecidableEq

/-- A write of `data` to `path` under way. -/
structure Job (Name : Type) where
  path : Name
  data : Bytes
  stage : WriteStage Name
  deriving DecidableEq

/-- `write n`: the first `n` bytes have been written. -/
inductive WriteAction where
  | mkdir
  | stat
  | create (random : String)
  | write (n : Nat)
  | close
  | rename
  | remove
  | fail
  deriving DecidableEq

variable {Name : Type}

namespace Job

/-- The temporary file that the job has made and not given up. -/
def tmp (job : Job Name) : Option Name :=
  match job.stage with
  | .writing t => some t
  | .closing t => some t
  | .renaming t => some t
  | .removing t => some t
  | _ => none

def goTo (job : Job Name) (stage : WriteStage Name) : Job Name := { job with stage }

/-- A file that is there already is left alone. A name is created only if it is new. -/
def step [DecidableEq Name] (temp : Name → String → Name) (disk : Disk Name) (job : Job Name)
    (a : WriteAction) : Option (Disk Name × Job Name) :=
  match job.stage, a with
  | .making, .mkdir => some (disk, job.goTo .checking)
  | .making, .fail => some (disk, job.goTo (.returned false))
  | .checking, .stat =>
    some (disk, job.goTo (if (disk job.path).isSome then .returned true else .creating))
  | .checking, .fail => some (disk, job.goTo .creating)
  | .creating, .create random =>
    let t := temp job.path random
    if disk t = none then some (Function.update disk t (some []), job.goTo (.writing t)) else none
  | .creating, .fail => some (disk, job.goTo (.returned false))
  | .writing t, .write n =>
    some (Function.update disk t (some (job.data.take n)),
      job.goTo (if job.data.length ≤ n then .closing t else .writing t))
  | .writing t, .fail => some (disk, job.goTo (.removing t))
  | .closing t, .close => some (disk, job.goTo (.renaming t))
  | .closing t, .fail => some (disk, job.goTo (.removing t))
  | .renaming t, .rename =>
    some (Function.update (Function.update disk job.path (disk t)) t none,
      job.goTo (.returned true))
  | .renaming t, .fail => some (disk, job.goTo (.removing t))
  | .removing t, .remove => some (Function.update disk t none, job.goTo (.returned false))
  | .removing _, .fail => some (disk, job.goTo (.returned false))
  | _, _ => none

/-- What is on the disk by where the job is. -/
structure Staged (temp : Name → String → Name) (disk : Disk Name) (job : Job Name) : Prop where
  temporary : ∀ t ∈ job.tmp, ∃ random, t = temp job.path random
  present : ∀ t ∈ job.tmp, (disk t).isSome
  whole : ∀ t, job.stage = .closing t ∨ job.stage = .renaming t → disk t = some job.data
  done : job.stage = .returned true → (disk job.path).isSome

end Job

/-- A name that staging makes up. -/
def IsTemporary (temp : Name → String → Name) (p : Name) : Prop := ∃ path random, p = temp path random

variable [DecidableEq Name] {temp : Name → String → Name} {disk disk' : Disk Name}
  {job job' : Job Name} {a : WriteAction}

/-- What a step does: to the disk, and to the job. -/
inductive Job.Moves (temp : Name → String → Name) (disk : Disk Name) (job : Job Name) :
    Disk Name → Job Name → Prop where
  | quiet {stage} (keeps : ∀ t ∈ (job.goTo stage).tmp, t ∈ job.tmp)
    (whole : ∀ t, stage = .closing t ∨ stage = .renaming t →
      job.stage = .closing t ∨ job.stage = .renaming t)
    (done : stage = .returned true → (disk job.path).isSome) : Moves temp disk job disk (job.goTo stage)
  | create (random : String) (free : disk (temp job.path random) = none) :
    Moves temp disk job (Function.update disk (temp job.path random) (some []))
      (job.goTo (.writing (temp job.path random)))
  | write (t : Name) (n : Nat) (stage : job.stage = .writing t) :
    Moves temp disk job (Function.update disk t (some (job.data.take n)))
      (job.goTo (if job.data.length ≤ n then .closing t else .writing t))
  | rename (t : Name) (stage : job.stage = .renaming t) :
    Moves temp disk job (Function.update (Function.update disk job.path (disk t)) t none)
      (job.goTo (.returned true))
  | remove (t : Name) (stage : job.stage = .removing t) :
    Moves temp disk job (Function.update disk t none) (job.goTo (.returned false))

theorem Job.moves_of_step (h : job.step temp disk a = some (disk', job')) :
    job.Moves temp disk disk' job' := by
  unfold Job.step at h
  split at h
  case h_3 at_ =>
    cases h
    apply Job.Moves.quiet
    · intro t ht
      split at ht <;> cases ht
    · intro t either
      split at either <;> rcases either with h | h <;> cases h
    · intro done
      split at done
      · assumption
      · cases done
  case h_5 random at_ =>
    simp only at h
    split at h
    · cases h
      exact .create random ‹_›
    · cases h
  case h_7 t n at_ =>
    cases h
    exact .write t n at_
  case h_11 t at_ =>
    cases h
    exact .rename t at_
  case h_13 t at_ =>
    cases h
    exact .remove t at_
  case h_15 => cases h
  all_goals
    rename_i at_
    cases h
    apply Job.Moves.quiet
    · intro t ht
      simp only [Job.tmp, at_, Job.goTo] at ht ⊢
      first | exact ht | cases ht
    · intro t either
      rcases either with h | h <;> cases h <;> exact .inl at_
    · intro done
      cases done

theorem Job.Moves.target (moves : job.Moves temp disk disk' job') :
    job'.path = job.path ∧ job'.data = job.data := by
  cases moves <;> exact ⟨rfl, rfl⟩

/-- A file under a lasting name is left alone, or is there with all its data. -/
theorem Job.Moves.lasting (moves : job.Moves temp disk disk' job') (staged : job.Staged temp disk)
    {p : Name} (lasting : ¬ IsTemporary temp p) :
    disk' p = disk p ∨ p = job.path ∧ disk' p = some job.data := by
  have apart : ∀ t ∈ job.tmp, p ≠ t := by
    rintro t ht rfl
    obtain ⟨random, own⟩ := staged.temporary p ht
    exact lasting ⟨_, random, own⟩
  cases moves with
  | quiet => exact .inl rfl
  | create random free =>
    left
    apply Function.update_of_ne
    rintro rfl
    exact lasting ⟨_, random, rfl⟩
  | write t n stage => exact .inl (Function.update_of_ne (apart t (by simp [tmp, stage])) _ _)
  | rename t stage =>
    rw [Function.update_of_ne (apart t (by simp [tmp, stage]))]
    by_cases own : p = job.path
    · right
      subst own
      rw [Function.update_self]
      exact ⟨rfl, staged.whole t (.inr stage)⟩
    · exact .inl (Function.update_of_ne own _ _)
  | remove t stage => exact .inl (Function.update_of_ne (apart t (by simp [tmp, stage])) _ _)

/-- A file under a lasting name stays. -/
theorem Job.Moves.stays (moves : job.Moves temp disk disk' job') (staged : job.Staged temp disk)
    {p : Name} (lasting : ¬ IsTemporary temp p) (there : (disk p).isSome) : (disk' p).isSome := by
  rcases moves.lasting staged lasting with same | ⟨_, whole⟩
  · rw [same]
    exact there
  · rw [whole]
    rfl

/-- The temporary file of another job is left alone. -/
theorem Job.Moves.elsewhere (moves : job.Moves temp disk disk' job') {t : Name}
    (there : (disk t).isSome) (other : t ∉ job.tmp) (notTarget : t ≠ job.path) :
    disk' t = disk t ∧ t ∉ job'.tmp := by
  have apart : ∀ x ∈ job.tmp, t ≠ x := by
    rintro x hx rfl
    exact other hx
  cases moves with
  | quiet keeps => exact ⟨rfl, fun has => other (keeps t has)⟩
  | create random free =>
    have new : t ≠ temp job.path random := by
      rintro rfl
      rw [free] at there
      cases there
    refine ⟨Function.update_of_ne new _ _, ?_⟩
    simpa [tmp, goTo] using Ne.symm new
  | write x n stage =>
    have ne := apart x (by simp [tmp, stage])
    refine ⟨Function.update_of_ne ne _ _, ?_⟩
    split <;> simpa [tmp, goTo] using Ne.symm ne
  | rename x stage =>
    have ne := apart x (by simp [tmp, stage])
    refine ⟨?_, by simp [tmp, goTo]⟩
    rw [Function.update_of_ne ne, Function.update_of_ne notTarget]
  | remove x stage =>
    have ne := apart x (by simp [tmp, stage])
    exact ⟨Function.update_of_ne ne _ _, by simp [tmp, goTo]⟩

/-- The job itself stays staged. -/
theorem Job.Moves.staged (moves : job.Moves temp disk disk' job') (staged : job.Staged temp disk)
    (lasting : ¬ IsTemporary temp job.path) : job'.Staged temp disk' := by
  cases moves with
  | quiet keeps whole done =>
    refine ⟨?_, ?_, ?_, done⟩
    · exact fun t ht => staged.temporary t (keeps t ht)
    · exact fun t ht => staged.present t (keeps t ht)
    · exact fun t either => staged.whole t (whole t either)
  | create random free =>
    refine ⟨?_, ?_, ?_, nofun⟩
    · intro t ht
      cases ht
      exact ⟨random, rfl⟩
    · intro t ht
      cases ht
      rw [Function.update_self]
      rfl
    · rintro t (h | h) <;> cases h
  | write t n stage =>
    have own : t ∈ job.tmp := by simp [tmp, stage]
    by_cases all : job.data.length ≤ n
    · rw [if_pos all]
      refine ⟨?_, ?_, ?_, nofun⟩
      · intro x hx
        cases hx
        exact staged.temporary t own
      · intro x hx
        cases hx
        rw [Function.update_self]
        rfl
      · rintro x (h | h)
        · cases h
          rw [Function.update_self, List.take_of_length_le all]
          rfl
        · cases h
    · rw [if_neg all]
      refine ⟨?_, ?_, ?_, nofun⟩
      · intro x hx
        cases hx
        exact staged.temporary t own
      · intro x hx
        cases hx
        rw [Function.update_self]
        rfl
      · rintro x (h | h) <;> cases h
  | rename t stage =>
    refine ⟨nofun, nofun, ?_, fun _ => ?_⟩
    · rintro x (h | h) <;> cases h
    · have ne : job.path ≠ t := by
        rintro rfl
        obtain ⟨random, own⟩ := staged.temporary job.path (by simp [tmp, stage])
        exact lasting ⟨_, random, own⟩
      show ((Function.update (Function.update disk job.path (disk t)) t none) job.path).isSome
      rw [Function.update_of_ne ne, Function.update_self, staged.whole t (.inr stage)]
      rfl
  | remove t stage =>
    refine ⟨nofun, nofun, ?_, nofun⟩
    rintro x (h | h) <;> cases h

/-! ### Many jobs on one disk -/

/-- The jobs under way are staged, on temporary files of their own. -/
structure Staging (temp : Name → String → Name) (disk : Disk Name) (jobs : Nat → Option (Job Name)) :
    Prop where
  staged : ∀ i job, jobs i = some job → job.Staged temp disk
  apart : ∀ i j job job' t, jobs i = some job → jobs j = some job' → t ∈ job.tmp →
    t ∈ job'.tmp → i = j
  lasting : ∀ i job, jobs i = some job → ¬ IsTemporary temp job.path

variable {jobs jobs' : Nat → Option (Job Name)} {i : Nat}

omit [DecidableEq Name] in
theorem Staging.idle (temp : Name → String → Name) (disk : Disk Name) :
    Staging temp disk fun _ => none := ⟨nofun, nofun, nofun⟩

omit [DecidableEq Name] in
/-- Jobs are dropped, and others have just begun. -/
theorem Staging.mono (staging : Staging temp disk jobs)
    (sub : ∀ i job, jobs' i = some job → jobs i = some job ∨
      job.stage = .making ∧ ¬ IsTemporary temp job.path) : Staging temp disk jobs' := by
  have old : ∀ {i job} {t : Name}, jobs' i = some job → t ∈ job.tmp → jobs i = some job := by
    intro i job t at_ has
    refine (sub i job at_).resolve_right ?_
    rintro ⟨stage, _⟩
    simp [Job.tmp, stage] at has
  refine ⟨?_, ?_, ?_⟩
  · intro i job at_
    rcases sub i job at_ with same | ⟨stage, _⟩
    · exact staging.staged i job same
    · constructor <;> simp [Job.tmp, stage]
  · intro i j job job' t at_ at' has has'
    exact staging.apart i j job job' t (old at_ has) (old at' has') has has'
  · intro i job at_
    rcases sub i job at_ with same | ⟨_, lasting⟩
    · exact staging.lasting i job same
    · exact lasting

/-- One of the jobs takes a step. -/
theorem Staging.step (staging : Staging temp disk jobs) (at_ : jobs i = some job)
    (h : job.step temp disk a = some (disk', job')) :
    Staging temp disk' (Function.update jobs i (some job')) := by
  have moves := Job.moves_of_step h
  have staged := staging.staged i job at_
  have lasting := staging.lasting i job at_
  have other : ∀ {j x} {t : Name}, j ≠ i → jobs j = some x → t ∈ x.tmp →
      disk' t = disk t ∧ t ∉ job'.tmp := by
    intro j x t ne atX has
    obtain ⟨random, own⟩ := (staging.staged j x atX).temporary t has
    refine moves.elsewhere ((staging.staged j x atX).present t has) ?_ ?_
    · exact fun both => ne (staging.apart j i x job t atX at_ has both)
    · rintro rfl
      exact lasting ⟨_, random, own⟩
  refine ⟨?_, ?_, ?_⟩
  · intro j x atX
    by_cases here : j = i
    · subst here
      rw [Function.update_self] at atX
      cases atX
      exact moves.staged staged lasting
    · rw [Function.update_of_ne here] at atX
      have before := staging.staged j x atX
      refine ⟨before.temporary, ?_, ?_, ?_⟩
      · intro t has
        rw [(other here atX has).1]
        exact before.present t has
      · intro t either
        have has : t ∈ x.tmp := by
          rcases either with stage | stage <;> simp [Job.tmp, stage]
        rw [(other here atX has).1]
        exact before.whole t either
      · intro done
        exact moves.stays staged (staging.lasting j x atX) (before.done done)
  · intro j k x y t atX atY hasX hasY
    by_cases hj : j = i
    · by_cases hk : k = i
      · exact hj.trans hk.symm
      · subst hj
        rw [Function.update_self] at atX
        rw [Function.update_of_ne hk] at atY
        cases atX
        exact absurd hasX (other hk atY hasY).2
    · rw [Function.update_of_ne hj] at atX
      by_cases hk : k = i
      · subst hk
        rw [Function.update_self] at atY
        cases atY
        exact absurd hasY (other hj atX hasX).2
      · rw [Function.update_of_ne hk] at atY
        exact staging.apart j k x y t atX atY hasX hasY
  · intro j x atX
    by_cases here : j = i
    · subst here
      rw [Function.update_self] at atX
      cases atX
      rw [moves.target.1]
      exact lasting
    · rw [Function.update_of_ne here] at atX
      exact staging.lasting j x atX

end Byom.Files
