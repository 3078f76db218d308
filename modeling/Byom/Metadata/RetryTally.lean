import Byom.Metadata.Shutdown

/-!
# Attempts at one generation of a dir

`Tally` counts the claims of a dir at one generation, and what became of them, beside the
count that `recordFailure` keeps. `Stage` says how the counts stand by where the worker
with the claim is.
-/

namespace Byom.Metadata

open Storage Relational Sqlite

/-- The counts for a dir at one generation. -/
structure Tally where
  claims : Nat
  failures : Nat
  successes : Nat
  counted : Nat

namespace Tally

/-- A claim is out and has no outcome yet. -/
structure Open (T : Tally) : Prop where
  successes : T.successes = 0
  claims : T.claims = T.failures + 1
  failures : T.failures < maxParseAttempts
  counted : T.counted = T.failures

/-- The dir waits for another attempt. -/
structure Waiting (T : Tally) : Prop where
  successes : T.successes = 0
  claims : T.claims = T.failures
  failures : T.failures < maxParseAttempts
  counted : T.counted = T.failures

/-- A failure is still to be recorded. -/
structure Failing (T : Tally) : Prop where
  successes : T.successes = 0
  claims : T.claims = T.failures
  failures : T.failures ≤ maxParseAttempts
  counted : T.counted + 1 = T.failures

/-- No attempt is left. -/
structure Exhausted (T : Tally) : Prop where
  successes : T.successes = 0
  claims : T.claims = T.failures
  failures : T.failures = maxParseAttempts

/-- An attempt succeeded. -/
structure Parsed (T : Tally) : Prop where
  successes : 0 < T.successes
  claims : T.claims ≤ maxParseAttempts

/-- The counts after an outcome. -/
def close (T : Tally) (decided : Outcome) : Tally :=
  { T with
    failures := T.failures + if decided = .succeeded then 0 else 1
    successes := T.successes + if decided = .succeeded then 1 else 0 }

end Tally

/-- How the counts stand while a worker has the claim. -/
def Worker.Stage : Worker → Tally → Prop
  | .claimed _, T => T.Open
  | .read _ _, T => T.Open
  | .imported _, T => T.Parsed
  | .cleared _, T => T.Parsed
  | .failed _, T => T.Failing
  | .givingUp _, T => T.Exhausted
  | .redirtying _, T => T.Waiting
  | .idle, _ => False
  | .redirtied, _ => False

/-- The failures counted for a generation. -/
def ParseAttempts.at (counts : ParseAttempts) (gen : Int) : Nat :=
  if counts.generation = gen then counts.failures else 0

/-- Recording a failure adds one to the count of its generation. -/
theorem countFailure_at (dir : ClaimedDir) (counts : ParseAttempts) :
    (Pipeline.countFailure dir counts).at dir.lockedGeneration =
      counts.at dir.lockedGeneration + 1 ∧
    (Pipeline.countFailure dir counts).failures =
      (Pipeline.countFailure dir counts).at dir.lockedGeneration := by
  unfold Pipeline.countFailure ParseAttempts.at
  by_cases same : counts.generation = dir.lockedGeneration
  · simp [same]
  · simp [same]

@[simp] theorem countFailure_generation (dir : ClaimedDir) (counts : ParseAttempts) :
    (Pipeline.countFailure dir counts).generation = dir.lockedGeneration := by
  unfold Pipeline.countFailure
  split
  · rfl
  · rename_i same
    exact not_not.mp same

/-- The claim is on this dir, at this generation. -/
def ClaimedDir.On (dirID : UUID) (gen : Int) (c : ClaimedDir) : Prop :=
  c.id = dirID ∧ c.lockedGeneration = gen

instance (dirID : UUID) (gen : Int) : DecidablePred (ClaimedDir.On dirID gen) := fun c =>
  inferInstanceAs (Decidable (c.id = dirID ∧ c.lockedGeneration = gen))

def Attempt.of (dirID : UUID) (gen : Int) (a : Attempt) : Bool :=
  a.dir.On dirID gen

/-- The outcome is a failure, whatever it is due to. -/
def Attempt.isFailure (a : Attempt) : Bool :=
  a.outcome = some .failed ∨ a.outcome = some .canceled

namespace PipelineRun

variable {Import : Type} {s s' : PipelineRun Import} {w : Nat} {dirID : UUID} {gen : Int}

def tally (s : PipelineRun Import) (dirID : UUID) (gen : Int) : Tally where
  claims := s.history.countP fun a => a.of dirID gen
  failures := s.history.countP fun a => a.of dirID gen && a.isFailure
  successes := s.history.countP fun a => a.of dirID gen && a.outcome = some .succeeded
  counted := (s.pipeline.attempts dirID).at gen

/-- Closing an attempt on another dir or at another generation. -/
theorem tally_close_other {c : ClaimedDir} {o : Option Outcome}
    (entry : s.history[s.serial w]? = some ⟨c, o⟩)
    (other : (⟨c, o⟩ : Attempt).of dirID gen = false) (decided : Outcome)
    (history : s'.history = (s.close w decided).history)
    (attempts : (s'.pipeline.attempts dirID).at gen = (s.pipeline.attempts dirID).at gen) :
    s'.tally dirID gen = s.tally dirID gen := by
  have other' : (⟨c, some decided⟩ : Attempt).of dirID gen = false := other
  have count : ∀ q : Attempt → Bool, s'.history.countP (fun a => a.of dirID gen && q a) =
      s.history.countP fun a => a.of dirID gen && q a := by
    intro q
    have changed := countP_modify (p := fun a => a.of dirID gen && q a)
      (f := fun a => { a with outcome := some decided }) entry
    simp only [other, other', Bool.false_and, Bool.false_eq_true, if_false] at changed
    rw [history]
    exact changed
  have all := count fun _ => true
  simp only [Bool.and_true] at all
  unfold tally
  rw [attempts, all, count Attempt.isFailure, count fun a => a.outcome = some .succeeded]

/-- Closing the open attempt of the dir at the generation. -/
theorem tally_close {c : ClaimedDir} (entry : s.history[s.serial w]? = some ⟨c, none⟩)
    (own : (⟨c, none⟩ : Attempt).of dirID gen = true) (decided : Outcome)
    (history : s'.history = (s.close w decided).history)
    (attempts : (s'.pipeline.attempts dirID).at gen = (s.pipeline.attempts dirID).at gen) :
    s'.tally dirID gen = (s.tally dirID gen).close decided := by
  have own' : (⟨c, some decided⟩ : Attempt).of dirID gen = true := own
  have count : ∀ q : Attempt → Bool, q ⟨c, none⟩ = false →
      s'.history.countP (fun a => a.of dirID gen && q a) =
        s.history.countP (fun a => a.of dirID gen && q a) +
          if q ⟨c, some decided⟩ then 1 else 0 := by
    intro q before
    have changed := countP_modify (p := fun a => a.of dirID gen && q a)
      (f := fun a => { a with outcome := some decided }) entry
    simp only [own, own', before, Bool.true_and, Bool.false_eq_true, if_false] at changed
    rw [history]
    exact changed
  have claims : s'.history.countP (fun a => a.of dirID gen) =
      s.history.countP fun a => a.of dirID gen := by
    have changed := countP_modify (p := fun a => a.of dirID gen)
      (f := fun a => { a with outcome := some decided }) entry
    simp only [own, own', if_true] at changed
    rw [history]
    exact Nat.add_right_cancel changed
  unfold tally Tally.close
  rw [attempts, claims, count Attempt.isFailure rfl, count (fun a => a.outcome = some .succeeded) rfl]
  cases decided <;> rfl

/-- New claims have no outcome. -/
theorem tally_append {claims : List ClaimedDir}
    (history : s'.history = s.history ++ claims.map fun c => ⟨c, none⟩)
    (attempts : (s'.pipeline.attempts dirID).at gen = (s.pipeline.attempts dirID).at gen) :
    s'.tally dirID gen = { s.tally dirID gen with
      claims := (s.tally dirID gen).claims +
        claims.countP fun c => c.On dirID gen } := by
  have none_ : ∀ q : Attempt → Bool, (∀ c, q ⟨c, none⟩ = false) →
      s'.history.countP (fun a => a.of dirID gen && q a) =
        s.history.countP fun a => a.of dirID gen && q a := by
    intro q undecided
    rw [history, List.countP_append, List.countP_map]
    simp [Function.comp_def, undecided]
  have added : s'.history.countP (fun a => a.of dirID gen) =
      s.history.countP (fun a => a.of dirID gen) +
        claims.countP fun c => c.On dirID gen := by
    rw [history, List.countP_append, List.countP_map]
    rfl
  unfold tally
  rw [attempts, added, none_ Attempt.isFailure fun _ => rfl,
    none_ (fun a => a.outcome = some .succeeded) fun _ => rfl]

/-- Each attempt has one outcome at most. -/
theorem tally_outcomes (s : PipelineRun Import) (dirID : UUID) (gen : Int)
    (ended : ∀ a ∈ s.history, a.of dirID gen = true → a.outcome ≠ none) :
    (s.tally dirID gen).claims =
      (s.tally dirID gen).failures + (s.tally dirID gen).successes := by
  unfold tally
  simp only
  generalize s.history = l at ended
  induction l with
  | nil => rfl
  | cons a l ih =>
    have rest := ih fun b hb => ended b (List.mem_cons_of_mem _ hb)
    have here := ended a List.mem_cons_self
    simp only [List.countP_cons]
    rw [rest]
    by_cases own : a.of dirID gen = true
    · obtain ⟨o, decided⟩ := Option.ne_none_iff_exists'.mp (here own)
      cases o <;> simp [own, Attempt.isFailure, decided] <;> omega
    · simp [own]

end PipelineRun

end Byom.Metadata
