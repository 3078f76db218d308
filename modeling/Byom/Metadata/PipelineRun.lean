import Mathlib.Data.List.Basic
import Byom.Metadata.Steps

/-!
# A run of the pipeline until its context is cancelled

`PipelineRun` adds to the pipeline what `Run` is given and returns: the context, and
which of its goroutines have returned. It also numbers the claims in the order in which
they are taken. They go through the dispatcher's batch and the queue in that order, so
each worker's claim has a known number, and its outcome can be kept.

A `DirtyDirs` that was sent before the cancellation may still commit after it.
-/

namespace Byom.Metadata

open Storage Relational Sqlite

/-- How a parse of a claimed dir ended. `canceled` is a failure that is due to the
cancellation of the context. -/
inductive Outcome where
  | succeeded
  | failed
  | canceled
  deriving DecidableEq, Repr

/-- A claim that was taken, and its outcome once there is one. -/
structure Attempt where
  dir : ClaimedDir
  outcome : Option Outcome
  deriving DecidableEq, Repr

/-- `pending` are the numbers of the claims that no worker has received yet, in order,
and `serial` gives the number of the claim of each worker. -/
structure PipelineRun (Import : Type) where
  pipeline : Pipeline Import
  cancelled : Bool
  dispatching : Bool
  returned : List Nat
  history : List Attempt
  pending : List Nat
  serial : Nat → Nat

inductive RunAction where
  | act (a : Action)
  | cancel
  | claimLost (picked : List UUID)
  | failCancelled (w : Nat)
  | dispatcherReturns
  | workerReturns (w : Nat)

namespace PipelineRun

variable {Import : Type}

def start (t : ScanTables) (library : UUID → Import) (n : Nat) : PipelineRun Import where
  pipeline := .start t library n
  cancelled := false
  dispatching := true
  returned := []
  history := []
  pending := []
  serial := fun _ => 0

/-- A goroutine that has returned does nothing more, and no retry is armed after the
cancellation. -/
def allows (s : PipelineRun Import) : Action → Bool
  | .receiveToken | .dirtyDirs _ | .send => s.dispatching
  | .receive w => w ∉ s.returned
  | .armRetry _ => !s.cancelled
  | _ => true

/-- The parse of worker `w` has ended. -/
def close (s : PipelineRun Import) (w : Nat) (o : Outcome) : PipelineRun Import :=
  { s with history := s.history.modify (s.serial w) fun a => { a with outcome := some o } }

/-- The claims that `DirtyDirs` takes. -/
def taken (s : PipelineRun Import) (picked : List UUID) : List Attempt :=
  (s.pipeline.tables.dirtyDirs picked).2.map fun c => ⟨c, none⟩

/-- What an action of the pipeline adds to the record of the claims. -/
def note (s : PipelineRun Import) : Action → PipelineRun Import
  | .dirtyDirs picked =>
    { s with
      history := s.history ++ s.taken picked
      pending := s.pending ++ List.range' s.history.length (s.taken picked).length }
  | .receive w =>
    { s with
      pending := s.pending.tail
      serial := Function.update s.serial w (s.pending.headD 0) }
  | .importDir w => s.close w .succeeded
  | .fail w => s.close w .failed
  | _ => s

def act (importOf : List File → Import) (s : PipelineRun Import) (a : Action) :
    Option (PipelineRun Import) :=
  if s.allows a then
    (s.pipeline.step importOf a).map fun p => { s.note a with pipeline := p }
  else none

/-- `DirtyDirs` commits and returns an error: `pump` tries again, and the dirs stay
locked. -/
def claimLost (s : PipelineRun Import) (picked : List UUID) : Option (PipelineRun Import) :=
  if s.dispatching = true ∧ s.pipeline.dispatcher = .pumping ∧
      s.pipeline.tables.Picks s.pipeline.workers.length picked then
    some { s with
      pipeline := { s.pipeline with tables := (s.pipeline.tables.dirtyDirs picked).1 }
      history := s.history ++ s.taken picked }
  else none

/-- A store call or `OnResult` returns an error because the context is cancelled. -/
def failCancelled (s : PipelineRun Import) (w : Nat) : Option (PipelineRun Import) :=
  if s.cancelled then
    (s.pipeline.fail w).map fun p => { s.close w .canceled with pipeline := p }
  else none

def step (importOf : List File → Import) (s : PipelineRun Import) :
    RunAction → Option (PipelineRun Import)
  | .act a => s.act importOf a
  | .cancel => some { s with cancelled := true }
  | .claimLost picked => s.claimLost picked
  | .failCancelled w => s.failCancelled w
  | .dispatcherReturns =>
    if s.cancelled ∧ s.dispatching then some { s with dispatching := false } else none
  | .workerReturns w =>
    if s.cancelled = true ∧ s.pipeline.workers[w]? = some .idle ∧ w ∉ s.returned then
      some { s with returned := w :: s.returned }
    else none

/-- All workers have returned. -/
def Stopped (s : PipelineRun Import) : Prop :=
  ∀ w < s.pipeline.workers.length, w ∈ s.returned

instance : DecidablePred (Stopped : PipelineRun Import → Prop) := fun s =>
  inferInstanceAs (Decidable (∀ w < s.pipeline.workers.length, w ∈ s.returned))

/-- The claims that the dispatcher has taken and no worker has received. -/
def queued (p : Pipeline Import) : List ClaimedDir := p.toParse ++ p.dispatcher.batch

/-- The number of the failures of a dir at a generation that were not due to the
cancellation. -/
def realFailures (s : PipelineRun Import) (dirID : UUID) (gen : Int) : Nat :=
  s.history.countP fun a =>
    a.dir.id = dirID ∧ a.dir.lockedGeneration = gen ∧ a.outcome = some .failed

/-- No claim of the dir was taken after the one with number `i`. -/
def IsLatest (s : PipelineRun Import) (i : Nat) (dirID : UUID) : Prop :=
  ∀ c ∈ (s.history.map Attempt.dir).drop (i + 1), c.id ≠ dirID

instance (s : PipelineRun Import) (i : Nat) (dirID : UUID) : Decidable (s.IsLatest i dirID) :=
  inferInstanceAs (Decidable (∀ c ∈ (s.history.map Attempt.dir).drop (i + 1), c.id ≠ dirID))

end PipelineRun

/-- What is known of the outcome of a worker's claim by where the worker is. -/
def Worker.Tells : Worker → Option Outcome → Prop
  | .idle, _ => True
  | .claimed _, o => o = none
  | .read _ _, o => o = none
  | .imported _, o => o = some .succeeded
  | .cleared _, o => o = some .succeeded
  | .failed _, o => o = some .failed ∨ o = some .canceled
  | .givingUp _, o => o = some .failed ∨ o = some .canceled
  | .redirtying _, o => o = some .failed ∨ o = some .canceled
  | .redirtied, _ => True

end Byom.Metadata
