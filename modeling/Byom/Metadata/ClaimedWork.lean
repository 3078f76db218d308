import Byom.Metadata.RunRecord

/-!
# How much is claimed at a time

With `n` workers, `pump` claims at most `n` dirs and claims again only after it has sent
them all, the queue holds at most `n`, and each worker parses one.
-/

namespace Byom.Metadata

open Storage Relational Sqlite Transition

namespace Pipeline

variable {Import : Type} {s s' : Pipeline Import} {importOf : List File → Import} {a : Action}
  {w n : Nat}

/-- The claims that are in the dispatcher's batch, in the queue, or with a worker that has
not finished with them. -/
def unfinished (s : Pipeline Import) : Nat :=
  s.dispatcher.batch.length + s.toParse.length + s.workers.countP (· ≠ .idle)

structure Capacity (n : Nat) (s : Pipeline Import) : Prop where
  workers : s.workers.length = n
  toParse : s.toParse.length ≤ n
  batch : s.dispatcher.batch.length ≤ n

theorem Capacity.unfinished_le (cap : Capacity n s) : s.unfinished ≤ 3 * n := by
  have busy : s.workers.countP (· ≠ .idle) ≤ s.workers.length := List.countP_le_length
  have := cap.workers
  have := cap.toParse
  have := cap.batch
  unfold unfinished
  omega

theorem Capacity.frame (cap : Capacity n s) (workers : s'.workers.length = s.workers.length)
    (queue : s.SameQueue s') : Capacity n s' :=
  ⟨workers.trans cap.workers, queue.toParse ▸ cap.toParse, queue.batch ▸ cap.batch⟩

/-- `LIMIT` bounds what one `DirtyDirs` claims. -/
theorem dirtyDirs_length_le {t : ScanTables} {limit : Nat} {picked : List UUID}
    (picks : t.Picks limit picked) : (t.dirtyDirs picked).2.length ≤ limit := by
  have claimed : (t.dirtyDirs picked).2.length ≤ picked.length := List.length_filterMap_le _ _
  have limited : picked.length ≤ limit := by
    rw [picks.2.2]
    exact Nat.min_le_left _ _
  exact claimed.trans limited

/-- A send blocks while the queue is full. -/
theorem send_room (h : s.send = some s') : s.toParse.length < s.workers.length := by
  unfold send at h
  split at h
  · split at h
    · assumption
    · cases h
  · cases h

theorem Capacity.step (cap : Capacity n s) (h : s.step importOf a = some s') :
    Capacity n s' := by
  cases acts : a.worker with
  | some w =>
    obtain ⟨x, y, _, workers, queue, _⟩ := step_worker h acts
    exact cap.frame (by rw [workers, List.length_set]) queue
  | none =>
    by_cases aside : a.aside = true
    · obtain ⟨workers, queue, _⟩ := step_aside h aside
      exact cap.frame (by rw [workers]) queue
    · cases a with
      | dirtyDirs picked =>
        obtain ⟨_, picks, rfl⟩ := dirtyDirs_cases h
        refine ⟨cap.workers, cap.toParse, ?_⟩
        have bound := dirtyDirs_length_le picks
        have workers := cap.workers
        by_cases none_ : (s.tables.dirtyDirs picked).2 = []
        · simp [none_, Dispatcher.batch]
        · simp only [none_, if_false, Dispatcher.batch]
          omega
      | send =>
        have room := send_room h
        obtain ⟨c, batch, feeding, rfl⟩ := send_cases h
        have workers := cap.workers
        have before := cap.batch
        rw [feeding] at before
        simp only [Dispatcher.batch, List.length_cons] at before
        refine ⟨workers, ?_, ?_⟩
        · simp only [List.length_append, List.length_singleton]
          omega
        · by_cases last : batch = []
          · simp [last, Dispatcher.batch]
          · simp only [last, if_false, Dispatcher.batch]
            omega
      | receive w =>
        obtain ⟨c, rest, _, queue, rfl⟩ := receive_cases h
        have before := cap.toParse
        rw [queue, List.length_cons] at before
        refine ⟨?_, ?_, cap.batch⟩
        · rw [List.length_set]
          exact cap.workers
        · exact Nat.le_of_succ_le before
      | _ => first | exact absurd rfl aside | cases acts

end Pipeline

namespace PipelineRun

variable {Import : Type} {s s' : PipelineRun Import}

theorem step_capacity {importOf : List File → Import} {a : RunAction} {n : Nat}
    (cap : s.pipeline.Capacity n) (h : s.step importOf a = some s') :
    s'.pipeline.Capacity n := by
  cases a with
  | act a =>
    obtain ⟨_, p, taken, rfl⟩ := act_cases h
    exact cap.step taken
  | failCancelled w =>
    obtain ⟨_, p, failed, rfl⟩ := failCancelled_cases h
    have taken : s.pipeline.step importOf (.fail w) = some p := failed
    exact cap.step taken
  | claimLost picked =>
    obtain ⟨_, rfl⟩ := claimLost_cases h
    exact cap.frame rfl ⟨rfl, rfl⟩
  | cancel =>
    cases h
    exact cap
  | dispatcherReturns =>
    obtain ⟨_, rfl⟩ := dispatcherReturns_cases h
    exact cap
  | workerReturns w =>
    obtain ⟨_, rfl⟩ := workerReturns_cases h
    exact cap

/-- For every number of workers and every run, cancelled or not. -/
theorem claimed_work_bounded (importOf : List File → Import) (t : ScanTables)
    (library : UUID → Import) (n : Nat) (as : List RunAction) :
    Along (step importOf) (fun s => s.pipeline.unfinished ≤ 3 * n) (start t library n) as := by
  apply along_of_invariant (I := fun s => s.pipeline.Capacity n)
  · exact fun s a s' cap h => step_capacity cap h
  · exact fun s cap => cap.unfinished_le
  · refine ⟨List.length_replicate, Nat.zero_le _, Nat.zero_le _⟩

end PipelineRun

end Byom.Metadata
