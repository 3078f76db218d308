import Byom.Metadata.PipelineRun

/-!
# The record of the claims is right

`Recorded` ties the numbers of a `PipelineRun` to its pipeline: the claims that are
queued are the ones that are pending, in order, and each worker's claim is the one with
its number, with the outcome that its place in `parseClaimed` tells.
-/

namespace Byom.Metadata

open Storage Relational Sqlite

/-- The worker that takes a step of its own. -/
def Action.worker : Action → Option Nat
  | .fail w | .dirFiles w | .importDir w | .clearAttempts w | .recordFailure w | .releaseDir w
  | .releaseAndRedirty w | .releaseError w | .armRetry w | .skipRetry w => some w
  | _ => none

/-- The outcome of a claim that an action decides. -/
def Action.outcome : Action → Option Outcome
  | .importDir _ => some .succeeded
  | .fail _ => some .failed
  | _ => none

/-- Actions that neither a worker nor the dispatcher's queue takes part in. -/
def Action.aside : Action → Bool
  | .beginScan _ _ _ | .syncDir _ _ _ | .onDirty _ | .sweep _ | .finishScan _ _ _ _
  | .receiveToken | .timerFires => true
  | _ => false

/-- What an action does to the worker that takes it: it keeps its claim or gives it up. -/
structure Worker.Goes (x y : Worker) (decided : Option Outcome) : Prop where
  claim : ∀ c, y.claim = some c → x.claim = some c
  tells : ∀ o, x.Tells o → y.Tells (decided.or o)
  deciding : decided.isSome → x.claim.isSome

namespace Pipeline

variable {Import : Type} {s s' : Pipeline Import} {importOf : List File → Import} {a : Action}
  {w : Nat}

/-- The dispatcher's batch and the queue are the same. -/
structure SameQueue (s s' : Pipeline Import) : Prop where
  toParse : s'.toParse = s.toParse
  batch : s'.dispatcher.batch = s.dispatcher.batch

theorem SameQueue.queued (same : s.SameQueue s') :
    PipelineRun.queued s' = PipelineRun.queued s := by
  unfold PipelineRun.queued
  rw [same.toParse, same.batch]

theorem step_worker (h : s.step importOf a = some s') (acts : a.worker = some w) :
    ∃ x y, s.workers[w]? = some x ∧ s'.workers = s.workers.set w y ∧
      s.SameQueue s' ∧ x.Goes y a.outcome := by
  cases a with
  | fail v =>
    cases acts
    obtain ⟨dir, here | ⟨files, here⟩, rfl⟩ := fail_cases h
    · exact ⟨_, _, here, rfl, ⟨rfl, rfl⟩, fun _ => id, fun _ _ => .inl rfl, fun _ => rfl⟩
    · exact ⟨_, _, here, rfl, ⟨rfl, rfl⟩, fun _ => id, fun _ _ => .inl rfl, fun _ => rfl⟩
  | dirFiles v =>
    cases acts
    obtain ⟨dir, here, rfl⟩ := dirFiles_cases h
    exact ⟨_, _, here, rfl, ⟨rfl, rfl⟩, fun _ => id, fun _ => id, nofun⟩
  | importDir v =>
    cases acts
    obtain ⟨dir, files, here, rfl⟩ := importDir_cases h
    exact ⟨_, _, here, rfl, ⟨rfl, rfl⟩, fun _ => id, fun _ _ => rfl, fun _ => rfl⟩
  | clearAttempts v =>
    cases acts
    obtain ⟨dir, here, rfl⟩ := clearAttempts_cases h
    exact ⟨_, _, here, rfl, ⟨rfl, rfl⟩, fun _ => id, fun _ => id, nofun⟩
  | recordFailure v =>
    cases acts
    obtain ⟨dir, next, attempts, here, rfl | rfl, rfl⟩ := recordFailure_cases h
    · exact ⟨_, _, here, rfl, ⟨rfl, rfl⟩, fun _ => id, fun _ => id, nofun⟩
    · exact ⟨_, _, here, rfl, ⟨rfl, rfl⟩, fun _ => id, fun _ => id, nofun⟩
  | releaseDir v =>
    cases acts
    obtain ⟨x, dir, t, here, _, _, rfl⟩ := releaseDir_cases h
    exact ⟨_, _, here, rfl, ⟨rfl, rfl⟩, nofun, fun _ _ => trivial, nofun⟩
  | releaseAndRedirty v =>
    cases acts
    obtain ⟨dir, t, here, _, rfl⟩ := releaseAndRedirty_cases h
    exact ⟨_, _, here, rfl, ⟨rfl, rfl⟩, nofun, fun _ _ => trivial, nofun⟩
  | releaseError v =>
    cases acts
    obtain ⟨x, dir, here, _, rfl⟩ := releaseError_cases h
    exact ⟨_, _, here, rfl, ⟨rfl, rfl⟩, nofun, fun _ _ => trivial, nofun⟩
  | armRetry v =>
    cases acts
    obtain ⟨here, rfl⟩ := armRetry_cases h
    exact ⟨_, _, here, rfl, ⟨rfl, rfl⟩, nofun, fun _ _ => trivial, nofun⟩
  | skipRetry v =>
    cases acts
    obtain ⟨here, rfl⟩ := skipRetry_cases h
    exact ⟨_, _, here, rfl, ⟨rfl, rfl⟩, nofun, fun _ _ => trivial, nofun⟩
  | _ => cases acts

theorem step_aside (h : s.step importOf a = some s') (aside : a.aside = true) :
    s'.workers = s.workers ∧ s.SameQueue s' ∧ s'.attempts = s.attempts := by
  cases a with
  | beginScan loc now scanID =>
    obtain ⟨t, gen, _, rfl⟩ := beginScan_cases h
    exact ⟨rfl, ⟨rfl, rfl⟩, rfl⟩
  | syncDir newDirID newFileID payload =>
    obtain ⟨_, t, dirID, _, _, rfl⟩ := syncDir_cases h
    exact ⟨rfl, ⟨rfl, rfl⟩, rfl⟩
  | onDirty i =>
    obtain ⟨_, rfl⟩ := onDirty_cases h
    exact ⟨rfl, ⟨rfl, rfl⟩, rfl⟩
  | sweep loc =>
    obtain ⟨gen, rfl⟩ := sweep_cases h
    exact ⟨rfl, ⟨rfl, rfl⟩, rfl⟩
  | finishScan loc now progress scanErr =>
    obtain ⟨scanID, rfl⟩ := finishScan_cases h
    exact ⟨rfl, ⟨rfl, rfl⟩, rfl⟩
  | receiveToken =>
    obtain ⟨asleep, rfl⟩ := receiveToken_cases h
    exact ⟨rfl, ⟨rfl, by simp [asleep.1, Dispatcher.batch]⟩, rfl⟩
  | timerFires =>
    obtain ⟨_, rfl⟩ := timerFires_cases h
    exact ⟨rfl, ⟨rfl, rfl⟩, rfl⟩
  | _ => cases aside

theorem queued_dirtyDirs {picked : List UUID} (h : s.dirtyDirs picked = some s') :
    s'.workers = s.workers ∧
      PipelineRun.queued s' = PipelineRun.queued s ++ (s.tables.dirtyDirs picked).2 := by
  obtain ⟨pumping, _, rfl⟩ := dirtyDirs_cases h
  refine ⟨rfl, ?_⟩
  by_cases none_ : (s.tables.dirtyDirs picked).2 = []
  · simp [PipelineRun.queued, Dispatcher.batch, pumping, none_]
  · simp [PipelineRun.queued, Dispatcher.batch, pumping, none_]

theorem queued_send (h : s.send = some s') :
    s'.workers = s.workers ∧ PipelineRun.queued s' = PipelineRun.queued s := by
  obtain ⟨c, batch, feeding, rfl⟩ := send_cases h
  refine ⟨rfl, ?_⟩
  by_cases last : batch = []
  · simp [PipelineRun.queued, Dispatcher.batch, feeding, last]
  · simp [PipelineRun.queued, Dispatcher.batch, feeding, last]

theorem queued_receive (h : s.receive w = some s') :
    ∃ c, s.workers[w]? = some .idle ∧ s'.workers = s.workers.set w (.claimed c) ∧
      PipelineRun.queued s = c :: PipelineRun.queued s' := by
  obtain ⟨c, rest, here, queue, rfl⟩ := receive_cases h
  exact ⟨c, here, rfl, by simp [PipelineRun.queued, queue]⟩

end Pipeline

namespace PipelineRun

variable {Import : Type} {s s' : PipelineRun Import} {importOf : List File → Import}
  {w : Nat} {x y : Worker}

theorem act_cases {a : Action} (h : s.act importOf a = some s') :
    s.allows a = true ∧ ∃ p, s.pipeline.step importOf a = some p ∧
      s' = { s.note a with pipeline := p } := by
  unfold act at h
  split at h
  · rename_i allowed
    obtain ⟨p, taken, rfl⟩ := Option.map_eq_some_iff.mp h
    exact ⟨allowed, p, taken, rfl⟩
  · cases h

theorem claimLost_cases {picked : List UUID} (h : s.claimLost picked = some s') :
    s.pipeline.tables.Picks s.pipeline.workers.length picked ∧
      s' = { s with
        pipeline := { s.pipeline with tables := (s.pipeline.tables.dirtyDirs picked).1 }
        history := s.history ++ s.taken picked } := by
  unfold claimLost at h
  split at h
  · rename_i allowed
    cases h
    exact ⟨allowed.2.2, rfl⟩
  · cases h

theorem failCancelled_cases (h : s.failCancelled w = some s') :
    s.cancelled = true ∧ ∃ p, s.pipeline.fail w = some p ∧
      s' = { s.close w .canceled with pipeline := p } := by
  unfold failCancelled at h
  split at h
  · rename_i cancelled
    obtain ⟨p, failed, rfl⟩ := Option.map_eq_some_iff.mp h
    exact ⟨cancelled, p, failed, rfl⟩
  · cases h

theorem dispatcherReturns_cases {importOf : List File → Import}
    (h : s.step importOf .dispatcherReturns = some s') :
    (s.cancelled = true ∧ s.dispatching = true) ∧ s' = { s with dispatching := false } := by
  simp only [step] at h
  split at h
  · rename_i returns
    cases h
    exact ⟨returns, rfl⟩
  · cases h

theorem workerReturns_cases {importOf : List File → Import}
    (h : s.step importOf (.workerReturns w) = some s') :
    (s.cancelled = true ∧ s.pipeline.workers[w]? = some .idle ∧ w ∉ s.returned) ∧
      s' = { s with returned := w :: s.returned } := by
  simp only [step] at h
  split at h
  · rename_i returns
    cases h
    exact ⟨returns, rfl⟩
  · cases h

structure Recorded (s : PipelineRun Import) : Prop where
  queue : s.pending.map (fun p => s.history[p]?) =
    (queued s.pipeline).map fun c => some ⟨c, none⟩
  sorted : s.pending.Pairwise (· < ·)
  working : ∀ w x c, s.pipeline.workers[w]? = some x → x.claim = some c →
    ∃ o, s.history[s.serial w]? = some ⟨c, o⟩ ∧ x.Tells o
  behind : ∀ w x, s.pipeline.workers[w]? = some x → x.claim.isSome →
    ∀ p ∈ s.pending, s.serial w < p
  apart : ∀ w w' x x', s.pipeline.workers[w]? = some x → s.pipeline.workers[w']? = some x' →
    x.claim.isSome → x'.claim.isSome → s.serial w = s.serial w' → w = w'

/-- A claim that fails has no outcome yet. -/
theorem Recorded.entry_of_fail (rec : s.Recorded) {w : Nat} {p : Pipeline Import}
    (failed : s.pipeline.fail w = some p) :
    ∃ dir x, s.history[s.serial w]? = some ⟨dir, none⟩ ∧ s.pipeline.workers[w]? = some x ∧
      (x = .claimed dir ∨ ∃ files, x = .read dir files) ∧ p = { s.pipeline with
        workers := s.pipeline.workers.set w (.failed dir)
        failedSince := Function.update s.pipeline.failedSince dir.id true } := by
  obtain ⟨dir, found | ⟨files, found⟩, rfl⟩ := Pipeline.fail_cases failed
  · obtain ⟨o, entry, rfl⟩ := rec.working w _ dir found rfl
    exact ⟨dir, _, entry, found, .inl rfl, rfl⟩
  · obtain ⟨o, entry, rfl⟩ := rec.working w _ dir found rfl
    exact ⟨dir, _, entry, found, .inr ⟨files, rfl⟩, rfl⟩

theorem start_recorded (t : ScanTables) (library : UUID → Import) (n : Nat) :
    (start t library n).Recorded := by
  have idle : ∀ (w : Nat) (x : Worker),
      (start t library n).pipeline.workers[w]? = some x → x.claim = none := by
    intro w x found
    have listed := List.mem_of_getElem? found
    rw [List.eq_of_mem_replicate listed]
    rfl
  refine ⟨rfl, List.Pairwise.nil, ?_, ?_, ?_⟩
  · intro w x c found claim
    rw [idle w x found] at claim
    cases claim
  · intro w x found claim
    simp [idle w x found] at claim
  · intro w w' x x' found _ claim
    simp [idle w x found] at claim

/-- Steps that move no claim. -/
theorem Recorded.frame (rec : s.Recorded) (workers : s'.pipeline.workers = s.pipeline.workers)
    (queue : queued s'.pipeline = queued s.pipeline) (history : s'.history = s.history)
    (pending : s'.pending = s.pending) (serial : s'.serial = s.serial) : s'.Recorded := by
  constructor
  · rw [pending, history, queue]
    exact rec.queue
  · rw [pending]
    exact rec.sorted
  · rw [workers, history, serial]
    exact rec.working
  · rw [workers, pending, serial]
    exact rec.behind
  · rw [workers, serial]
    exact rec.apart

/-- The record after a step of worker `w` that decides this outcome, if any. -/
def historyAfter (s : PipelineRun Import) (w : Nat) : Option Outcome → List Attempt
  | none => s.history
  | some o => (s.close w o).history

/-- A worker goes on with its claim or gives it up. -/
theorem Recorded.goes (rec : s.Recorded) {decided : Option Outcome}
    (found : s.pipeline.workers[w]? = some x) (goes : x.Goes y decided)
    (workers : s'.pipeline.workers = s.pipeline.workers.set w y)
    (queue : queued s'.pipeline = queued s.pipeline)
    (history : s'.history = s.historyAfter w decided)
    (pending : s'.pending = s.pending) (serial : s'.serial = s.serial) : s'.Recorded := by
  have busy : ∀ {v : Nat} {z : Worker}, s'.pipeline.workers[v]? = some z → z.claim.isSome →
      ∃ z₀ : Worker, s.pipeline.workers[v]? = some z₀ ∧ z₀.claim.isSome := by
    intro v z at_ claim
    rw [workers] at at_
    rcases Transition.getElem?_set_cases at_ with ⟨rfl, rfl⟩ | ⟨_, old⟩
    · obtain ⟨c, own⟩ := Option.isSome_iff_exists.mp claim
      exact ⟨x, found, by rw [goes.claim c own]; rfl⟩
    · exact ⟨z, old, claim⟩
  -- only the claim with the number of `w` gets an outcome
  have elsewhere : ∀ i, (x.claim.isSome → i ≠ s.serial w) → s'.history[i]? = s.history[i]? := by
    intro i other
    rw [history]
    cases decided with
    | none => rfl
    | some o =>
      have apart := other (goes.deciding rfl)
      simp [historyAfter, close, apart.symm]
  constructor
  · rw [pending, queue, ← rec.queue]
    apply List.map_congr_left
    intro p hp
    apply elsewhere
    intro claim same
    have ahead := rec.behind w x found claim p hp
    omega
  · rw [pending]
    exact rec.sorted
  · intro v z c at_ claim
    rw [workers] at at_
    rw [serial]
    rcases Transition.getElem?_set_cases at_ with ⟨rfl, rfl⟩ | ⟨other, old⟩
    · have own := goes.claim c claim
      obtain ⟨o, entry, tells⟩ := rec.working v x c found own
      refine ⟨decided.or o, ?_, goes.tells o tells⟩
      rw [history]
      cases decided with
      | none => exact entry
      | some d => simp [historyAfter, close, entry]
    · obtain ⟨o, entry, tells⟩ := rec.working v z c old claim
      refine ⟨o, ?_, tells⟩
      rw [elsewhere _ ?_]
      · exact entry
      · intro own same
        exact other (rec.apart v w z x old found (by rw [claim]; rfl) own same)
  · intro v z at_ claim p hp
    obtain ⟨z₀, old, own⟩ := busy at_ claim
    rw [pending] at hp
    rw [serial]
    exact rec.behind v z₀ old own p hp
  · intro v v' z z' at_ at_' claim claim' same
    obtain ⟨z₀, old, own⟩ := busy at_ claim
    obtain ⟨z₀', old', own'⟩ := busy at_' claim'
    rw [serial] at same
    exact rec.apart v v' z₀ z₀' old old' own own' same

/-- New claims go to the end of the queue, or are lost. -/
theorem Recorded.append (rec : s.Recorded) (claims lost : List ClaimedDir)
    (workers : s'.pipeline.workers = s.pipeline.workers)
    (queue : queued s'.pipeline = queued s.pipeline ++ claims)
    (history : s'.history = s.history ++ (claims ++ lost).map fun c => ⟨c, none⟩)
    (pending : s'.pending = s.pending ++ List.range' s.history.length claims.length)
    (serial : s'.serial = s.serial) : s'.Recorded := by
  have known : ∀ p ∈ s.pending, p < s.history.length := by
    intro p hp
    have entry : s.history[p]? ∈ (queued s.pipeline).map fun c => some (⟨c, none⟩ : Attempt) := by
      rw [← rec.queue]
      exact List.mem_map_of_mem hp
    obtain ⟨c, _, found⟩ := List.mem_map.mp entry
    exact (List.getElem?_eq_some_iff.mp found.symm).1
  have held : ∀ (v : Nat) (z : Worker), s.pipeline.workers[v]? = some z → z.claim.isSome →
      s.serial v < s.history.length := by
    intro v z at_ claim
    obtain ⟨c, own⟩ := Option.isSome_iff_exists.mp claim
    obtain ⟨o, entry, _⟩ := rec.working v z c at_ own
    exact (List.getElem?_eq_some_iff.mp entry).1
  have old : ∀ p, p < s.history.length → s'.history[p]? = s.history[p]? := by
    intro p bound
    rw [history, List.getElem?_append_left bound]
  constructor
  · rw [pending, queue, List.map_append, List.map_append]
    apply congrArg₂
    · rw [← rec.queue]
      exact List.map_congr_left fun p hp => old p (known p hp)
    · apply List.ext_getElem?
      intro i
      by_cases bound : i < claims.length
      · have entry : s'.history[s.history.length + i]? = some ⟨claims[i], none⟩ := by
          rw [history, List.getElem?_append_right (Nat.le_add_right _ _), Nat.add_sub_cancel_left,
            List.getElem?_map, List.getElem?_append_left bound, List.getElem?_eq_getElem bound]
          rfl
        simp [bound, entry]
      · simp [bound]
  · rw [pending, List.pairwise_append]
    refine ⟨rec.sorted, List.pairwise_lt_range', ?_⟩
    intro p hp q hq
    have bound := known p hp
    have start := (List.mem_range'_1.mp hq).1
    omega
  · intro v z c at_ claim
    rw [workers] at at_
    obtain ⟨o, entry, tells⟩ := rec.working v z c at_ claim
    refine ⟨o, ?_, tells⟩
    rw [serial, old]
    · exact entry
    · exact (List.getElem?_eq_some_iff.mp entry).1
  · intro v z at_ claim p hp
    rw [workers] at at_
    rw [serial]
    rw [pending] at hp
    rcases List.mem_append.mp hp with before | new
    · exact rec.behind v z at_ claim p before
    · have start := (List.mem_range'_1.mp new).1
      have bound := held v z at_ claim
      omega
  · rw [workers, serial]
    exact rec.apart

/-- An idle worker gets the claim at the head of the queue. -/
theorem Recorded.receive (rec : s.Recorded) {c : ClaimedDir}
    (idle : s.pipeline.workers[w]? = some .idle)
    (workers : s'.pipeline.workers = s.pipeline.workers.set w (.claimed c))
    (queue : queued s.pipeline = c :: queued s'.pipeline) (history : s'.history = s.history)
    (pending : s'.pending = s.pending.tail)
    (serial : s'.serial = Function.update s.serial w (s.pending.headD 0)) : s'.Recorded := by
  have queued_ := rec.queue
  rw [queue] at queued_
  cases order : s.pending with
  | nil =>
    rw [order] at queued_
    cases queued_
  | cons first rest =>
    rw [order, List.map_cons, List.map_cons, List.cons.injEq] at queued_
    have sorted := rec.sorted
    rw [order, List.pairwise_cons] at sorted
    rw [order] at pending serial
    have own : s'.serial w = first := by simp [serial]
    have others : ∀ v, v ≠ w → s'.serial v = s.serial v := by
      intro v apart
      simp [serial, apart]
    have ahead : ∀ (v : Nat) (z : Worker), s.pipeline.workers[v]? = some z → z.claim.isSome →
        s.serial v < first := by
      intro v z at_ claim
      apply rec.behind v z at_ claim
      simp [order]
    constructor
    · rw [pending, history]
      exact queued_.2
    · rw [pending]
      exact sorted.2
    · intro v z d at_ claim
      rw [workers] at at_
      rcases Transition.getElem?_set_cases at_ with ⟨rfl, rfl⟩ | ⟨apart, old⟩
      · cases claim
        refine ⟨none, ?_, rfl⟩
        rw [own, history]
        exact queued_.1
      · rw [others v apart, history]
        exact rec.working v z d old claim
    · intro v z at_ claim p hp
      rw [workers] at at_
      rw [pending] at hp
      rcases Transition.getElem?_set_cases at_ with ⟨rfl, rfl⟩ | ⟨apart, old⟩
      · rw [own]
        exact sorted.1 p hp
      · rw [others v apart]
        have below := ahead v z old claim
        have above := sorted.1 p hp
        omega
    · intro v v' z z' at_ at_' claim claim' same
      rw [workers] at at_ at_'
      rcases Transition.getElem?_set_cases at_ with ⟨rfl, rfl⟩ | ⟨apart, old⟩
      · rcases Transition.getElem?_set_cases at_' with ⟨rfl, rfl⟩ | ⟨apart', old'⟩
        · rfl
        · rw [own, others v' apart'] at same
          have below := ahead v' z' old' claim'
          omega
      · rcases Transition.getElem?_set_cases at_' with ⟨rfl, rfl⟩ | ⟨apart', old'⟩
        · rw [own, others v apart] at same
          have below := ahead v z old claim
          omega
        · rw [others v apart, others v' apart'] at same
          exact rec.apart v v' z z' old old' claim claim' same

theorem note_of_aside {a : Action} (aside : a.aside = true) : s.note a = s := by
  cases a <;> first | rfl | cases aside

theorem step_recorded {a : RunAction} (rec : s.Recorded) (h : s.step importOf a = some s') :
    s'.Recorded := by
  cases a with
  | cancel =>
    cases h
    exact rec.frame rfl rfl rfl rfl rfl
  | dispatcherReturns =>
    obtain ⟨_, rfl⟩ := dispatcherReturns_cases h
    exact rec.frame rfl rfl rfl rfl rfl
  | workerReturns w =>
    obtain ⟨_, rfl⟩ := workerReturns_cases h
    exact rec.frame rfl rfl rfl rfl rfl
  | claimLost picked =>
    obtain ⟨_, rfl⟩ := claimLost_cases h
    refine rec.append [] (s.pipeline.tables.dirtyDirs picked).2 rfl ?_ rfl ?_ rfl
    · simp [queued]
    · simp
  | failCancelled w =>
    obtain ⟨_, p, failed, rfl⟩ := failCancelled_cases h
    obtain ⟨dir, here | ⟨files, here⟩, rfl⟩ := Pipeline.fail_cases failed
    · have goes : (Worker.claimed dir).Goes (.failed dir) (some .canceled) :=
        ⟨fun _ => id, fun _ _ => .inr rfl, fun _ => rfl⟩
      exact rec.goes here goes rfl rfl rfl rfl rfl
    · have goes : (Worker.read dir files).Goes (.failed dir) (some .canceled) :=
        ⟨fun _ => id, fun _ _ => .inr rfl, fun _ => rfl⟩
      exact rec.goes here goes rfl rfl rfl rfl rfl
  | act a =>
    obtain ⟨_, p, taken, rfl⟩ := act_cases h
    cases acts : a.worker with
    | some w =>
      obtain ⟨x, y, found, workers, queue, goes⟩ := Pipeline.step_worker taken acts
      refine rec.goes found goes workers queue.queued ?_ ?_ ?_
      · cases a <;> cases acts <;> rfl
      · cases a <;> cases acts <;> rfl
      · cases a <;> cases acts <;> rfl
    | none =>
      by_cases aside : a.aside = true
      · obtain ⟨workers, queue, _⟩ := Pipeline.step_aside taken aside
        rw [note_of_aside aside]
        exact rec.frame workers queue.queued rfl rfl rfl
      · cases a with
        | dirtyDirs picked =>
          obtain ⟨workers, queue⟩ := Pipeline.queued_dirtyDirs taken
          refine rec.append (s.pipeline.tables.dirtyDirs picked).2 [] workers queue ?_ ?_ rfl
          · simp [note, PipelineRun.taken]
          · simp [note, PipelineRun.taken]
        | send =>
          obtain ⟨workers, queue⟩ := Pipeline.queued_send taken
          exact rec.frame workers queue rfl rfl rfl
        | receive w =>
          obtain ⟨c, idle, workers, queue⟩ := Pipeline.queued_receive taken
          exact rec.receive idle workers queue rfl rfl rfl
        | _ => first | exact absurd rfl aside | cases acts

theorem run_recorded {as : List RunAction} (rec : s.Recorded)
    (ends : Transition.run (step importOf) s as = some s') : s'.Recorded :=
  Transition.invariant_of_run (fun _ _ _ rec h => step_recorded rec h) rec ends

end PipelineRun

end Byom.Metadata
