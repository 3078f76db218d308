import Byom.Scan.Records

/-!
# How a scan ends in its record

`FinishScan` derives the final state from the error that `sync` returned. The error
of a sweep never gets there, and a cancellation gets there only as the first error
of the worker group.
-/

namespace Byom.Scan

open Storage Relational Sqlite Concurrency

namespace Sync

/-- Nothing but a cancellation has been returned so far: the group has no error yet
or a cancellation, or `sync` has returned one. -/
def Aborting (call : Sync) : Prop :=
  (call.stage = .waiting ∧ (call.group.err = none ∨ call.group.err = some .canceled)) ∨
    call.stage = .returned (some .canceled)

instance (call : Sync) : Decidable call.Aborting :=
  inferInstanceAs (Decidable (_ ∧ _ ∨ _))

/-- The action does not end the group otherwise: the first error it hears of is a
cancellation, and it does not end without one. -/
def KeepsAborting (call : Sync) : SyncAction → Prop
  | .fail _ err => call.group.err = none → err = .canceled
  | .closed => call.group.err = none →
      call.group.producer = .closing none ∨ call.group.producer = .closing (some .canceled)
  | .wait => call.group.waited ≠ some none
  | _ => True

instance (call : Sync) : (a : SyncAction) → Decidable (call.KeepsAborting a)
  | .fail _ _ => inferInstanceAs (Decidable (_ → _))
  | .closed => inferInstanceAs (Decidable (_ → _ ∨ _))
  | .wait => inferInstanceAs (Decidable (_ ≠ _))
  | .cancel | .readDir _ | .process | .send | .giveUp | .walked | .receive _ | .drain _
  | .stop _ | .load _ _ | .write _ | .commit _ | .execSweep | .commitSweep _ _
  | .failSweep _ => .isTrue trivial

variable {call call' : Sync} {a : SyncAction}

theorem start_aborting (order : MapOrder) (tree : Tree) (pool : WorkerPool) (cancelled : Bool) :
    (start order tree pool cancelled).Aborting := .inl ⟨rfl, .inl rfl⟩

/-- An event of the group, seen from `sync`. -/
theorem Aborting.group (aborting : call.Aborting)
    {g : WorkGroup WalkResult SyncProgress ScanError}
    {ev : Event WalkResult SyncProgress ScanError} (h : call.group.step ev = some g)
    (clean : ∀ e, call.group.err = none → g.err = some e → e = .canceled)
    (steps : List WalkStep) (pending : List WalkResult) (progress : Progress) :
    Aborting
      { call with group := g, steps := steps, pending := pending, progress := progress } := by
  rcases aborting with ⟨waiting, err⟩ | returned
  · refine .inl ⟨waiting, ?_⟩
    rcases WorkGroup.step_err h with same | ⟨e, none_, now, _⟩
    · exact same ▸ err
    · exact .inr (now.trans (congrArg some (clean e none_ now)))
  · exact .inr returned

theorem stop_of_plainEvent {i : Nat} {e : ScanError} (event : plainEvent a = some (.stop i e)) :
    e = .canceled := by
  cases a <;> simp_all [plainEvent]

theorem fail_of_plainEvent {i : Nat} {e : ScanError} (event : plainEvent a = some (.fail i e)) :
    a = .fail i e := by
  cases a <;> simp_all [plainEvent]

theorem closed_of_plainEvent (event : plainEvent a = some .closed) : a = .closed := by
  cases a <;> simp_all [plainEvent]

theorem Aborting.step (aborting : call.Aborting) (keeps : call.KeepsAborting a)
    (h : call.step a = some call') : call'.Aborting := by
  have quiet : ∀ {ev g}, call.group.step ev = some g → (∀ i e, ev ≠ .stop i e) →
      (∀ i e, ev ≠ .fail i e) → ev ≠ .closed →
      ∀ e, call.group.err = none → g.err = some e → e = .canceled := by
    intro ev g moved notStop notFail notClosed e clean now
    rcases WorkGroup.step_err moved with same | ⟨_, _, _, ⟨i, stop⟩ | ⟨i, fail⟩ | ⟨closed, _⟩⟩
    · rw [same, clean] at now
      cases now
    · exact absurd stop (notStop i _)
    · exact absurd fail (notFail i _)
    · exact absurd closed notClosed
  have notSweeping : ∀ executed, call.stage ≠ .sweeping executed := by
    intro executed sweeping
    rcases aborting with ⟨waiting, _⟩ | returned
    · rw [sweeping] at waiting
      cases waiting
    · rw [sweeping] at returned
      cases returned
  cases moves_of_step h with
  | plain a event moved =>
    refine aborting.group moved ?_ _ _ _
    intro e clean now
    rcases WorkGroup.step_err moved with same | ⟨e', _, now', source⟩
    · rw [same, clean] at now
      cases now
    · rw [now'] at now
      cases now
      rcases source with ⟨i, rfl⟩ | ⟨i, rfl⟩ | ⟨rfl, closing⟩
      · exact stop_of_plainEvent event
      · obtain rfl := fail_of_plainEvent event
        exact keeps clean
      · obtain rfl := closed_of_plainEvent event
        rcases keeps clean with nil | canceled
        · rw [closing] at nil
          cases nil
        · rw [closing] at canceled
          cases canceled
          rfl
  | read dir rest next producing => exact aborting
  | hold res rest next merged producing => exact aborting
  | emit res rest next merged moved =>
    exact aborting.group moved (quiet moved (by simp) (by simp) (by simp)) _ _ _
  | walked next moved =>
    exact aborting.group moved (quiet moved (by simp) (by simp) (by simp)) _ _ _
  | load i known found active moved =>
    exact aborting.group moved (quiet moved (by simp) (by simp) (by simp)) _ _ _
  | write i found active moved =>
    exact aborting.group moved (quiet moved (by simp) (by simp) (by simp)) _ _ _
  | commit i found moved =>
    exact aborting.group moved (quiet moved (by simp) (by simp) (by simp)) _ _ _
  | waitNil waiting waited => exact absurd waited keeps
  | waitErr err waiting waited =>
    have heard := (WorkGroup.returned_of_waited waited).2.2
    rcases aborting with ⟨_, clean | canceled⟩ | returned
    · rw [heard] at clean
      cases clean
    · rw [heard] at canceled
      cases canceled
      exact .inr rfl
    · rw [waiting] at returned
      cases returned
  | execSweep sweeping active => exact absurd sweeping (notSweeping _)
  | commitSweep dirs files sweeping => exact absurd sweeping (notSweeping _)
  | failSweep err executed sweeping => exact absurd sweeping (notSweeping _)

end Sync

namespace Process

/-- Every scan whose cancel was accepted while its record was running, and whose
`FinishScan` succeeded, is recorded as aborted. -/
def AcceptedAborted (s : Process) : Prop :=
  ∀ id ∈ s.accepted, id ∈ s.finished → s.stateOf id = some .aborted

/-- A cancel of a scanning run comes while nothing but a cancellation can have ended
its group, and after that the group does not end otherwise. -/
def Timely (s : Process) : ProcessAction → Prop
  | .cancel scanID => ∀ x ∈ (s.byScan scanID).bind s.scanning, x.2.Aborting
  | .sync r a => ∀ x ∈ s.scanning r, x.1.scanID ∈ s.accepted → x.2.KeepsAborting a
  | _ => True

instance (s : Process) : (a : ProcessAction) → Decidable (s.Timely a)
  | .cancel scanID =>
    inferInstanceAs (Decidable (∀ x ∈ (s.byScan scanID).bind s.scanning, x.2.Aborting))
  | .sync r a =>
    inferInstanceAs
      (Decidable (∀ x ∈ s.scanning r, x.1.scanID ∈ s.accepted → x.2.KeepsAborting a))
  | .insertLocation _ _ | .start _ _ | .beginScan _ _ _ | .beginFails _ | .register _ _ _
  | .load _ _ | .commit _ _ _ _ | .sweep _ | .finishScan _ _ | .finishFails _ | .release _
  | .shutdown | .restart _ => .isTrue trivial

structure Unwinding (s : Process) : Prop where
  aborting : ∀ (r : Nat) run call, s.runs[r]? = some run → run.phase = .scanning call →
    run.scanID ∈ s.accepted → call.Aborting
  aborted : s.AcceptedAborted

variable {pool : WorkerPool} {s s' : Process} {a : ProcessAction} {r : Nat} {run run' : Run}
  {t : ScanTables} {call call' : Sync} {id : UUID}

theorem stateOf_eq (s : Process) (id : UUID) :
    s.stateOf id = (s.tables.recordAt id).map ScanRow.state := rfl

theorem empty_unwinding : empty.Unwinding := by
  refine ⟨?_, ?_⟩ <;> simp [empty, AcceptedAborted]

/-- The runs go on, and the closed records stay as they are. -/
theorem Unwinding.frame (unwinding : s.Unwinding) {runs : List Run}
    (aborting : ∀ (r : Nat) run call, runs[r]? = some run → run.phase = .scanning call →
      run.scanID ∈ s.accepted → call.Aborting)
    (rows : ∀ id ∈ s.finished, t.recordAt id = s.tables.recordAt id)
    (byLoc byScan : UUID → Option Nat) (swept : List (UUID × Int)) :
    Unwinding { s with
      tables := t, runs := runs, byLoc := byLoc, byScan := byScan, swept := swept } := by
  refine ⟨aborting, ?_⟩
  intro id accepted finished
  rw [stateOf_eq, rows id finished]
  exact unwinding.aborted id accepted finished

/-- One run goes on. -/
theorem Unwinding.write (unwinding : s.Unwinding)
    (aborting : ∀ call, run'.phase = .scanning call → run'.scanID ∈ s.accepted → call.Aborting)
    (rows : ∀ id ∈ s.finished, t.recordAt id = s.tables.recordAt id)
    (byLoc byScan : UUID → Option Nat) (swept : List (UUID × Int)) :
    Unwinding { s with
      tables := t, runs := s.runs.set r run', byLoc := byLoc, byScan := byScan
      swept := swept } := by
  refine unwinding.frame ?_ rows byLoc byScan swept
  intro i x call there phase accepted
  rcases Transition.getElem?_set_cases there with ⟨rfl, rfl⟩ | ⟨_, old⟩
  · exact aborting call phase accepted
  · exact unwinding.aborting i x call old phase accepted

/-- A step of the call of `sync` of a run. -/
theorem Unwinding.onCall (unwinding : s.Unwinding) (found : s.runs[r]? = some run)
    (phase : run.phase = .scanning call) {a : SyncAction} (moved : call.step a = some call')
    (keeps : run.scanID ∈ s.accepted → call.KeepsAborting a)
    (rows : ∀ id ∈ s.finished, t.recordAt id = s.tables.recordAt id)
    (swept : List (UUID × Int)) :
    Unwinding { s with
      tables := t, runs := s.runs.set r { run with phase := .scanning call' }
      swept := swept } := by
  refine unwinding.write ?_ rows _ _ _
  intro next scanning accepted
  cases scanning
  exact (unwinding.aborting r run call found phase accepted).step (keeps accepted) moved

/-- Ending the context of a run leaves it aborting. -/
theorem aborting_of_cancel (aborting : ∀ call, run.phase = .scanning call → call.Aborting)
    (scanning : run.cancel.phase = .scanning call) : call.Aborting := by
  obtain ⟨before, phase, moved⟩ := cancel_phase scanning
  have keeps : before.KeepsAborting .cancel := trivial
  exact (aborting before phase).step keeps moved

theorem Unwinding.cancel (unwinding : s.Unwinding) (inv : s.Inv) (records : s.Records)
    (registered : s.byScan id = some r) (found : s.runs[r]? = some run)
    (timely : s.Timely (.cancel id)) :
    Unwinding { s.setRun r { run.cancel with cancelling := true } with
      accepted := if s.stateOf id = some .running then id :: s.accepted else s.accepted } := by
  have added : ∀ {id'}, id' ∈ (if s.stateOf id = some .running then id :: s.accepted
      else s.accepted) → id' ∈ s.accepted ∨ id' = id ∧ s.stateOf id = some .running := by
    intro id' listed
    split at listed
    · rename_i running
      rcases List.mem_cons.mp listed with rfl | old
      · exact .inr ⟨rfl, running⟩
      · exact .inl old
    · exact .inl listed
  obtain ⟨run₀, found₀, entered, same⟩ := inv.claims.registered id r registered
  rw [found] at found₀
  cases found₀
  have own : run.record = some id := by
    cases phase : run.phase <;> simp_all [Phase.registered, Run.record]
  refine ⟨?_, ?_⟩
  · intro i x call there phase accepted
    rcases Transition.getElem?_set_cases there with ⟨rfl, rfl⟩ | ⟨apart, old⟩
    · refine aborting_of_cancel ?_ phase
      intro before scanning
      refine timely (run, before) ?_
      rw [registered]
      exact scanning_eq_some_iff.mpr ⟨found, scanning⟩
    · rcases added accepted with before | ⟨same', _⟩
      · exact unwinding.aborting i x call old phase before
      · have record : x.record = some id := by simp [Run.record, phase, same']
        exact absurd (records.distinct i r x run id old found record own) apart
  · intro id' accepted finished
    rcases added accepted with before | ⟨rfl, running⟩
    · exact unwinding.aborted id' before finished
    · obtain ⟨row, at_, closed, _⟩ := records.finished id' finished
      rw [stateOf_eq, at_, Option.map_some, Option.some.injEq] at running
      exact absurd running closed

theorem Unwinding.finish (unwinding : s.Unwinding) (records : s.Records)
    (found : s.runs[r]? = some run) (phase : run.phase = .scanning call)
    {scanErr : Option ScanError} (returned : call.stage = .returned scanErr) (now : Int) :
    Unwinding { s.setRun r { run with phase := .closing } with
      tables := s.tables.finishScan now run.scanID call.progress scanErr
      finished := run.scanID :: s.finished } := by
  refine ⟨?_, ?_⟩
  · intro i x call there scanning accepted
    rcases Transition.getElem?_set_cases there with ⟨rfl, rfl⟩ | ⟨_, old⟩
    · cases scanning
    · exact unwinding.aborting i x call old scanning accepted
  · intro id accepted finished
    rcases List.mem_cons.mp finished with rfl | before
    · obtain ⟨row, here, running⟩ := records.running found phase
      have aborting := unwinding.aborting r run call found phase accepted
      have canceled : scanErr = some .canceled := by
        rcases aborting with ⟨waiting, _⟩ | same
        · rw [returned] at waiting
          cases waiting
        · rw [returned] at same
          cases same
          rfl
      subst canceled
      exact ScanTables.finishScan_stateAt here running
    · obtain ⟨row, at_, closed, _⟩ := records.finished id before
      have state := unwinding.aborted id accepted before
      rw [stateOf_eq, at_] at state
      rw [stateOf_eq, ScanTables.finishScan_keeps at_ (.inr closed)]
      exact state

theorem step_unwinding (inv : s.Inv) (records : s.Records) (unwinding : s.Unwinding)
    (timely : s.Timely a) (h : s.step pool a = some s') : s'.Unwinding := by
  have same : ∀ id ∈ s.finished, s.tables.recordAt id = s.tables.recordAt id := fun _ _ => rfl
  cases moves_of_step h with
  | insertLocation id uri inserted =>
    exact unwinding.frame unwinding.aborting
      (fun id _ => ScanTables.recordAt_of_eq (ScanTables.insertLocation_scans inserted) id) _ _ _
  | start loc force free =>
    refine unwinding.frame ?_ same _ _ _
    intro r run call there phase accepted
    rcases Nat.lt_or_ge r s.runs.length with before | after
    · rw [List.getElem?_append_left before] at there
      exact unwinding.aborting r run call there phase accepted
    · rw [List.getElem?_append_right after, List.getElem?_singleton] at there
      split at there
      · cases there
        cases phase
      · cases there
  | beginScan r now scanID run found phase began =>
    refine unwinding.write (by simp) ?_ _ _ _
    intro id finished
    obtain ⟨row, at_, closed, _⟩ := records.finished id finished
    rw [at_]
    exact ScanTables.beginScan_keeps began at_ fun _ => closed
  | beginFails r run found phase => exact unwinding.write (by simp) same _ _ _
  | register r order tree run scanID gen found phase =>
    refine unwinding.write ?_ same _ _ _
    intro call scanning _
    cases scanning
    exact Sync.start_aborting ..
  | sync r a run found phase inMemory moved =>
    refine unwinding.onCall found phase moved ?_ same _
    exact timely (run, _) (scanning_eq_some_iff.mpr ⟨found, phase⟩)
  | load r i run found phase taken moved =>
    exact unwinding.onCall found phase moved (fun _ => trivial) same _
  | commit r i newDirID newFileID run found phase taken synced moved =>
    exact unwinding.onCall found phase moved (fun _ => trivial)
      (fun id _ => ScanTables.recordAt_of_eq (ScanTables.syncDir_scans synced) id) _
  | sweep r run found phase swept moved =>
    exact unwinding.onCall found phase moved (fun _ => trivial)
      (fun id _ => ScanTables.recordAt_of_eq (congrArg (fun x => x.1.scans) swept).symm id) _
  | finishScan r now run scanErr found phase returned =>
    exact unwinding.finish records found phase returned now
  | finishFails r run scanErr found phase returned =>
    exact unwinding.write (by simp) same _ _ _
  | release r run found phase => exact unwinding.write (by simp) same _ _ _
  | cancel scanID r run registered found holds =>
    exact unwinding.cancel inv records registered found timely
  | shutdown =>
    refine unwinding.frame ?_ same _ _ _
    intro i x call there phase accepted
    rw [List.getElem?_mapIdx] at there
    obtain ⟨y, old, rfl⟩ := Option.map_eq_some_iff.mp there
    split at phase
    · rename_i holds
      rw [if_pos holds, (ident_inj y.cancel_ident).2.1] at accepted
      exact aborting_of_cancel (fun before scanning =>
        unwinding.aborting i y before old scanning accepted) phase
    · rename_i free
      rw [if_neg free] at accepted
      exact unwinding.aborting i y call old phase accepted
  | restart recovered =>
    refine unwinding.frame (by simp) ?_ _ _ _
    intro id finished
    obtain ⟨row, at_, closed⟩ := records.finished id finished
    cases recovered with
    | none => rfl
    | some now => rw [at_, ScanTables.abortRunningScans_keeps at_ closed]

/-- In a run whose cancels all come in time, every accepted cancel ends in aborted. -/
theorem cancel_aborts (pool : WorkerPool) {acts : List ProcessAction}
    (timely : Transition.StepsMeet (step pool) Timely empty acts) :
    Transition.Along (step pool) AcceptedAborted empty acts := by
  refine Transition.along_of_stepsMeet (I := fun s => s.Inv ∧ s.Records ∧ s.Unwinding)
    (C := Timely) ?_ ?_ ⟨empty_inv, empty_records, empty_unwinding⟩ timely
  · rintro s a s' ⟨inv, records, unwinding⟩ inTime h
    exact ⟨step_inv inv h, step_records inv records h, step_unwinding inv records unwinding inTime h⟩
  · exact fun s kept => kept.2.2.aborted

/-- A library of one empty root, with one worker. -/
def oneWorker : WorkerPool := ⟨1, 8, by decide⟩

def emptyRoot : Tree := ⟨.nil, trivial⟩

/-- A scan whose group returns nil: the root is synced, and `Sweep` is called. -/
def drainedScan : List ProcessAction :=
  [.insertLocation 1 "file:///music", .start 1 false, .beginScan 0 0 7,
    .register 0 .insertion emptyRoot, .sync 0 (.readDir none), .sync 0 .process, .sync 0 .send,
    .sync 0 (.receive 0), .load 0 0, .sync 0 (.write 0), .commit 0 0 21 fun _ => 22,
    .sync 0 .walked, .sync 0 .closed, .sync 0 (.drain 0), .sync 0 .wait]

/-- A cancel while the root is on its way ends in aborted. -/
def cancelledScan : List ProcessAction :=
  [.insertLocation 1 "file:///music", .start 1 false, .beginScan 0 0 7,
    .register 0 .insertion emptyRoot, .sync 0 (.readDir none), .sync 0 .process, .cancel 7,
    .sync 0 .giveUp, .sync 0 (.stop 0), .sync 0 .closed, .sync 0 .wait, .finishScan 0 1,
    .release 0]

theorem cancelledScan_aborts :
    (Transition.run (step oneWorker) empty cancelledScan).map (fun s => (s.accepted, s.finished)) =
        some ([7], [7]) ∧
      Transition.Along (step oneWorker) AcceptedAborted empty cancelledScan :=
  ⟨by decide, cancel_aborts oneWorker (by decide)⟩

/-- A cancel is accepted while the sweep runs, the sweep fails with it, and the scan is
recorded as done. -/
theorem sweepCancelled_done : ∃ s, Transition.run (step oneWorker) empty
      (drainedScan ++ [.cancel 7, .sync 0 (.failSweep .canceled), .finishScan 0 1]) = some s ∧
    7 ∈ s.accepted ∧ 7 ∈ s.finished ∧ s.stateOf 7 = some .done ∧ ¬ s.AcceptedAborted := by
  have reaches : (Transition.run (step oneWorker) empty
      (drainedScan ++ [.cancel 7, .sync 0 (.failSweep .canceled), .finishScan 0 1])).map
      (fun s => (s.accepted, s.finished, s.stateOf 7)) = some ([7], [7], some .done) := by decide
  obtain ⟨s, ran, facts⟩ := Option.map_eq_some_iff.mp reaches
  simp only [Prod.mk.injEq] at facts
  obtain ⟨accepted, finished, state⟩ := facts
  refine ⟨s, ran, by simp [accepted], by simp [finished], state, ?_⟩
  intro aborted
  have := aborted 7 (by simp [accepted]) (by simp [finished])
  rw [state] at this
  cases this

/-- The state that `FinishScan` leaves in the record of a scanning run. -/
theorem Records.stateOf_finish (records : s.Records) (found : s.runs[r]? = some run)
    (phase : run.phase = .scanning call) (now : Int) (scanErr : Option ScanError) :
    ((s.tables.finishScan now run.scanID call.progress scanErr).recordAt run.scanID).map
      ScanRow.state = some (ScanTables.outcome scanErr) := by
  obtain ⟨row, here, running⟩ := records.running found phase
  exact ScanTables.finishScan_stateAt here running

/-- `sync` returns nil only after it called `Sweep`. -/
theorem called_of_returned {tree : Tree} (inv : call.Inv tree)
    (returned : call.stage = .returned none) : call.sweepCalled = true := by
  by_contra uncalled
  rcases inv.uncalled (by simpa using uncalled) with waiting | ⟨e, failed⟩
  · rw [returned] at waiting
    cases waiting
  · rw [returned] at failed
    cases failed

theorem step_done (records : s.Records) (h : s.step pool a = some s')
    (done : s'.stateOf id = some .done) : s.stateOf id = some .done ∨ ∃ r now run call,
      a = .finishScan r now ∧ s.scanning r = some (run, call) ∧ run.scanID = id ∧
        call.sweepCalled = true ∧ call.Drained := by
  cases moves_of_step h with
  | insertLocation id uri inserted =>
    have rows := ScanTables.recordAt_of_eq (ScanTables.insertLocation_scans inserted)
    exact .inl ((congrArg (Option.map ScanRow.state) (rows _)).symm.trans done)
  | beginScan r now scanID run found phase began =>
    exact .inl (ScanTables.beginScan_done began done)
  | commit r i newDirID newFileID run found phase taken synced moved =>
    have rows := ScanTables.recordAt_of_eq (ScanTables.syncDir_scans synced)
    exact .inl ((congrArg (Option.map ScanRow.state) (rows _)).symm.trans done)
  | sweep r run found phase swept moved =>
    obtain rfl := congrArg Prod.fst swept
    exact .inl done
  | finishScan r now run scanErr found phase returned =>
    by_cases own : id = run.scanID
    · subst own
      have written := (records.stateOf_finish found phase now scanErr).symm.trans done
      obtain rfl : scanErr = none := by
        rcases scanErr with _ | ⟨_ | text⟩
        · rfl
        all_goals simp [ScanTables.outcome] at written
      obtain ⟨tree, inv⟩ := records.calls r run _ found phase
      have called := called_of_returned inv returned
      exact .inr ⟨r, now, run, _, rfl, scanning_eq_some_iff.mpr ⟨found, phase⟩, rfl, called,
        (inv.drained called).1⟩
    · rw [stateOf_eq, ScanTables.finishScan_recordAt_ne own] at done
      exact .inl done
  | restart recovered =>
    cases recovered with
    | none => exact .inl done
    | some now => exact .inl (ScanTables.abortRunningScans_done done)
  | _ => exact .inl done

/-- What `FinishScan` writes, and that nothing else writes that a scan is done. -/
theorem recorded_done (pool : WorkerPool) {acts : List ProcessAction}
    (ran : Transition.run (step pool) empty acts = some s) (h : s.step pool a = some s') :
    (∀ id, s'.stateOf id = some .done → s.stateOf id = some .done ∨ ∃ r now run call,
      a = .finishScan r now ∧ s.scanning r = some (run, call) ∧ run.scanID = id ∧
        call.sweepCalled = true ∧ call.Drained) ∧
    ∀ r now run call, a = .finishScan r now → s.scanning r = some (run, call) →
      (call.sweepCalled = false →
        s'.stateOf run.scanID = some .failed ∨ s'.stateOf run.scanID = some .aborted) ∧
      (run.cancelled = false → call.sweepCalled = true →
        s'.stateOf run.scanID = some .done) := by
  obtain ⟨_, records⟩ : s.Inv ∧ s.Records := by
    refine Transition.invariant_of_run (I := fun s => s.Inv ∧ s.Records) ?_
      ⟨empty_inv, empty_records⟩ ran
    rintro s a s' ⟨inv, records⟩ h
    exact ⟨step_inv inv h, step_records inv records h⟩
  refine ⟨fun id done => step_done records h done, ?_⟩
  rintro r now run call rfl active
  cases moves_of_step h with
  | finishScan _ _ run' scanErr found phase returned =>
    obtain ⟨same, scanning⟩ := scanning_eq_some_iff.mp active
    rw [found] at same
    cases same
    rw [phase] at scanning
    cases scanning
    have written := records.stateOf_finish found phase now scanErr
    obtain ⟨tree, inv⟩ := records.calls r run _ found phase
    refine ⟨?_, ?_⟩
    · intro uncalled
      rcases scanErr with _ | ⟨_ | text⟩
      · rw [called_of_returned inv returned] at uncalled
        cases uncalled
      · exact .inr written
      · exact .inl written
    · intro _ called
      rcases inv.after called with ⟨executed, sweeping⟩ | nil
      · rw [returned] at sweeping
        cases sweeping
      · rw [returned] at nil
        cases nil
        exact written

/-- A scan whose sweep could not commit. -/
def unsweptScan : List ProcessAction :=
  drainedScan ++ [.sync 0 (.failSweep (.other "disk I/O error"))]

theorem unsweptScan_drained : ∃ s s', Transition.run (step oneWorker) empty unsweptScan = some s ∧
    s.step oneWorker (.finishScan 0 1) = some s' ∧ ∃ r now run call,
      ProcessAction.finishScan 0 1 = .finishScan r now ∧ s.scanning r = some (run, call) ∧
        run.scanID = 7 ∧ call.sweepCalled = true ∧ call.Drained := by
  have reaches : (Transition.run (step oneWorker) empty unsweptScan).bind (fun s =>
      (s.step oneWorker (.finishScan 0 1)).map fun s' => (s.stateOf 7, s'.stateOf 7)) =
      some (some .running, some .done) := by decide
  obtain ⟨s, ran, rest⟩ := Option.bind_eq_some_iff.mp reaches
  obtain ⟨s', h, states⟩ := Option.map_eq_some_iff.mp rest
  simp only [Prod.mk.injEq] at states
  refine ⟨s, s', ran, h, ?_⟩
  rcases (recorded_done oneWorker ran h).1 7 states.2 with before | finished
  · rw [states.1] at before
    cases before
  · exact finished

/-- Its record says done, though no sweep has committed. -/
theorem unsweptScan_done : ∃ s, Transition.run (step oneWorker) empty
      (unsweptScan ++ [.finishScan 0 1]) = some s ∧
    s.accepted = [] ∧ s.stateOf 7 = some .done ∧ s.swept = [] := by
  have reaches : (Transition.run (step oneWorker) empty (unsweptScan ++ [.finishScan 0 1])).map
      (fun s => (s.accepted, s.stateOf 7, s.swept)) = some ([], some .done, []) := by decide
  obtain ⟨s, ran, facts⟩ := Option.map_eq_some_iff.mp reaches
  simp only [Prod.mk.injEq] at facts
  exact ⟨s, ran, facts⟩

end Process

end Byom.Scan
