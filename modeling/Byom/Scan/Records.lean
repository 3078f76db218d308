import Byom.Scan.Exclusion
import Byom.Sqlite.ScanRecords

/-!
# Runs and their records

The record of a run says running from `BeginScan` until its `FinishScan` succeeds,
and it is not written again after that. No two runs share a record.
-/

namespace Byom.Scan

open Storage Relational Sqlite

/-- The scan whose record a run has opened. -/
def Run.record (run : Run) : Option UUID :=
  match run.phase with
  | .begun scanID _ => some scanID
  | .scanning _ => some run.scanID
  | .closing => some run.scanID
  | _ => none

/-- Whether the record is open: `FinishScan` is still to come. -/
def Phase.recording : Phase → Bool
  | .begun _ _ => true
  | .scanning _ => true
  | _ => false

namespace Process

structure Records (s : Process) : Prop where
  rows : ∀ (r : Nat) run id, s.runs[r]? = some run → run.record = some id →
    ∃ row, s.tables.recordAt id = some row ∧
      (run.phase.recording = true → row.state = .running ∧ row.locationID = run.locationID)
  distinct : ∀ (r r' : Nat) run run' id, s.runs[r]? = some run → s.runs[r']? = some run' →
    run.record = some id → run'.record = some id → r = r'
  finished : ∀ id ∈ s.finished, ∃ row, s.tables.recordAt id = some row ∧
    row.state ≠ .running ∧ row.state ≠ .cancelling
  calls : ∀ (r : Nat) run call, s.runs[r]? = some run → run.phase = .scanning call →
    ∃ tree, call.Inv tree

variable {pool : WorkerPool} {s s' : Process} {a : ProcessAction} {r : Nat} {run run' : Run}
  {t : ScanTables} {call call' : Sync} {id : UUID}

theorem empty_records : empty.Records := by
  refine ⟨?_, ?_, ?_, ?_⟩ <;> simp [empty]

/-- Ending the context of a run is a step of its call of `sync`. -/
theorem cancel_phase (h : run.cancel.phase = .scanning call') :
    ∃ call, run.phase = .scanning call ∧ call.step .cancel = some call' := by
  cases phase : run.phase with
  | scanning call =>
    simp only [Run.cancel, phase, Phase.scanning.injEq] at h
    subst h
    exact ⟨call, rfl, rfl⟩
  | _ => simp [Run.cancel, phase] at h

theorem cancel_record (run : Run) : run.cancel.record = run.record := by
  cases phase : run.phase <;> simp [Run.cancel, Run.record, phase]

theorem cancel_recording (run : Run) :
    run.cancel.phase.recording = run.phase.recording := by
  cases phase : run.phase <;> simp [Run.cancel, Phase.recording, phase]

/-- What a step of a run may do to it while no record is written. -/
structure Follows (before after : Run) : Prop where
  location : after.locationID = before.locationID
  record : after.record = none ∨ after.record = before.record
  recording : after.phase.recording = true → before.phase.recording = true
  calls : ∀ call, after.phase = .scanning call → ∃ tree, call.Inv tree

/-- The runs go on, and no record is written. -/
theorem Records.frame (records : s.Records) {runs : List Run}
    (follows : ∀ (i : Nat) x, runs[i]? = some x → ∃ y, s.runs[i]? = some y ∧ Follows y x)
    (rows : ∀ id, t.recordAt id = s.tables.recordAt id) (byLoc byScan : UUID → Option Nat)
    (accepted : List UUID) (swept : List (UUID × Int)) :
    Records { s with
      tables := t, runs := runs, byLoc := byLoc, byScan := byScan
      accepted := accepted, swept := swept } := by
  have same : ∀ {x y : Run} {id : UUID}, Follows y x → x.record = some id → y.record = some id := by
    intro x y id follows holds
    rcases follows.record with gone | same
    · rw [gone] at holds
      cases holds
    · exact same ▸ holds
  refine ⟨?_, ?_, ?_, ?_⟩
  · intro i x id there holds
    obtain ⟨y, old, step⟩ := follows i x there
    obtain ⟨row, at_, facts⟩ := records.rows i y id old (same step holds)
    refine ⟨row, (rows id).trans at_, ?_⟩
    intro recording
    rw [step.location]
    exact facts (step.recording recording)
  · intro i j x y id there there' holds holds'
    obtain ⟨x', old₁, step₁⟩ := follows i x there
    obtain ⟨y', old₂, step₂⟩ := follows j y there'
    exact records.distinct i j x' y' id old₁ old₂ (same step₁ holds) (same step₂ holds')
  · intro id listed
    rw [rows]
    exact records.finished id listed
  · intro i x call there phase
    obtain ⟨y, old, step⟩ := follows i x there
    exact step.calls call phase

theorem Records.follows_refl (records : s.Records) (found : s.runs[r]? = some run) :
    Follows run run :=
  ⟨rfl, .inr rfl, id, fun call phase => records.calls r run call found phase⟩

/-- One run goes on, and no record is written. -/
theorem Records.write (records : s.Records) (found : s.runs[r]? = some run)
    (step : Follows run run') (rows : ∀ id, t.recordAt id = s.tables.recordAt id)
    (byLoc byScan : UUID → Option Nat) (accepted : List UUID) (swept : List (UUID × Int)) :
    Records { s with
      tables := t, runs := s.runs.set r run', byLoc := byLoc, byScan := byScan
      accepted := accepted, swept := swept } := by
  refine records.frame ?_ rows byLoc byScan accepted swept
  intro i x there
  rcases Transition.getElem?_set_cases there with ⟨rfl, rfl⟩ | ⟨_, old⟩
  · exact ⟨run, found, step⟩
  · exact ⟨x, old, records.follows_refl old⟩

/-- A step of the call of `sync` of a run. -/
theorem Records.follows_call (records : s.Records) (found : s.runs[r]? = some run)
    (phase : run.phase = .scanning call) {a : SyncAction} (moved : call.step a = some call') :
    Follows run { run with phase := .scanning call' } := by
  refine ⟨rfl, .inr (by simp [Run.record, phase]), fun _ => by simp [phase, Phase.recording], ?_⟩
  intro next scanning
  cases scanning
  obtain ⟨tree, callInv⟩ := records.calls r run call found phase
  exact ⟨tree, Sync.step_inv callInv moved⟩

theorem Records.follows_cancel (records : s.Records) (found : s.runs[r]? = some run)
    (cancelling : Bool) : Follows run { run.cancel with cancelling := cancelling } := by
  refine ⟨(ident_inj run.cancel_ident).1, .inr (cancel_record run), ?_, ?_⟩
  · exact fun recording => (cancel_recording run).symm.trans recording
  · intro call scanning
    obtain ⟨before, phase, moved⟩ := cancel_phase scanning
    obtain ⟨tree, callInv⟩ := records.calls r run _ found phase
    exact ⟨tree, Sync.step_inv callInv moved⟩

/-- `BeginScan` opens a record that was not there, and writes no other open one. -/
theorem Records.begin (records : s.Records) (inv : s.Inv) (found : s.runs[r]? = some run)
    (phase : run.phase = .claimed) {now gen : Int}
    (began : s.tables.beginScan now id run.locationID = .ok (t, gen)) :
    Records { s.setRun r { run with phase := .begun id gen } with tables := t } := by
  obtain ⟨absent, opened, others⟩ := ScanTables.beginScan_records began
  have kept : ∀ {id' row}, s.tables.recordAt id' = some row → id' ≠ id := by
    rintro id' row at_ rfl
    rw [absent] at at_
    cases at_
  have live : run.phase.live = true := by simp [phase, Phase.live]
  refine ⟨?_, ?_, ?_, ?_⟩
  · intro i x id' there holds
    rcases Transition.getElem?_set_cases there with ⟨rfl, rfl⟩ | ⟨apart, old⟩
    · cases holds
      exact ⟨_, opened, fun _ => ⟨rfl, rfl⟩⟩
    · obtain ⟨row, at_, facts⟩ := records.rows i x id' old holds
      by_cases recording : x.phase.recording = true
      -- The record of another run is at another location.
      · have liveX : x.phase.live = true := by
          cases phaseX : x.phase <;> simp_all [Phase.recording, Phase.live]
        have elsewhere : row.locationID ≠ run.locationID := by
          intro same
          have location := (facts recording).2.symm.trans same
          exact apart (inv.claims.exclusive old found liveX live location)
        exact ⟨row, ScanTables.beginScan_keeps began at_ fun same => absurd same elsewhere, facts⟩
      · obtain ⟨row', now_⟩ : ∃ row', t.recordAt id' = some row' := by
          rw [others id' (kept at_), at_]
          exact ⟨_, rfl⟩
        exact ⟨row', now_, fun h => absurd h recording⟩
  · intro i j x y id' there there' holds holds'
    rcases Transition.getElem?_set_cases there with ⟨rfl, rfl⟩ | ⟨_, old⟩ <;>
      rcases Transition.getElem?_set_cases there' with ⟨rfl, rfl⟩ | ⟨_, old'⟩
    · rfl
    · cases holds
      obtain ⟨row, at_, _⟩ := records.rows j y _ old' holds'
      exact absurd rfl (kept at_)
    · cases holds'
      obtain ⟨row, at_, _⟩ := records.rows i x _ old holds
      exact absurd rfl (kept at_)
    · exact records.distinct i j x y id' old old' holds holds'
  · intro id' listed
    obtain ⟨row, at_, closed⟩ := records.finished id' listed
    exact ⟨row, ScanTables.beginScan_keeps began at_ fun _ => closed.1, closed⟩
  · intro i x call there scanning
    rcases Transition.getElem?_set_cases there with ⟨rfl, rfl⟩ | ⟨_, old⟩
    · cases scanning
    · exact records.calls i x call old scanning

/-- The record of a scanning run is running, so `FinishScan` writes it. -/
theorem Records.running (records : s.Records) (found : s.runs[r]? = some run)
    (phase : run.phase = .scanning call) :
    ∃ row, s.tables.recordAt run.scanID = some row ∧ row.state = .running := by
  obtain ⟨row, at_, facts⟩ := records.rows r run run.scanID found (by simp [Run.record, phase])
  exact ⟨row, at_, (facts (by simp [phase, Phase.recording])).1⟩

theorem Records.finish (records : s.Records) (found : s.runs[r]? = some run)
    (phase : run.phase = .scanning call) (now : Int) (scanErr : Option ScanError) :
    Records { s.setRun r { run with phase := .closing } with
      tables := s.tables.finishScan now run.scanID call.progress scanErr
      finished := run.scanID :: s.finished } := by
  have own : run.record = some run.scanID := by simp [Run.record, phase]
  obtain ⟨row, here, running⟩ := records.running found phase
  have written : (s.tables.finishScan now run.scanID call.progress scanErr).recordAt run.scanID =
      some (ScanTables.finished now call.progress scanErr row) := by
    rw [ScanTables.finishScan_recordAt, here]
    simp [ScanTables.id_of_recordAt here, running]
  refine ⟨?_, ?_, ?_, ?_⟩
  · intro i x id there holds
    rcases Transition.getElem?_set_cases there with ⟨rfl, rfl⟩ | ⟨apart, old⟩
    · cases holds
      exact ⟨_, written, fun h => by cases h⟩
    · obtain ⟨row', at_, facts⟩ := records.rows i x id old holds
      have other : id ≠ run.scanID := by
        rintro rfl
        exact apart (records.distinct i r x run _ old found holds own)
      exact ⟨row', ScanTables.finishScan_keeps at_ (.inl other), facts⟩
  · intro i j x y id there there' holds holds'
    have old : ∀ {i : Nat} {x}, (s.runs.set r { run with phase := .closing })[i]? = some x →
        x.record = some id → ∃ y, s.runs[i]? = some y ∧ y.record = some id := by
      intro i x there holds
      rcases Transition.getElem?_set_cases there with ⟨rfl, rfl⟩ | ⟨_, old⟩
      · exact ⟨run, found, own.trans holds⟩
      · exact ⟨x, old, holds⟩
    obtain ⟨x', old₁, record₁⟩ := old there holds
    obtain ⟨y', old₂, record₂⟩ := old there' holds'
    exact records.distinct i j x' y' id old₁ old₂ record₁ record₂
  · intro id listed
    rcases List.mem_cons.mp listed with rfl | before
    · refine ⟨_, written, ?_⟩
      rcases scanErr with _ | ⟨_ | text⟩ <;> simp [ScanTables.finished, ScanTables.outcome]
    · obtain ⟨row', at_, closed⟩ := records.finished id before
      exact ⟨row', ScanTables.finishScan_keeps at_ (.inr closed.1), closed⟩
  · intro i x call there scanning
    rcases Transition.getElem?_set_cases there with ⟨rfl, rfl⟩ | ⟨_, old⟩
    · cases scanning
    · exact records.calls i x call old scanning

theorem step_records (inv : s.Inv) (records : s.Records) (h : s.step pool a = some s') :
    s'.Records := by
  have same : ∀ id, s.tables.recordAt id = s.tables.recordAt id := fun _ => rfl
  cases moves_of_step h with
  | insertLocation id uri inserted =>
    have rows := ScanTables.recordAt_of_eq (ScanTables.insertLocation_scans inserted)
    refine ⟨?_, records.distinct, ?_, records.calls⟩
    · intro r run id found holds
      rw [rows]
      exact records.rows r run id found holds
    · intro id listed
      rw [rows]
      exact records.finished id listed
  | start loc force free =>
    have old : ∀ {r : Nat} {run : Run},
        (s.runs ++ [⟨loc, force, .nil, 0, false, false, .claimed⟩])[r]? = some run →
          s.runs[r]? = some run ∨ run.phase = .claimed := by
      intro r run there
      rcases Nat.lt_or_ge r s.runs.length with before | after
      · rw [List.getElem?_append_left before] at there
        exact .inl there
      · rw [List.getElem?_append_right after, List.getElem?_singleton] at there
        split at there
        · cases there
          exact .inr rfl
        · cases there
    refine ⟨?_, ?_, records.finished, ?_⟩
    · intro r run id there holds
      rcases old there with found | claimed
      · exact records.rows r run id found holds
      · simp [Run.record, claimed] at holds
    · intro r r' run run' id there there' holds holds'
      rcases old there with found | claimed
      · rcases old there' with found' | claimed'
        · exact records.distinct r r' run run' id found found' holds holds'
        · simp [Run.record, claimed'] at holds'
      · simp [Run.record, claimed] at holds
    · intro r run call there phase
      rcases old there with found | claimed
      · exact records.calls r run call found phase
      · rw [claimed] at phase
        cases phase
  | beginScan r now scanID run found phase began => exact records.begin inv found phase began
  | beginFails r run found phase =>
    have step : Follows run { run.cancel with phase := .refused } :=
      ⟨(ident_inj run.cancel_ident).1, .inl rfl, by simp [Phase.recording], by simp⟩
    exact records.write found step same _ _ _ _
  | register r order tree run scanID gen found phase =>
    have step : Follows run { run with
        scanID := scanID
        gen := gen
        phase := .scanning (.start order tree pool run.cancelled) } := by
      refine ⟨rfl, .inr (by simp [Run.record, phase]), fun _ => ?_, ?_⟩
      · simp [phase, Phase.recording]
      · intro call scanning
        cases scanning
        exact ⟨tree, Sync.start_inv ..⟩
    exact records.write found step same _ _ _ _
  | sync r a run found phase inMemory moved =>
    exact records.write found (records.follows_call found phase moved) same _ _ _ _
  | load r i run found phase taken moved =>
    exact records.write found (records.follows_call found phase moved) same _ _ _ _
  | commit r i newDirID newFileID run found phase taken synced moved =>
    have rows := ScanTables.recordAt_of_eq (ScanTables.syncDir_scans synced)
    exact records.write found (records.follows_call found phase moved) rows _ _ _ _
  | sweep r run found phase swept moved =>
    have rows := ScanTables.recordAt_of_eq (congrArg (fun x => x.1.scans) swept).symm
    exact records.write found (records.follows_call found phase moved) rows _ _ _ _
  | finishScan r now run scanErr found phase returned => exact records.finish found phase now scanErr
  | finishFails r run scanErr found phase returned =>
    have step : Follows run { run with phase := .closing } :=
      ⟨rfl, .inr (by simp [Run.record, phase]), by simp [Phase.recording], by simp⟩
    exact records.write found step same _ _ _ _
  | release r run found phase =>
    have step : Follows run { run with phase := .released } :=
      ⟨rfl, .inl rfl, by simp [Phase.recording], by simp⟩
    exact records.write found step same _ _ _ _
  | cancel scanID r run registered found holds =>
    exact records.write found (records.follows_cancel found true) same _ _ _ _
  | shutdown =>
    refine records.frame ?_ same _ _ _ _
    intro i x there
    rw [List.getElem?_mapIdx] at there
    obtain ⟨y, old, rfl⟩ := Option.map_eq_some_iff.mp there
    refine ⟨y, old, ?_⟩
    split
    · exact records.follows_cancel old y.cancel.cancelling
    · exact records.follows_refl old
  | restart recovered =>
    refine ⟨?_, ?_, ?_, ?_⟩
    · simp [restart]
    · simp [restart]
    · intro id listed
      obtain ⟨row, at_, closed⟩ := records.finished id listed
      cases recovered with
      | none => exact ⟨row, at_, closed⟩
      | some now => exact ⟨row, ScanTables.abortRunningScans_keeps at_ closed, closed⟩
    · simp [restart]

end Process

end Byom.Scan
