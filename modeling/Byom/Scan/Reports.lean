import Mathlib.Order.Basic
import Byom.Scan.Listing
import Byom.Scan.Outcomes

/-!
# What clients are told of a scan

`Scanner.Scan` reads the record, then looks for the run, then loads its counters, and the process
moves on in between. `Tracker` is a process with the counters of its runs, which outlive the call
of `sync`. Two answers on one scan are compared, whatever happened between them.
-/

namespace Byom.Scan

open Storage Relational Sqlite

/-- No count is less than before. -/
instance : Preorder Progress where
  le p q := p.dirsSeen ≤ q.dirsSeen ∧ p.dirsMissing ≤ q.dirsMissing ∧
    p.filesSeen ≤ q.filesSeen ∧ p.filesMissing ≤ q.filesMissing
  le_refl _ := ⟨le_rfl, le_rfl, le_rfl, le_rfl⟩
  le_trans _ _ _ first second :=
    ⟨first.1.trans second.1, first.2.1.trans second.2.1, first.2.2.1.trans second.2.2.1,
      first.2.2.2.trans second.2.2.2⟩

instance : Zero Progress := ⟨⟨0, 0, 0, 0⟩⟩

def State.ended : State → Bool
  | .done | .failed | .aborted => true
  | _ => false

/-- Whether `FinishScan` was called, so that nothing counts any more. -/
def Phase.stopped : Phase → Bool
  | .closing | .released => true
  | _ => false

/-- The counters of a run in a phase, from what they were. -/
def Phase.count (old : Progress) : Phase → Progress
  | .scanning call => call.progress
  | .closing | .released => old
  | _ => 0

/-- A process and, for each of its runs, the counters. -/
structure Tracker where
  process : Process
  counts : Nat → Progress

/-- An action after which the process is still the same one. -/
def ProcessAction.alive : ProcessAction → Bool
  | .restart _ => false
  | _ => true

namespace Tracker

def empty : Tracker := ⟨.empty, fun _ => 0⟩

def step (pool : WorkerPool) (t : Tracker) (a : ProcessAction) : Option Tracker :=
  (t.process.step pool a).map fun s =>
    ⟨s, fun r => ((s.runs[r]?).map fun run => run.phase.count (t.counts r)).getD 0⟩

def recordAt (t : Tracker) (id : UUID) : Option ScanRow := t.process.tables.recordAt id

/-- `overlay` once it has looked the scan up in `byScan`. -/
def overlay (t : Tracker) (found : Option Nat) (sc : ScanRecord) : ScanRecord :=
  match found with
  | none => sc
  | some r =>
    { sc with
      progress := t.counts r
      state :=
        if sc.state = .running ∧ (t.process.runs[r]?).any Run.cancelling then .cancelling
        else sc.state }

/-- One process gets from one state to another. -/
def Reaches (pool : WorkerPool) (t t' : Tracker) : Prop :=
  ∃ acts : List ProcessAction, (∀ a ∈ acts, a.alive = true) ∧
    Transition.run (step pool) t acts = some t'

/-- A call of `Scanner.Scan` that finds the record. The process moves on between the read of the
record and the lookup of the run, and between that and the load of the counters. -/
structure Request (pool : WorkerPool) (id : UUID) (asked : Tracker) where
  row : ScanRow
  read : asked.recordAt id = some row
  looked : Tracker
  finds : Reaches pool asked looked
  answered : Tracker
  loads : Reaches pool looked answered

def Request.found {pool : WorkerPool} {id : UUID} {asked : Tracker}
    (q : Request pool id asked) : Option Nat :=
  q.looked.process.byScan id

/-- The answer. -/
def Request.report {pool : WorkerPool} {id : UUID} {asked : Tracker}
    (q : Request pool id asked) : ScanRecord :=
  q.answered.overlay q.found (scanScan q.row)

/-- `Scanner.Scan` while nothing else happens. -/
def scan (t : Tracker) (id : UUID) : Option ScanRecord :=
  (t.recordAt id).map fun row => t.overlay (t.process.byScan id) (scanScan row)

end Tracker

/-- One answer on a scan goes on from another. -/
structure ScanRecord.Advances (before after : ScanRecord) : Prop where
  scan : (after.id, after.locationID, after.startTime) =
    (before.id, before.locationID, before.startTime)
  ended : before.state.ended = true → after = before
  cancelling : before.state = .cancelling → after.state ≠ .running
  progress : before.progress ≤ after.progress

/-! ### One step -/

theorem Sync.step_progress {call call' : Sync} {a : SyncAction} (h : call.step a = some call') :
    call.progress ≤ call'.progress := by
  have same : call.progress ≤ call.progress := le_rfl
  cases a with
  | commit i =>
    simp only [Sync.step, Sync.commit] at h
    split at h
    · obtain ⟨g, _, rfl⟩ := onGroup_cases h
      refine ⟨?_, le_rfl, ?_, ?_⟩ <;> simp
    · cases h
  | commitSweep dirs files =>
    simp only [Sync.step] at h
    split at h
    · cases h
      refine ⟨le_rfl, ?_, le_rfl, ?_⟩ <;> simp
    · cases h
  | _ =>
    cases Sync.moves_of_step h
    all_goals exact same

namespace Process

variable {pool : WorkerPool} {s s' : Process} {a : ProcessAction} {r : Nat} {run run' : Run}
  {call : Sync} {id : UUID} {row : ScanRow}

/-- What one step makes of a run. -/
inductive Turn (s : Process) : Run → Run → Prop where
  | same (run : Run) : Turn s run run
  | begin {run : Run} (id : UUID) (gen : Int) (claimed : run.phase = .claimed)
    (fresh : s.tables.recordAt id = none) : Turn s run { run with phase := .begun id gen }
  | refuse {run : Run} (claimed : run.phase = .claimed) :
    Turn s run { run.cancel with phase := .refused }
  | register {run : Run} (id : UUID) (gen : Int) (order : MapOrder) (tree : Tree)
    (pool : WorkerPool) (begun : run.phase = .begun id gen) : Turn s run { run with
      scanID := id
      gen := gen
      phase := .scanning (.start order tree pool run.cancelled) }
  | sync {run : Run} {call call' : Sync} (scanning : run.phase = .scanning call)
    (more : call.progress ≤ call'.progress) : Turn s run { run with phase := .scanning call' }
  | close {run : Run} {call : Sync} (scanning : run.phase = .scanning call) :
    Turn s run { run with phase := .closing }
  | release {run : Run} (phase : run.phase = .refused ∨ run.phase = .closing) :
    Turn s run { run with phase := .released }
  | cancel {run : Run} (cancelling : Bool) (keeps : run.cancelling = true → cancelling = true) :
    Turn s run { run.cancel with cancelling := cancelling }

/-- Each run takes such a turn, and a new one is claimed. -/
structure Turns (s s' : Process) : Prop where
  onward : ∀ (r : Nat) run, s.runs[r]? = some run →
    ∃ run', s'.runs[r]? = some run' ∧ Turn s run run'
  fresh : ∀ (r : Nat) run', s.runs[r]? = none → s'.runs[r]? = some run' → run'.phase = .claimed

theorem Turns.of_set (found : s.runs[r]? = some run) (turn : Turn s run run')
    (set : s'.runs = s.runs.set r run') : s.Turns s' := by
  constructor
  · intro i x there
    rw [set]
    by_cases here : i = r
    · subst here
      cases there.symm.trans found
      exact ⟨run', Transition.getElem?_set_here found, turn⟩
    · exact ⟨x, Transition.getElem?_set_of_ne here there, .same x⟩
  · intro i x absent there
    rw [set] at there
    rcases Transition.getElem?_set_cases there with ⟨rfl, _⟩ | ⟨_, old⟩
    · cases absent.symm.trans found
    · cases absent.symm.trans old

theorem turns_of_step (h : s.step pool a = some s') (alive : a.alive = true) : s.Turns s' := by
  cases moves_of_step h with
  | insertLocation id uri inserted =>
    exact ⟨fun r run found => ⟨run, found, .same run⟩, fun r run' absent there => by
      cases absent.symm.trans there⟩
  | start loc force free =>
    constructor
    · intro r run found
      have before := (List.getElem?_eq_some_iff.mp found).1
      exact ⟨run, (List.getElem?_append_left before).trans found, .same run⟩
    · intro r run' absent there
      rw [List.getElem?_append_right (List.getElem?_eq_none_iff.mp absent),
        List.getElem?_singleton] at there
      split at there
      · cases there
        rfl
      · cases there
  | beginScan r now scanID run found phase began =>
    exact .of_set found (.begin scanID _ phase (ScanTables.beginScan_records began).1) rfl
  | beginFails r run found phase => exact .of_set found (.refuse phase) rfl
  | register r order tree run scanID gen found phase =>
    exact .of_set found (.register scanID gen order tree pool phase) rfl
  | sync r a run found phase inMemory moved =>
    exact .of_set found (.sync phase (Sync.step_progress moved)) rfl
  | load r i run found phase taken moved =>
    exact .of_set found (.sync phase (Sync.step_progress moved)) rfl
  | commit r i newDirID newFileID run found phase taken synced moved =>
    exact .of_set found (.sync phase (Sync.step_progress moved)) rfl
  | sweep r run found phase swept moved =>
    exact .of_set found (.sync phase (Sync.step_progress moved)) rfl
  | finishScan r now run scanErr found phase returned => exact .of_set found (.close phase) rfl
  | finishFails r run scanErr found phase returned => exact .of_set found (.close phase) rfl
  | release r run found phase => exact .of_set found (.release phase) rfl
  | cancel scanID r run registered found holds =>
    exact .of_set found (.cancel true fun _ => rfl) rfl
  | shutdown =>
    constructor
    · intro r run found
      refine ⟨if s.byLoc run.locationID = some r then run.cancel else run,
        by rw [shutdown, List.getElem?_mapIdx, found]; rfl, ?_⟩
      split
      · exact .cancel run.cancel.cancelling id
      · exact .same run
    · intro r run' absent there
      rw [shutdown, List.getElem?_mapIdx, absent] at there
      cases there
  | restart recovered => cases alive

/-- What one step makes of the record of a scan. Another scan of the location aborts it, or a
restart. -/
inductive Written (s : Process) (a : ProcessAction) (id : UUID) (s' : Process) : Prop where
  | kept (same : s'.tables.recordAt id = s.tables.recordAt id)
  | begun (run : Run) (gen now : Int) (absent : s.tables.recordAt id = none)
    (inserted : s'.tables.recordAt id = some (ScanTables.startedRow id run.locationID gen now))
  | finished (r : Nat) (run : Run) (call : Sync) (now : Int) (scanErr : Option ScanError)
    (row : ScanRow) (found : s.runs[r]? = some run) (scanning : run.phase = .scanning call)
    (scan : run.scanID = id) (here : s.tables.recordAt id = some row)
    (updated : s'.tables.recordAt id = some (ScanTables.finished now call.progress scanErr row))
    (listed : id ∈ s'.finished)
  | aborted (row : ScanRow) (now : Int) (here : s.tables.recordAt id = some row)
    (open_ : row.state.ended = false) (next : a.alive = true → ∃ (r : Nat) (run : Run),
      s.runs[r]? = some run ∧ run.phase = .claimed ∧ run.locationID = row.locationID)
    (updated : s'.tables.recordAt id = some { row with state := .aborted, finishTime := some now })

theorem written_of_step (records : s.Records) (h : s.step pool a = some s') (id : UUID) :
    s.Written a id s' := by
  cases moves_of_step h with
  | insertLocation id' uri inserted =>
    exact .kept (ScanTables.recordAt_of_eq (ScanTables.insertLocation_scans inserted) id)
  | beginScan r now scanID run found phase began =>
    obtain ⟨absent, opened, others⟩ := ScanTables.beginScan_records began
    by_cases own : id = scanID
    · subst own
      exact .begun run _ now absent opened
    · have updated := others id own
      cases here : s.tables.recordAt id with
      | none =>
        rw [here] at updated
        exact .kept (updated.trans here.symm)
      | some row =>
        rw [here, Option.map_some] at updated
        split at updated
        · rename_i hit
          exact .aborted row now here (by rw [hit.2]; rfl)
            (fun _ => ⟨r, run, found, phase, hit.1.symm⟩) updated
        · exact .kept (updated.trans here.symm)
  | commit r i newDirID newFileID run found phase taken synced moved =>
    exact .kept (ScanTables.recordAt_of_eq (ScanTables.syncDir_scans synced) id)
  | sweep r run found phase swept moved =>
    exact .kept (ScanTables.recordAt_of_eq (congrArg (fun x => x.1.scans) swept).symm id)
  | finishScan r now run scanErr found phase returned =>
    by_cases own : id = run.scanID
    · subst own
      obtain ⟨row, here, running⟩ := records.running found phase
      refine .finished r run _ now scanErr row found phase rfl here ?_ List.mem_cons_self
      rw [ScanTables.finishScan_recordAt, here, Option.map_some,
        if_pos ⟨ScanTables.id_of_recordAt here, running⟩]
    · exact .kept (ScanTables.finishScan_recordAt_ne own)
  | restart recovered =>
    cases recovered with
    | none => exact .kept rfl
    | some now =>
      have updated : (s.tables.abortRunningScans now).recordAt id = _ :=
        ScanTables.abortRunningScans_recordAt id
      cases here : s.tables.recordAt id with
      | none =>
        rw [here] at updated
        exact .kept (updated.trans here.symm)
      | some row =>
        rw [here, Option.map_some] at updated
        split at updated
        · rename_i open_
          refine .aborted row now here ?_ (fun alive => by cases alive) updated
          rcases open_ with state | state <;> rw [state] <;> rfl
        · exact .kept (updated.trans here.symm)
  | _ => exact .kept rfl

/-- A record of a scan that ended stays as it is. -/
theorem ended_of_step (records : s.Records) (h : s.step pool a = some s')
    (here : s.tables.recordAt id = some row) (ended : row.state.ended = true) :
    s'.tables.recordAt id = some row := by
  cases written_of_step records h id with
  | kept same => exact same.trans here
  | begun run gen now absent => cases absent.symm.trans here
  | finished r run call now scanErr row' found scanning scan =>
    subst scan
    obtain ⟨open_, there, running⟩ := records.running found scanning
    cases there.symm.trans here
    rw [running] at ended
    cases ended
  | aborted row' now here' open_ =>
    cases here'.symm.trans here
    cases open_.symm.trans ended

theorem finished_subset (h : s.step pool a = some s') : s.finished ⊆ s'.finished := by
  cases moves_of_step h with
  | finishScan => exact List.subset_cons_self _ _
  | _ => exact List.Subset.refl _

/-- A `FinishScan` that succeeds writes the counters of the run into its record. -/
theorem finished_of_step (records : s.Records) (h : s.step pool a = some s')
    (listed : id ∈ s'.finished) : id ∈ s.finished ∨ ∃ (r : Nat) (run : Run) (call : Sync)
      (row : ScanRow), s.runs[r]? = some run ∧ run.phase = .scanning call ∧ run.scanID = id ∧
        s'.runs[r]? = some { run with phase := .closing } ∧
        s'.tables.recordAt id = some row ∧ row.state.ended = true ∧
        row.progress = call.progress := by
  cases moves_of_step h with
  | finishScan r now run scanErr found phase returned =>
    rcases List.mem_cons.mp listed with rfl | before
    · obtain ⟨row, here, running⟩ := records.running found phase
      refine .inr ⟨r, run, _, ScanTables.finished now _ scanErr row, found, phase, rfl,
        Transition.getElem?_set_here found, ?_, ?_, rfl⟩
      · rw [ScanTables.finishScan_recordAt, here, Option.map_some,
          if_pos ⟨ScanTables.id_of_recordAt here, running⟩]
      · rcases scanErr with _ | ⟨_ | text⟩ <;> rfl
    · exact .inl before
  | _ => exact .inl listed

end Process

/-! ### The counters of a run -/

namespace Process

variable {s : Process} {before after : Run} {id : UUID} {old : Progress}

theorem Turn.locationID (turn : Turn s before after) : after.locationID = before.locationID := by
  cases turn <;> rfl

theorem Turn.cancelling (turn : Turn s before after) (marked : before.cancelling = true) :
    after.cancelling = true := by
  cases turn with
  | cancel cancelling keeps => exact keeps marked
  | _ => exact marked

theorem Turn.stopped (turn : Turn s before after) (stopped : before.phase.stopped = true) :
    after.phase.stopped = true := by
  cases turn with
  | begin id gen claimed => simp [claimed, Phase.stopped] at stopped
  | refuse claimed => simp [claimed, Phase.stopped] at stopped
  | register id gen order tree pool begun => simp [begun, Phase.stopped] at stopped
  | sync scanning more => simp [scanning, Phase.stopped] at stopped
  | close scanning => rfl
  | release phase => rfl
  | same => exact stopped
  | cancel cancelling keeps => cases phase : before.phase <;> simp_all [Run.cancel, Phase.stopped]

theorem count_stopped {phase : Phase} (stopped : phase.stopped = true) : phase.count old = old := by
  cases phase <;> first | rfl | cases stopped

theorem count_cancel (run : Run) : run.cancel.phase.count old = run.phase.count old := by
  cases phase : run.phase with
  | scanning call =>
    simp only [Run.cancel, phase, Phase.count]
    cases moved : call.step .cancel with
    | none => rfl
    | some call' =>
      obtain ⟨g, _, rfl⟩ := Sync.onGroup_cases moved
      rfl
  | _ => simp [Run.cancel, phase, Phase.count]

/-- Counters only go up. -/
theorem Turn.count (turn : Turn s before after) (counted : old = before.phase.count old) :
    old ≤ after.phase.count old := by
  cases turn with
  | same => exact le_of_eq counted
  | begin id gen claimed => rw [claimed] at counted; exact le_of_eq counted
  | refuse claimed => rw [claimed] at counted; exact le_of_eq counted
  | register id gen order tree pool begun => rw [begun] at counted; exact le_of_eq counted
  | sync scanning more =>
    rw [scanning] at counted
    exact (le_of_eq counted).trans more
  | close scanning => exact le_rfl
  | release phase => exact le_rfl
  | cancel cancelling keeps => exact le_of_eq (counted.trans (count_cancel before).symm)

/-- A record is a run's from the start on. -/
theorem Turn.record (turn : Turn s before after) (holds : after.record = some id) :
    before.record = some id ∨ s.tables.recordAt id = none ∧ after.phase.recording = true := by
  cases turn with
  | same => exact .inl holds
  | begin id' gen claimed fresh =>
    cases holds
    exact .inr ⟨fresh, rfl⟩
  | refuse claimed => cases holds
  | register id' gen order tree pool begun =>
    cases holds
    exact .inl (by simp [Run.record, begun])
  | sync scanning more => exact .inl (by simpa [Run.record, scanning] using holds)
  | close scanning => exact .inl (by simpa [Run.record, scanning] using holds)
  | release phase => cases holds
  | cancel cancelling keeps => exact .inl ((cancel_record before).symm.trans holds)

/-- A run that is closing was so before, or was scanning. -/
theorem Turn.closing (turn : Turn s before after) (closing : after.phase = .closing) :
    before.phase = .closing ∨ before.phase.recording = true := by
  cases turn with
  | same => exact .inl closing
  | close scanning => exact .inr (by rw [scanning]; rfl)
  | cancel cancelling keeps => cases phase : before.phase <;> simp_all [Run.cancel, Phase.recording]
  | _ => cases closing

end Process

namespace Tracker

open Process

variable {pool : WorkerPool} {t t' : Tracker} {a : ProcessAction} {r : Nat} {run : Run}
  {id : UUID} {row : ScanRow}

/-- What a tracker keeps. The counters of a closing run are those in its record, if it ended. -/
structure Kept (t : Tracker) : Prop where
  inv : t.process.Inv
  records : t.process.Records
  rows : ∀ id row, t.recordAt id = some row →
    row.state ≠ .cancelling ∧ 0 ≤ row.progress ∧ (id ∉ t.process.finished → row.progress = 0)
  counted : ∀ r, t.counts r =
    ((t.process.runs[r]?).map fun run => run.phase.count (t.counts r)).getD 0
  positive : ∀ r, 0 ≤ t.counts r
  own : ∀ (r : Nat) run id row, t.process.runs[r]? = some run → run.record = some id →
    t.recordAt id = some row → row.locationID = run.locationID ∧
      (run.phase = .closing → row.state.ended = true → row.progress = t.counts r)

theorem empty_kept : empty.Kept := by
  refine ⟨empty_inv, empty_records, ?_, ?_, fun _ => le_rfl, ?_⟩
  · intro id row found
    cases found
  · exact fun _ => rfl
  · intro r run id row found
    cases found

theorem step_cases (h : t.step pool a = some t') : t.process.step pool a = some t'.process ∧
    ∀ r, t'.counts r =
      ((t'.process.runs[r]?).map fun run => run.phase.count (t.counts r)).getD 0 := by
  obtain ⟨s, moved, rfl⟩ := Option.map_eq_some_iff.mp h
  exact ⟨moved, fun _ => rfl⟩

theorem Kept.counted_run (kept : t.Kept) (found : t.process.runs[r]? = some run) :
    t.counts r = run.phase.count (t.counts r) := by
  have counted := kept.counted r
  rw [found] at counted
  exact counted

theorem counts_le (kept : t.Kept) (h : t.step pool a = some t') (alive : a.alive = true) (r : Nat) :
    t.counts r ≤ t'.counts r := by
  obtain ⟨moved, counts⟩ := step_cases h
  have turns := turns_of_step moved alive
  rw [counts]
  cases found : t.process.runs[r]? with
  | some run =>
    obtain ⟨run', there, turn⟩ := turns.onward r run found
    rw [there]
    exact turn.count (kept.counted_run found)
  | none =>
    have zero : t.counts r = 0 := by rw [kept.counted, found]; rfl
    cases there : t'.process.runs[r]? with
    | none => exact le_of_eq zero
    | some run' =>
      have claimed := turns.fresh r run' found there
      show t.counts r ≤ run'.phase.count (t.counts r)
      rw [claimed]
      exact le_of_eq zero

theorem no_runs_of_restart (h : t.step pool a = some t') (died : a.alive = false) (r : Nat) :
    t'.process.runs[r]? = none := by
  obtain ⟨moved, _⟩ := step_cases h
  cases a with
  | restart recovered =>
    rw [← Option.some.inj moved]
    rfl
  | _ => cases died

theorem Kept.progress_of_scanning (kept : t.Kept) {call : Sync}
    (found : t.process.runs[r]? = some run) (scanning : run.phase = .scanning call) :
    call.progress = t.counts r := by
  rw [kept.counted_run found, scanning]
  rfl

theorem ended_of_not_open {state : State} (running : state ≠ .running)
    (cancelling : state ≠ .cancelling) : state.ended = true := by
  cases state <;> first | rfl | contradiction

theorem ended_ne_running {state : State} (ended : state.ended = true) : state ≠ .running := by
  rintro rfl
  cases ended

theorem ended_outcome (scanErr : Option ScanError) :
    (ScanTables.outcome scanErr).ended = true := by
  rcases scanErr with _ | ⟨_ | text⟩ <;> rfl

theorem rows_of_step (kept : t.Kept) (h : t.step pool a = some t')
    (found : t'.recordAt id = some row) : row.state ≠ .cancelling ∧ 0 ≤ row.progress ∧
      (id ∉ t'.process.finished → row.progress = 0) := by
  obtain ⟨moved, _⟩ := step_cases h
  cases written_of_step kept.records moved id with
  | kept same =>
    obtain ⟨stored, positive, unrecorded⟩ := kept.rows id row (same.symm.trans found)
    exact ⟨stored, positive, fun absent => unrecorded fun old => absent (finished_subset moved old)⟩
  | begun run gen now absent inserted =>
    cases inserted.symm.trans found
    exact ⟨nofun, le_rfl, fun _ => rfl⟩
  | finished r run call now scanErr old there scanning scan here updated listed =>
    cases updated.symm.trans found
    refine ⟨?_, ?_, fun absent => absurd listed absent⟩
    · intro state
      have ended := ended_outcome scanErr
      rw [show ScanTables.outcome scanErr = .cancelling from state] at ended
      cases ended
    · show 0 ≤ call.progress
      rw [kept.progress_of_scanning there scanning]
      exact kept.positive r
  | aborted old now here open_ next updated =>
    cases updated.symm.trans found
    obtain ⟨_, positive, unrecorded⟩ := kept.rows id old here
    exact ⟨nofun, positive, fun absent =>
      unrecorded fun listed => absent (finished_subset moved listed)⟩

theorem live_of_record (holds : run.record = some id) : run.phase.live = true := by
  cases phase : run.phase <;> first | rfl | simp [Run.record, phase] at holds

theorem own_of_step (kept : t.Kept) (h : t.step pool a = some t') {run' : Run} {row' : ScanRow}
    (there : t'.process.runs[r]? = some run') (holds : run'.record = some id)
    (now_ : t'.recordAt id = some row') : row'.locationID = run'.locationID ∧
      (run'.phase = .closing → row'.state.ended = true → row'.progress = t'.counts r) := by
  obtain ⟨moved, counts⟩ := step_cases h
  have records := step_records kept.inv kept.records moved
  -- While the record is open, the row is running and of the location of the run.
  by_cases recording : run'.phase.recording = true
  · obtain ⟨row, here, facts⟩ := records.rows r run' id there holds
    cases here.symm.trans now_
    refine ⟨(facts recording).2, fun closing => ?_⟩
    rw [closing] at recording
    cases recording
  · have alive : a.alive = true := by
      by_contra died
      cases there.symm.trans (no_runs_of_restart h (Bool.eq_false_of_not_eq_true died) r)
    have turns := turns_of_step moved alive
    obtain ⟨run, found, turn⟩ : ∃ run, t.process.runs[r]? = some run ∧ Turn t.process run run' := by
      cases found : t.process.runs[r]? with
      | some run =>
        obtain ⟨x, there', turn⟩ := turns.onward r run found
        cases there'.symm.trans there
        exact ⟨run, rfl, turn⟩
      | none =>
        simp [Run.record, turns.fresh r run' found there] at holds
    have before : run.record = some id := by
      rcases turn.record holds with before | ⟨_, open_⟩
      · exact before
      · exact absurd open_ recording
    obtain ⟨row, here, facts⟩ := kept.records.rows r run id found before
    obtain ⟨location, closed⟩ := kept.own r run id row found before here
    have still : run'.phase = .closing → t'.counts r = t.counts r := by
      intro closing
      rw [counts, there]
      exact count_stopped (by rw [closing]; rfl)
    rw [turn.locationID]
    cases written_of_step kept.records moved id with
    | kept same =>
      cases (same.symm.trans now_).symm.trans here
      refine ⟨location, ?_⟩
      intro closing ended
      rw [still closing]
      rcases turn.closing closing with already | open_
      · exact closed already ended
      · exact absurd (facts open_).1 (ended_ne_running ended)
    | begun other gen now absent => cases absent.symm.trans here
    | finished r' other call now scanErr old found' scanning scan here' updated =>
      cases updated.symm.trans now_
      cases here'.symm.trans here
      obtain rfl := kept.records.distinct r' r other run id found' found
        (by simp [Run.record, scanning, scan]) before
      cases found'.symm.trans found
      refine ⟨location, fun closing _ => ?_⟩
      rw [still closing]
      exact kept.progress_of_scanning found scanning
    | aborted old now here' open_ next updated =>
      cases here'.symm.trans here
      obtain ⟨r', other, found', claimed, same'⟩ := next alive
      obtain rfl := kept.inv.claims.exclusive found' found (by rw [claimed]; rfl)
        (live_of_record before) (same'.trans location)
      cases found'.symm.trans found
      simp [Run.record, claimed] at before

theorem step_kept (kept : t.Kept) (h : t.step pool a = some t') : t'.Kept := by
  obtain ⟨moved, counts⟩ := step_cases h
  have grown : ∀ r, 0 ≤ t'.counts r := by
    intro r
    by_cases alive : a.alive = true
    · exact (kept.positive r).trans (counts_le kept h alive r)
    · rw [counts, no_runs_of_restart h (Bool.eq_false_of_not_eq_true alive)]
      exact le_rfl
  refine ⟨step_inv kept.inv moved, step_records kept.inv kept.records moved,
    fun id row => rows_of_step kept h, ?_, grown, fun r run id row => own_of_step kept h⟩
  intro r
  rw [counts]
  cases t'.process.runs[r]? with
  | none => rfl
  | some run =>
    show run.phase.count _ = run.phase.count (run.phase.count _)
    cases run.phase <;> rfl

theorem run_kept {acts : List ProcessAction} (kept : t.Kept)
    (ran : Transition.run (step pool) t acts = some t') : t'.Kept :=
  Transition.invariant_of_run (fun _ _ _ kept moved => step_kept kept moved) kept ran

/-! ### Many steps -/

theorem ended_of_run {acts : List ProcessAction} (kept : t.Kept)
    (ran : Transition.run (step pool) t acts = some t') (here : t.recordAt id = some row)
    (ended : row.state.ended = true) : t'.recordAt id = some row := by
  refine (Transition.invariant_of_run (I := fun t => t.Kept ∧ t.recordAt id = some row) ?_
    ⟨kept, here⟩ ran).2
  rintro u a u' ⟨kept, here⟩ h
  exact ⟨step_kept kept h, ended_of_step kept.records (step_cases h).1 here ended⟩

/-- A run goes on: its marks stay, its counters go up, and stop with it. -/
structure Onward (r : Nat) (run : Run) (t t' : Tracker) (run' : Run) : Prop where
  found : t'.process.runs[r]? = some run'
  cancelling : run.cancelling = true → run'.cancelling = true
  counts : t.counts r ≤ t'.counts r
  stopped : run.phase.stopped = true → run'.phase.stopped = true ∧ t'.counts r = t.counts r

theorem onward_of_step (kept : t.Kept) (h : t.step pool a = some t') (alive : a.alive = true)
    (found : t.process.runs[r]? = some run) : ∃ run', Onward r run t t' run' := by
  obtain ⟨moved, counts⟩ := step_cases h
  obtain ⟨run', there, turn⟩ := (turns_of_step moved alive).onward r run found
  refine ⟨run', there, turn.cancelling, counts_le kept h alive r, ?_⟩
  intro stopped
  refine ⟨turn.stopped stopped, ?_⟩
  rw [counts, there]
  exact count_stopped (turn.stopped stopped)

theorem onward_of_reaches (kept : t.Kept) (reaches : Reaches pool t t')
    (found : t.process.runs[r]? = some run) : ∃ run', Onward r run t t' run' := by
  obtain ⟨acts, alive, ran⟩ := reaches
  induction acts generalizing t run with
  | nil =>
    cases ran
    exact ⟨run, found, id, le_rfl, fun stopped => ⟨stopped, rfl⟩⟩
  | cons a acts ih =>
    obtain ⟨u, first, rest⟩ := Option.bind_eq_some_iff.mp ran
    obtain ⟨mid, there, marked, more, stopped⟩ :=
      onward_of_step kept first (alive a List.mem_cons_self) found
    obtain ⟨run', there', marked', more', stopped'⟩ := ih (step_kept kept first) there
      (fun b member => alive b (List.mem_cons_of_mem a member)) rest
    refine ⟨run', there', marked' ∘ marked, more.trans more', ?_⟩
    intro ends
    obtain ⟨midStopped, same⟩ := stopped ends
    exact ⟨(stopped' midStopped).1, (stopped' midStopped).2.trans same⟩

/-- What a lookup that finds a run knows from then on: no other run has the record, and once it
is finished, it has the counters. -/
structure Carried (id : UUID) (r : Nat) (t : Tracker) : Prop where
  only : ∀ (r' : Nat) run, t.process.runs[r']? = some run → run.record = some id → r' = r
  opened : ∃ row, t.recordAt id = some row
  recorded : id ∈ t.process.finished → ∃ row run, t.recordAt id = some row ∧
    t.process.runs[r]? = some run ∧ run.phase.stopped = true ∧ row.state.ended = true ∧
    row.progress = t.counts r

theorem record_of_registered (registered : run.phase.registered = true) :
    run.record = some run.scanID := by
  cases phase : run.phase <;> simp_all [Run.record, Phase.registered]

theorem carried_of_found (kept : t.Kept) (found : t.process.byScan id = some r) :
    ∃ run, t.process.runs[r]? = some run ∧ run.record = some id ∧ Carried id r t := by
  obtain ⟨run, there, registered, rfl⟩ := kept.inv.claims.registered id r found
  have holds := record_of_registered registered
  obtain ⟨row, here, facts⟩ := kept.records.rows r run _ there holds
  refine ⟨run, there, holds, ?_, ⟨row, here⟩, ?_⟩
  · exact fun r' other there' holds' =>
      kept.records.distinct r' r other run _ there' there holds' holds
  · intro listed
    obtain ⟨row', here', notRunning, notCancelling⟩ := kept.records.finished _ listed
    cases here'.symm.trans here
    have ended := ended_of_not_open notRunning notCancelling
    have closing : run.phase = .closing := by
      cases phase : run.phase with
      | closing => rfl
      | scanning call => exact absurd (facts (by rw [phase]; rfl)).1 notRunning
      | _ => simp [phase, Phase.registered] at registered
    exact ⟨row, run, here, there, by rw [closing]; rfl, ended,
      (kept.own r run _ row there holds here).2 closing ended⟩

theorem carried_of_step (kept : t.Kept) (carried : Carried id r t) (h : t.step pool a = some t')
    (alive : a.alive = true) : Carried id r t' := by
  obtain ⟨moved, counts⟩ := step_cases h
  obtain ⟨row, here⟩ := carried.opened
  refine ⟨?_, ?_, ?_⟩
  · intro r' run' there holds
    have turns := turns_of_step moved alive
    cases found : t.process.runs[r']? with
    | none => simp [Run.record, turns.fresh r' run' found there] at holds
    | some run =>
      obtain ⟨after, there', turn⟩ := turns.onward r' run found
      cases there'.symm.trans there
      rcases turn.record holds with before | ⟨absent, _⟩
      · exact carried.only r' run found before
      · cases absent.symm.trans here
  · cases written_of_step kept.records moved id with
    | kept same => exact ⟨row, same.trans here⟩
    | begun run gen now absent inserted => exact ⟨_, inserted⟩
    | finished r' run call now scanErr old found scanning scan here' updated => exact ⟨_, updated⟩
    | aborted old now here' open_ next updated => exact ⟨_, updated⟩
  · intro listed
    rcases finished_of_step kept.records moved listed with old | new
    · obtain ⟨row', run, here', found, stopped, ended, progress⟩ := carried.recorded old
      obtain ⟨run', onward⟩ := onward_of_step kept h alive found
      obtain ⟨stillStopped, same⟩ := onward.stopped stopped
      exact ⟨row', run', ended_of_step kept.records moved here' ended, onward.found, stillStopped,
        ended, progress.trans same.symm⟩
    · obtain ⟨r', run, call, row', found, scanning, scan, closes, written, ended, progress⟩ := new
      obtain rfl := carried.only r' run found (by simp [Run.record, scanning, scan])
      refine ⟨row', _, written, closes, rfl, ended, ?_⟩
      rw [progress, kept.progress_of_scanning found scanning, counts, closes]
      rfl

theorem carried_of_reaches (kept : t.Kept) (carried : Carried id r t)
    (reaches : Reaches pool t t') : Carried id r t' := by
  obtain ⟨acts, alive, ran⟩ := reaches
  induction acts generalizing t with
  | nil =>
    cases ran
    exact carried
  | cons a acts ih =>
    obtain ⟨u, first, rest⟩ := Option.bind_eq_some_iff.mp ran
    exact ih (step_kept kept first)
      (carried_of_step kept carried first (alive a List.mem_cons_self))
      (fun b member => alive b (List.mem_cons_of_mem a member)) rest

/-! ### Two answers -/

namespace Request

variable {asked : Tracker}

theorem kept_looked (q : Request pool id asked) (kept : asked.Kept) : q.looked.Kept := by
  obtain ⟨acts, _, ran⟩ := q.finds
  exact run_kept kept ran

theorem kept_answered (q : Request pool id asked) (kept : asked.Kept) : q.answered.Kept := by
  obtain ⟨acts, _, ran⟩ := q.loads
  exact run_kept (q.kept_looked kept) ran

/-- The answer on a scan that had ended is its record. -/
theorem report_of_ended (q : Request pool id asked) (kept : asked.Kept)
    (ended : q.row.state.ended = true) : q.report = scanScan q.row := by
  unfold report overlay
  cases found : q.found with
  | none => rfl
  | some r =>
    have looked := q.kept_looked kept
    obtain ⟨run, there, registered, scan⟩ := looked.inv.claims.registered id r found
    have here : q.looked.recordAt id = some q.row := by
      obtain ⟨acts, _, ran⟩ := q.finds
      exact ended_of_run kept ran q.read ended
    have holds : run.record = some id := scan ▸ record_of_registered registered
    obtain ⟨row, here', facts⟩ := looked.records.rows r run id there holds
    cases here'.symm.trans here
    have closing : run.phase = .closing := by
      cases phase : run.phase with
      | closing => rfl
      | scanning call => exact absurd (facts (by rw [phase]; rfl)).1 (ended_ne_running ended)
      | _ => simp [phase, Phase.registered] at registered
    obtain ⟨run', onward⟩ := onward_of_reaches looked q.loads there
    have counters : q.answered.counts r = q.row.progress := by
      rw [(onward.stopped (by rw [closing]; rfl)).2]
      exact ((looked.own r run id q.row there holds here).2 closing ended).symm
    have open_ : ¬ ((scanScan q.row).state = .running ∧
        (q.answered.process.runs[r]?).any Run.cancelling = true) :=
      fun both => ended_ne_running ended both.1
    show ({ scanScan q.row with progress := q.answered.counts r, state := _ } : ScanRecord) = _
    rw [if_neg open_, counters]
    rfl

theorem report_state (q : Request pool id asked) :
    q.report.state = q.row.state ∨ q.row.state = .running ∧ q.report.state = .cancelling := by
  unfold report overlay
  cases q.found with
  | none => exact .inl rfl
  | some r =>
    show (if _ then _ else _) = _ ∨ _
    split
    · rename_i both
      exact .inr ⟨both.1, if_pos both⟩
    · exact .inl rfl

theorem report_ended (q : Request pool id asked) :
    q.report.state.ended = q.row.state.ended := by
  rcases q.report_state with same | ⟨running, cancelling⟩
  · rw [same]
  · rw [running, cancelling]
    rfl

theorem report_progress (q : Request pool id asked) (found : q.found = some r) :
    q.report.progress = q.answered.counts r := by
  unfold report overlay
  rw [found]

theorem report_positive (q : Request pool id asked) (kept : asked.Kept) :
    0 ≤ q.report.progress := by
  cases found : q.found with
  | none =>
    unfold report overlay
    rw [found]
    exact (kept.rows id q.row q.read).2.1
  | some r =>
    rw [q.report_progress found]
    exact (q.kept_answered kept).positive r

theorem report_ident (q : Request pool id asked) :
    (q.report.id, q.report.locationID, q.report.startTime) =
      (q.row.id, q.row.locationID, q.row.startTime) := by
  unfold report overlay
  cases q.found <;> rfl

/-- It answers cancelling for a run that is marked so. -/
theorem report_cancelling_iff (q : Request pool id asked) (running : q.row.state = .running)
    (found : q.found = some r) (there : q.answered.process.runs[r]? = some run) :
    q.report.state = .cancelling ↔ run.cancelling = true := by
  have marked : q.report.state = if (scanScan q.row).state = .running ∧
      (q.answered.process.runs[r]?).any Run.cancelling then .cancelling
      else (scanScan q.row).state := by
    unfold report overlay
    rw [found]
  have stored : (scanScan q.row).state = .running := running
  rw [marked, stored, there]
  by_cases cancelling : run.cancelling = true <;> simp [cancelling]

/-- Without a run, the counts are those of the record, which starts at zero. -/
theorem report_of_missed (q : Request pool id asked) (kept : asked.Kept)
    (missed : q.found = none) (open_ : id ∉ asked.process.finished) :
    q.report = scanScan q.row ∧ q.report.progress = 0 := by
  have same : q.report = scanScan q.row := by
    unfold report overlay
    rw [missed]
  exact ⟨same, same ▸ (kept.rows id q.row q.read).2.2 open_⟩

end Request

theorem Reaches.trans {u : Tracker} (first : Reaches pool t u) (second : Reaches pool u t') :
    Reaches pool t t' := by
  obtain ⟨acts, alive, ran⟩ := first
  obtain ⟨more, alive', ran'⟩ := second
  refine ⟨acts ++ more, ?_, ?_⟩
  · intro a member
    exact (List.mem_append.mp member).elim (alive a) (alive' a)
  · rw [Transition.run_append, ran]
    exact ran'

/-- The columns that no statement writes again. -/
theorem ident_of_run {acts : List ProcessAction} (kept : t.Kept)
    (ran : Transition.run (step pool) t acts = some t') (here : t.recordAt id = some row) :
    ∃ row', t'.recordAt id = some row' ∧
      (row'.id, row'.locationID, row'.startTime) = (row.id, row.locationID, row.startTime) := by
  refine (Transition.invariant_of_run (I := fun t => t.Kept ∧ ∃ row', t.recordAt id = some row' ∧
    (row'.id, row'.locationID, row'.startTime) = (row.id, row.locationID, row.startTime)) ?_
    ⟨kept, row, here, rfl⟩ ran).2
  rintro u a u' ⟨kept, old, here, same⟩ h
  refine ⟨step_kept kept h, ?_⟩
  cases written_of_step kept.records (step_cases h).1 id with
  | kept kept_ => exact ⟨old, kept_.trans here, same⟩
  | begun run gen now absent => cases absent.symm.trans here
  | finished r run call now scanErr old' found scanning scan here' updated =>
    cases here'.symm.trans here
    exact ⟨_, updated, same⟩
  | aborted old' now here' open_ next updated =>
    cases here'.symm.trans here
    exact ⟨_, updated, same⟩

namespace Request

variable (first : Request pool id t) (kept : t.Kept)

theorem reaches : Reaches pool t first.answered := first.finds.trans first.loads

include kept

/-- The row of the scan when the answer is given. -/
theorem row_answered : ∃ row, first.answered.recordAt id = some row ∧
    (row.id, row.locationID, row.startTime) =
      (first.row.id, first.row.locationID, first.row.startTime) := by
  obtain ⟨acts, _, ran⟩ := first.reaches
  exact ident_of_run kept ran first.read

/-- The answer on a scan that ended is given again. -/
theorem repeats_of_ended (ended : first.row.state.ended = true) {later : List ProcessAction}
    (ran : Transition.run (step pool) first.answered later = some t')
    (second : Request pool id t') : second.report = first.report := by
  obtain ⟨acts, _, ran'⟩ := first.reaches
  have answered := first.kept_answered kept
  have atAnswered := ended_of_run kept ran' first.read ended
  have same : second.row = first.row :=
    Option.some.inj (second.read.symm.trans (ended_of_run answered ran atAnswered ended))
  rw [first.report_of_ended kept ended,
    second.report_of_ended (run_kept answered ran) (same ▸ ended), same]

/-- While it runs, a run that was found is not lost by a second lookup, unless it was released
before its record was finished. -/
theorem advances_of_found (running : first.row.state = .running) (found : first.found = some r)
    (reaches : Reaches pool first.answered t') (second : Request pool id t')
    (ident : (second.report.id, second.report.locationID, second.report.startTime) =
      (first.report.id, first.report.locationID, first.report.startTime)) :
    first.report.Advances second.report ∨
      id ∉ t'.process.finished ∧ second.found = none ∧ second.report.progress = 0 := by
  have looked := first.kept_looked kept
  have answered := first.kept_answered kept
  have kept' : t'.Kept := by
    obtain ⟨acts, _, ran⟩ := reaches
    exact run_kept answered ran
  have open_ : first.report.state.ended ≠ true := by
    rw [first.report_ended, running]
    nofun
  obtain ⟨run, there, _, carried⟩ := carried_of_found looked found
  obtain ⟨loaded, onward⟩ := onward_of_reaches looked first.loads there
  have carried' := carried_of_reaches looked carried (first.loads.trans reaches)
  obtain ⟨run', onward'⟩ := onward_of_reaches answered reaches onward.found
  by_cases listed : id ∈ t'.process.finished
  · obtain ⟨row, _, here, _, _, ended, progress⟩ := carried'.recorded listed
    cases here.symm.trans second.read
    have same := second.report_of_ended kept' ended
    refine .inl ⟨ident, fun h => absurd h open_, fun _ => ?_, ?_⟩
    · rw [same]
      exact ended_ne_running ended
    · rw [same, first.report_progress found]
      exact onward'.counts.trans (le_of_eq progress.symm)
  cases found' : second.found with
  | none => exact .inr ⟨listed, rfl, (second.report_of_missed kept' found' listed).2⟩
  | some r' =>
    obtain ⟨_, there', holds, _⟩ := carried_of_found (second.kept_looked kept') found'
    obtain rfl := (carried_of_reaches kept' carried' second.finds).only r' _ there' holds
    obtain ⟨last, onward₂⟩ := onward_of_reaches kept' second.reaches onward'.found
    refine .inl ⟨ident, fun h => absurd h open_, ?_, ?_⟩
    · intro cancelling running'
      have marked := (first.report_cancelling_iff running found onward.found).mp cancelling
      have stored : second.row.state = .running := by
        rcases second.report_state with same | ⟨stored, _⟩
        · exact same.symm.trans running'
        · exact stored
      have marked' := onward₂.cancelling (onward'.cancelling marked)
      have := (second.report_cancelling_iff stored found' onward₂.found).mpr marked'
      cases running'.symm.trans this
    · rw [first.report_progress found, second.report_progress found']
      exact onward'.counts.trans onward₂.counts

end Request

/-- Of two answers on a scan, the second goes on from the first: nothing happens to a scan that
ended, a cancelling one does not run on, and no count goes down. If it was still open, this is
unless the process died in between, or the second request read the record before it was finished
and looked for the run after it was released: then it answers with the counts of a new scan. -/
theorem reports_advance (pool : WorkerPool) {acts later : List ProcessAction}
    (reached : Transition.run (step pool) empty acts = some t) (first : Request pool id t)
    (ran : Transition.run (step pool) first.answered later = some t')
    (second : Request pool id t') :
    (first.report.state.ended = true → second.report = first.report) ∧
      ((∀ a ∈ later, a.alive = true) → first.report.Advances second.report ∨
        id ∉ t'.process.finished ∧ second.found = none ∧ second.report.progress = 0) := by
  have kept : t.Kept := run_kept empty_kept reached
  have answered := first.kept_answered kept
  have kept' : t'.Kept := run_kept answered ran
  refine ⟨fun ended => first.repeats_of_ended kept (first.report_ended ▸ ended) ran second, ?_⟩
  intro alive
  by_cases ended : first.row.state.ended = true
  · have same := first.repeats_of_ended kept ended ran second
    have stays : first.report.state.ended = true := first.report_ended ▸ ended
    refine .inl ⟨by rw [same], fun _ => same, fun _ => ?_, le_of_eq (by rw [same])⟩
    rw [same]
    exact ended_ne_running stays
  have running : first.row.state = .running := by
    have stored := (kept.rows id first.row first.read).1
    cases state : first.row.state <;> simp_all [State.ended]
  have ident : (second.report.id, second.report.locationID, second.report.startTime) =
      (first.report.id, first.report.locationID, first.report.startTime) := by
    obtain ⟨row, here, same⟩ := first.row_answered kept
    obtain ⟨row', read, same'⟩ := ident_of_run answered ran here
    cases read.symm.trans second.read
    rw [first.report_ident, second.report_ident, same', same]
  cases found : first.found with
  | none =>
    have unfinished : id ∉ t.process.finished := by
      intro listed
      obtain ⟨row, read, notRunning, _⟩ := kept.records.finished id listed
      cases read.symm.trans first.read
      exact notRunning running
    obtain ⟨same, zero⟩ := first.report_of_missed kept found unfinished
    have state : first.report.state = .running := by rw [same]; exact running
    refine .inl ⟨ident, fun h => ?_, fun cancelling => ?_, ?_⟩
    · exact absurd state (ended_ne_running h)
    · cases state.symm.trans cancelling
    · rw [zero]
      exact second.report_positive kept'
  | some r => exact first.advances_of_found kept running found ⟨later, alive, ran⟩ second ident

theorem Reaches.refl (t : Tracker) : Reaches pool t t := ⟨[], by simp, rfl⟩

/-- A request that nothing interrupts. -/
def Request.uninterrupted (read : t.recordAt id = some row) : Request pool id t :=
  ⟨row, read, t, .refl t, t, .refl t⟩

/-- What listings overlay is what uninterrupted requests answer. -/
theorem scan_eq_overlay {s : LiveScans} (tables : s.db.storage = t.process.tables)
    (runs : ∀ id, lookup LiveRun.scanID id s.byScan = do
      let r ← t.process.byScan id
      let run ← t.process.runs[r]?
      return ⟨id, run.locationID, t.counts r, run.cancelling⟩)
    (kept : t.Kept) (id : UUID) : s.scan id = t.scan id := by
  unfold LiveScans.scan scan recordAt ScanTables.recordAt
  rw [tables]
  refine Option.map_congr fun row here => ?_
  obtain rfl : row.id = id := key_of_lookup here
  unfold LiveScans.overlay overlay
  rw [show lookup LiveRun.scanID (scanScan row).id s.byScan = _ from runs row.id]
  cases found : t.process.byScan row.id with
  | none => rfl
  | some r =>
    obtain ⟨run, there, _⟩ := kept.inv.claims.registered row.id r found
    simp [there]

/-- The scan is cancelled while the root is on its way. -/
def cancelledMidway : List ProcessAction := cancelledScan.take 7

/-- The rest of it up to `FinishScan`. -/
def unwound : List ProcessAction := (cancelledScan.drop 7).take 4

/-- A request that reads the record before `FinishScan` and looks for the run after its release
answers running, when cancelling was the answer before. -/
theorem cancelledScan_reported : ∃ (t t' : Tracker) (first : Request oneWorker 7 t)
    (second : Request oneWorker 7 t'), first.report.state = .cancelling ∧
      second.report.state = .running ∧
      (first.report.Advances second.report ∨
        7 ∉ t'.process.finished ∧ second.found = none ∧ second.report.progress = 0) := by
  have answers : ((Transition.run (step oneWorker) empty cancelledMidway).bind fun t =>
      (t.scan 7).bind fun report => (Transition.run (step oneWorker) t unwound).bind fun t' =>
      (t'.recordAt 7).bind fun row =>
        (Transition.run (step oneWorker) t' [.finishScan 0 1, .release 0]).map fun u =>
          (report.state, (u.overlay (u.process.byScan 7) (scanScan row)).state)) =
      some (.cancelling, .running) := by decide
  obtain ⟨t, reached, answers⟩ := Option.bind_eq_some_iff.mp answers
  obtain ⟨report, scanned, answers⟩ := Option.bind_eq_some_iff.mp answers
  obtain ⟨t', unwinds, answers⟩ := Option.bind_eq_some_iff.mp answers
  obtain ⟨row', read', answers⟩ := Option.bind_eq_some_iff.mp answers
  obtain ⟨u, closes, states⟩ := Option.map_eq_some_iff.mp answers
  obtain ⟨row, read, rfl⟩ := Option.map_eq_some_iff.mp scanned
  obtain ⟨cancelling, running⟩ := Prod.mk.inj states
  let first : Request oneWorker 7 t := .uninterrupted read
  let second : Request oneWorker 7 t' :=
    ⟨row', read', u, ⟨_, by decide, closes⟩, u, .refl u⟩
  exact ⟨t, t', first, second, cancelling, running,
    (reports_advance oneWorker reached first unwinds second).2 (by decide)⟩

end Tracker

end Byom.Scan
