import Byom.Metadata.Catalog
import Byom.Scan.CleanSync
import Byom.Scan.LiveFiles

/-!
# The scanner beside the pipeline

`Server` is what `main` wires together: the scans of the scanner, and the pipeline with the
importer, over one database. `OnDirty` wakes the pipeline. Each of the two was modelled with
the other left open; here they move together, and the library is compared with what the
scans walked.
-/

namespace Byom

open Storage Relational Sqlite Scan Metadata Transition

/-! ### The system -/

/-- The tables of the scanner are those of the pipeline. -/
structure Server where
  ingest : Ingest
  byLoc : UUID → Option ScanRun

namespace Server

/-- The location whose `OnDirty` calls the action waits for. -/
def awaits : Scan.Action → Option UUID
  | .sweep loc => some loc
  | .finish loc _ _ => some loc
  | _ => none

/-- The transactions of a scan. -/
def ofScan : Metadata.Action → Bool
  | .beginScan .. | .syncDir .. | .sweep _ | .finishScan .. => true
  | _ => false

inductive Action where
  | scan (a : Scan.Action)
  | ingest (a : Ingest.Action)

def scanner (s : Server) : Scanner := ⟨s.ingest.pipe.tables, s.byLoc⟩

/-- The transaction of an action of a scan. A load writes nothing. -/
def write (s : Server) : Scan.Action → Option Metadata.Action
  | .start loc now scanID _ _ _ => some (.beginScan loc now scanID)
  | .commit loc i newDirID newFileID => (s.scanner.payloadAt loc i).map (.syncDir newDirID newFileID)
  | .sweep loc => some (.sweep loc)
  | .finish loc now scanErr =>
    (s.scanner.active loc).map fun run => .finishScan loc now run.progress scanErr
  | _ => none

def scan (s : Server) (a : Scan.Action) : Option Server := do
  let moved ← s.scanner.step a
  match s.write a with
  | none => return ⟨s.ingest, moved.byLoc⟩
  | some b => return ⟨← s.ingest.pipeline b, moved.byLoc⟩

def step (libs : Libraries) (s : Server) : Action → Option Server
  | .scan a => if a.scanOf.isSome then s.scan a else none
  | .ingest (.pipeline a) =>
    if ofScan a then none else (s.ingest.pipeline a).map fun ingest => ⟨ingest, s.byLoc⟩
  | .ingest (.restart now n) => some ⟨s.ingest.restart now n, fun _ => none⟩
  | .ingest a => (s.ingest.step libs a).map fun ingest => ⟨ingest, s.byLoc⟩

/-- A new installation, with `n` workers in the pipeline. -/
def empty (n : Nat) : Server := ⟨.empty n, fun _ => none⟩

def Reachable (libs : Libraries) (s : Server) : Prop := ∃ n acts, run (step libs) (empty n) acts = some s

/-- What the pipeline and the importer do in an action. -/
def ingestAction (s : Server) : Action → Option Ingest.Action
  | .scan a => (s.write a).map .pipeline
  | .ingest a => some a

variable {libs : Libraries} {s s' : Server} {loc : UUID}

/-! ### The scans in flight -/

/-- The pipeline knows of the scans that are in flight. -/
def Linked (scanning : List ScanInFlight) (byLoc : UUID → Option ScanRun) : Prop :=
  ∀ loc, scanning.find? (fun r => r.locationID = loc) =
    ((byLoc loc).filter ScanRun.inFlight).map fun run => ⟨loc, run.scanID, run.gen⟩

theorem Linked.none_ : Linked [] fun _ => none := fun _ => rfl

theorem Linked.begin {scanning : List ScanInFlight} {byLoc : UUID → Option ScanRun} {run : ScanRun}
    {scanID : UUID} {gen : Int} (linked : Linked scanning byLoc) (sameID : run.scanID = scanID)
    (sameGen : run.gen = gen) (inFlight : run.inFlight = true) :
    Linked (⟨loc, scanID, gen⟩ :: scanning) (Function.update byLoc loc (some run)) := by
  intro other
  by_cases here : other = loc
  · subst here
    simp [Option.filter_some, inFlight, sameID, sameGen]
  · rw [Function.update_of_ne here, List.find?_cons_of_neg (by simpa using Ne.symm here)]
    exact linked other

/-- A scan goes on. -/
theorem Linked.update {scanning : List ScanInFlight} {byLoc : UUID → Option ScanRun}
    {old run : ScanRun} (linked : Linked scanning byLoc)
    (active : (byLoc loc).filter ScanRun.inFlight = some old) (scanID : run.scanID = old.scanID)
    (gen : run.gen = old.gen) (inFlight : run.inFlight = true) :
    Linked scanning (Function.update byLoc loc (some run)) := by
  intro other
  by_cases here : other = loc
  · subst here
    rw [linked other, active, Function.update_self, Option.filter_some, if_pos inFlight]
    simp [scanID, gen]
  · rw [Function.update_of_ne here]
    exact linked other

theorem Linked.finish {scanning : List ScanInFlight} {byLoc : UUID → Option ScanRun} {run : ScanRun}
    (linked : Linked scanning byLoc) (ended : run.inFlight = false) :
    Linked (scanning.filter fun r => r.locationID ≠ loc) (Function.update byLoc loc (some run)) := by
  intro other
  rw [List.find?_filter]
  by_cases here : other = loc
  · subst here
    simp [Option.filter_some, ended]
  · rw [Function.update_of_ne here, ← linked other]
    congr 1
    funext r
    by_cases at_ : r.locationID = other
    · simp [at_, here]
    · simp [at_]

/-! ### The transactions of the scans -/

theorem isActive_of_linked {scanning : List ScanInFlight} {byLoc : UUID → Option ScanRun}
    {run : ScanRun} (linked : Linked scanning byLoc)
    (active : (byLoc loc).filter ScanRun.inFlight = some run) :
    scanning.find? (fun r => r.locationID = loc) = some ⟨loc, run.scanID, run.gen⟩ := by
  rw [linked loc, active]
  rfl

/-- A payload that is not dirty changes no file row. -/
theorem files_of_clean {t t' : ScanTables} {gen : Int} {force : Bool} {known : List File}
    {res : WalkResult} {newDirID d : UUID} {newFileID : Path → UUID}
    (h : t.syncDir newDirID newFileID (syncPayload loc gen force known res) = .ok (t', d)) :
    (syncPayload loc gen force known res).dirty = true ∨ t'.files = t.files := by
  cases dirty : (syncPayload loc gen force known res).dirty with
  | true => exact .inl rfl
  | false =>
    right
    have empty : (syncPayload loc gen force known res).changed = [] ∧
        (syncPayload loc gen force known res).missing = [] := by
      simp only [syncPayload, computeChangeset, Bool.or_eq_false_iff, decide_eq_false_iff_not,
        Nat.pos_iff_ne_zero, not_not, List.length_eq_zero_iff] at dirty ⊢
      exact ⟨dirty.1.2, dirty.1.1⟩
    obtain ⟨u, first, second⟩ := ScanTables.syncDir_spec h
    obtain ⟨rfl, _⟩ := ScanTables.upsertDir_spec first
    rw [empty.1, empty.2] at second
    cases second
    exact updateWhere_eq_self _ (by simp)

/-- What the pipeline takes a scan for is what the scan does: its transaction is enabled
beside the pipeline, if `OnDirty` was called for all its dirty dirs before it sweeps or ends. -/
theorem Linked.write (linked : Linked s.ingest.pipe.scanning s.byLoc) (inv : s.scanner.Inv)
    {a : Scan.Action} {moved : Scanner} (stepped : s.scanner.step a = some moved)
    {b : Metadata.Action} (written : s.write a = some b) :
    (∃ loc, awaits a = some loc ∧ loc ∈ s.ingest.pipe.onDirty) ∧
        s.ingest.pipe.step (fun _ => ()) b = none ∨
      ∃ pipe, s.ingest.pipe.step (fun _ => ()) b = some pipe ∧ pipe.tables = moved.tables ∧
        Linked pipe.scanning moved.byLoc := by
  cases a with
  | start loc now scanID force order tree =>
    cases written
    obtain ⟨idle, t, gen, began, rfl⟩ := Scanner.start_cases stepped
    have free : s.ingest.pipe.scanning.find? (fun r => r.locationID = loc) = none := by
      rw [linked loc]
      exact Option.map_eq_none_iff.mpr idle
    have began : s.ingest.pipe.tables.beginScan now scanID loc = .ok (t, gen) := began
    have moves : s.ingest.pipe.step (fun _ => ()) (.beginScan loc now scanID) =
        some { s.ingest.pipe with
          tables := t
          scanning := ⟨loc, scanID, gen⟩ :: s.ingest.pipe.scanning } := by
      simp only [Pipeline.step, Pipeline.beginScan, began]
      exact if_neg (by simpa using free)
    exact .inr ⟨_, moves, rfl, linked.begin rfl rfl rfl⟩
  | commit loc i newDirID newFileID =>
    obtain ⟨run, res, known, t, d, active, taken, synced, rfl⟩ := Scanner.commit_cases stepped
    have payload : s.scanner.payloadAt loc i = some (syncPayload loc run.gen run.force known res) := by
      simp [Scanner.payloadAt, active, taken]
    rw [Server.write, payload] at written
    cases written
    have inside := (inv.tracks loc run (Scanner.active_some active)).missingInside inv.wellFormed
      (List.mem_of_getElem? taken)
    have scans := List.mem_of_find?_eq_some (isActive_of_linked linked active)
    have allowed : s.ingest.pipe.scanning.any (fun r => r.locationID = loc ∧ r.gen = run.gen) = true :=
      List.any_eq_true.mpr ⟨_, scans, by simp⟩
    have synced : s.ingest.pipe.tables.syncDir newDirID newFileID
        (syncPayload loc run.gen run.force known res) = .ok (t, d) := synced
    have moves : ∃ onDirty failedSince, s.ingest.pipe.step (fun _ => ())
        (.syncDir newDirID newFileID (syncPayload loc run.gen run.force known res)) =
        some { s.ingest.pipe with tables := t, onDirty, failedSince } := by
      simp only [Pipeline.step, Pipeline.syncDir, synced]
      rw [if_pos ⟨allowed, inside⟩, if_pos (files_of_clean synced)]
      exact ⟨_, _, rfl⟩
    obtain ⟨onDirty, failedSince, moves⟩ := moves
    have inFlight := (Scanner.active_eq_some_iff.mp active).2
    exact .inr ⟨_, moves, rfl, linked.update active rfl rfl inFlight⟩
  | sweep loc =>
    cases written
    obtain ⟨run, active, _, _, rfl⟩ := Scanner.sweep_cases stepped
    have here := isActive_of_linked linked active
    by_cases waits : loc ∈ s.ingest.pipe.onDirty
    · exact .inl ⟨⟨loc, rfl, waits⟩, by simp [Pipeline.step, Pipeline.sweep, here, waits]⟩
    · have moves : s.ingest.pipe.step (fun _ => ()) (.sweep loc) =
          some { s.ingest.pipe with tables := (s.ingest.pipe.tables.sweep loc run.gen).1 } := by
        simp only [Pipeline.step, Pipeline.sweep, here, Option.bind_eq_bind, Option.bind_some]
        exact if_neg waits
      have inFlight := (Scanner.active_eq_some_iff.mp active).2
      exact .inr ⟨_, moves, rfl, linked.update active rfl rfl inFlight⟩
  | finish loc now scanErr =>
    obtain ⟨run, active, _, rfl⟩ := Scanner.finish_cases stepped
    rw [Server.write, active] at written
    cases written
    have here := isActive_of_linked linked active
    by_cases waits : loc ∈ s.ingest.pipe.onDirty
    · exact .inl ⟨⟨loc, rfl, waits⟩, by simp [Pipeline.step, Pipeline.finishScan, here, waits]⟩
    · have moves : s.ingest.pipe.step (fun _ => ()) (.finishScan loc now run.progress scanErr) =
          some { s.ingest.pipe with
            tables := s.ingest.pipe.tables.finishScan now run.scanID run.progress scanErr
            scanning := s.ingest.pipe.scanning.filter fun r => r.locationID ≠ loc } := by
        simp only [Pipeline.step, Pipeline.finishScan, here, Option.bind_eq_bind, Option.bind_some]
        exact if_neg waits
      exact .inr ⟨_, moves, rfl, linked.finish rfl⟩
  | _ => cases written

/-- A scan without a transaction loads the files of a dir. -/
theorem Linked.load (linked : Linked s.ingest.pipe.scanning s.byLoc) {a : Scan.Action}
    (own : a.scanOf.isSome) {moved : Scanner} (stepped : s.scanner.step a = some moved)
    (silent : s.write a = none) : s.ingest.pipe.tables = moved.tables ∧
      Linked s.ingest.pipe.scanning moved.byLoc := by
  cases a with
  | start loc now scanID force order tree => cases silent
  | load loc i =>
    obtain ⟨run, res, active, _, rfl⟩ := Scanner.load_cases stepped
    have inFlight := (Scanner.active_eq_some_iff.mp active).2
    exact ⟨rfl, linked.update active rfl rfl inFlight⟩
  | commit loc i newDirID newFileID =>
    obtain ⟨run, res, known, t, d, active, taken, _, rfl⟩ := Scanner.commit_cases stepped
    simp [Server.write, Scanner.payloadAt, active, taken] at silent
  | sweep loc => cases silent
  | finish loc now scanErr =>
    obtain ⟨run, active, _, rfl⟩ := Scanner.finish_cases stepped
    simp [Server.write, active] at silent
  | _ => cases own

/-! ### Steps -/

theorem scan_cases {a : Scan.Action} (h : s.step libs (.scan a) = some s') : a.scanOf.isSome ∧
    ∃ moved, s.scanner.step a = some moved ∧ s'.byLoc = moved.byLoc ∧
      (s.write a = none ∧ s'.ingest = s.ingest ∨
        ∃ b, s.write a = some b ∧ s.ingest.pipeline b = some s'.ingest) := by
  simp only [step] at h
  split at h
  · rename_i own
    refine ⟨own, ?_⟩
    obtain ⟨moved, stepped, rest⟩ := Option.bind_eq_some_iff.mp h
    refine ⟨moved, stepped, ?_⟩
    split at rest
    · rename_i silent
      cases rest
      exact ⟨rfl, .inl ⟨silent, rfl⟩⟩
    · rename_i b written
      obtain ⟨ingest, taken, done⟩ := Option.bind_eq_some_iff.mp rest
      cases done
      exact ⟨rfl, .inr ⟨b, written, taken⟩⟩
  · cases h

/-- The other steps are those of the pipeline and the importer. -/
theorem ingest_cases {a : Ingest.Action} (h : s.step libs (.ingest a) = some s') :
    s.ingest.step libs a = some s'.ingest ∧ (∀ b, a = .pipeline b → ofScan b = false) ∧
      (s'.byLoc = s.byLoc ∧ (∀ now n, a ≠ .restart now n) ∨
        s'.byLoc = (fun _ => none) ∧ ∃ now n, a = .restart now n) := by
  cases a with
  | pipeline b =>
    simp only [step] at h
    split at h
    · cases h
    · rename_i other
      obtain ⟨ingest, taken, rfl⟩ := Option.map_eq_some_iff.mp h
      refine ⟨taken, ?_, .inl ⟨rfl, nofun⟩⟩
      rintro _ ⟨⟩
      simpa using other
  | restart now n =>
    cases h
    exact ⟨rfl, nofun, .inr ⟨rfl, now, n, rfl⟩⟩
  | _ =>
    obtain ⟨ingest, taken, rfl⟩ := Option.map_eq_some_iff.mp h
    exact ⟨taken, nofun, .inl ⟨rfl, nofun⟩⟩

/-- A scan moves the tables as it does alone. -/
theorem scan_moves (linked : Linked s.ingest.pipe.scanning s.byLoc) (inv : s.scanner.Inv)
    {a : Scan.Action} (h : s.step libs (.scan a) = some s') :
    s.scanner.step a = some s'.scanner ∧ Linked s'.ingest.pipe.scanning s'.byLoc := by
  obtain ⟨own, moved, stepped, byLoc, ⟨silent, same⟩ | ⟨b, written, taken⟩⟩ := scan_cases h
  · obtain ⟨tables, links⟩ := linked.load own stepped silent
    have here : s'.scanner = moved := by
      unfold scanner
      rw [same, byLoc, tables]
    exact ⟨stepped.trans (congrArg some here.symm), by rw [same, byLoc]; exact links⟩
  · obtain ⟨pipe, taken, _, ended⟩ := Ingest.pipeline_cases taken
    rcases linked.write inv stepped written with ⟨_, blocked⟩ | ⟨pipe', took, tables, links⟩
    · rw [taken] at blocked
      cases blocked
    · rw [taken, Option.some.injEq] at took
      subst took
      have here : s'.scanner = moved := by
        unfold scanner
        rw [ended, byLoc]
        exact congrArg (Scanner.mk · moved.byLoc) tables
      exact ⟨stepped.trans (congrArg some here.symm), by rw [ended, byLoc]; exact links⟩

/-- What the pipeline does to the tables is known to the scanner. -/
theorem pipe_moves {b : Metadata.Action} {pipe : Pipeline Unit} (other : ofScan b = false)
    (h : s.ingest.pipe.step (fun _ => ()) b = some pipe) :
    pipe.scanning = s.ingest.pipe.scanning ∧
      ∃ acts, run Scanner.step s.scanner acts = some ⟨pipe.tables, s.byLoc⟩ := by
  cases b with
  | beginScan loc now scanID => cases other
  | syncDir newDirID newFileID payload => cases other
  | sweep loc => cases other
  | finishScan loc now progress scanErr => cases other
  | onDirty i =>
    obtain ⟨_, rfl⟩ := Pipeline.onDirty_cases h
    exact ⟨rfl, [], rfl⟩
  | receiveToken =>
    obtain ⟨_, rfl⟩ := Pipeline.receiveToken_cases h
    exact ⟨rfl, [], rfl⟩
  | dirtyDirs picked =>
    obtain ⟨_, picks, rfl⟩ := Pipeline.dirtyDirs_cases h
    have moves : s.scanner.step (.dirtyDirs s.ingest.pipe.workers.length picked) =
        some ⟨(s.ingest.pipe.tables.dirtyDirs picked).1, s.byLoc⟩ := if_pos picks
    exact ⟨rfl, [_], by rw [run_cons, moves]; rfl⟩
  | send =>
    obtain ⟨c, batch, _, rfl⟩ := Pipeline.send_cases h
    exact ⟨rfl, [], rfl⟩
  | receive w =>
    obtain ⟨c, rest, _, _, rfl⟩ := Pipeline.receive_cases h
    exact ⟨rfl, [], rfl⟩
  | fail w =>
    obtain ⟨dir, _, rfl⟩ := Pipeline.fail_cases h
    exact ⟨rfl, [], rfl⟩
  | dirFiles w =>
    obtain ⟨dir, _, rfl⟩ := Pipeline.dirFiles_cases h
    exact ⟨rfl, [], rfl⟩
  | importDir w =>
    obtain ⟨dir, files, _, rfl⟩ := Pipeline.importDir_cases h
    exact ⟨rfl, [], rfl⟩
  | clearAttempts w =>
    obtain ⟨dir, _, rfl⟩ := Pipeline.clearAttempts_cases h
    exact ⟨rfl, [], rfl⟩
  | recordFailure w =>
    obtain ⟨dir, next, attempts, _, _, rfl⟩ := Pipeline.recordFailure_cases h
    exact ⟨rfl, [], rfl⟩
  | releaseDir w =>
    obtain ⟨x, dir, t, _, _, released, rfl⟩ := Pipeline.releaseDir_cases h
    have moves : s.scanner.step (.releaseDir dir.id dir.lockedGeneration) = some ⟨t, s.byLoc⟩ :=
      congrArg s.scanner.withTables released
    exact ⟨rfl, [_], by rw [run_cons, moves]; rfl⟩
  | releaseAndRedirty w =>
    obtain ⟨dir, t, _, released, rfl⟩ := Pipeline.releaseAndRedirty_cases h
    have moves : s.scanner.step (.releaseAndRedirty dir.id dir.lockedGeneration) = some ⟨t, s.byLoc⟩ :=
      congrArg s.scanner.withTables released
    exact ⟨rfl, [_], by rw [run_cons, moves]; rfl⟩
  | releaseError w =>
    obtain ⟨x, dir, _, _, rfl⟩ := Pipeline.releaseError_cases h
    exact ⟨rfl, [], rfl⟩
  | armRetry w =>
    obtain ⟨_, rfl⟩ := Pipeline.armRetry_cases h
    exact ⟨rfl, [], rfl⟩
  | skipRetry w =>
    obtain ⟨_, rfl⟩ := Pipeline.skipRetry_cases h
    exact ⟨rfl, [], rfl⟩
  | timerFires =>
    obtain ⟨_, rfl⟩ := Pipeline.timerFires_cases h
    exact ⟨rfl, [], rfl⟩

theorem ingest_moves (linked : Linked s.ingest.pipe.scanning s.byLoc) {a : Ingest.Action}
    (h : s.step libs (.ingest a) = some s') : Linked s'.ingest.pipe.scanning s'.byLoc ∧
      ∃ acts, run Scanner.step s.scanner acts = some s'.scanner := by
  obtain ⟨taken, other, ⟨byLoc, lives⟩ | ⟨byLoc, now, n, rfl⟩⟩ := ingest_cases h
  · have tables : s'.scanner = ⟨s'.ingest.pipe.tables, s.byLoc⟩ := congrArg (Scanner.mk _) byLoc
    rw [byLoc, tables]
    cases a with
    | insertLocation id uri =>
      obtain ⟨t, inserted, ended⟩ := Ingest.insertLocation_cases taken
      have moves : s.scanner.step (.insertLocation id uri) = some ⟨t, s.byLoc⟩ :=
        congrArg s.scanner.withTables inserted
      rw [ended]
      exact ⟨linked, [_], by rw [run_cons, moves]; rfl⟩
    | restart now n => exact absurd rfl (lives now n)
    | pipeline b =>
      obtain ⟨pipe, taken, _, ended⟩ := Ingest.pipeline_cases taken
      obtain ⟨scanning, moves⟩ := pipe_moves (other b rfl) taken
      rw [ended]
      exact ⟨scanning ▸ linked, moves⟩
    | importDir w res minted =>
      obtain ⟨dir, files, _, _, _, pipe⟩ := Ingest.importDir_cases taken
      rw [pipe]
      exact ⟨linked, [], rfl⟩
    | internArtist name minted =>
      rw [(Ingest.internArtist_cases taken).2]
      exact ⟨linked, [], rfl⟩
    | addImage img =>
      rw [(Ingest.addImage_cases taken).2]
      exact ⟨linked, [], rfl⟩
  · have ended : s'.ingest = s.ingest.restart now n := (Option.some.inj taken).symm
    have tables : s'.scanner = ⟨s.ingest.pipe.tables.abortRunningScans now, fun _ => none⟩ := by
      unfold scanner
      rw [ended, byLoc]
      rfl
    rw [tables, byLoc, ended]
    exact ⟨.none_, [.crash, .recover now], rfl⟩

/-! ### The two models are of one system -/

structure Joined (libs : Libraries) (s : Server) : Prop where
  linked : Linked s.ingest.pipe.scanning s.byLoc
  scans : s.scanner.Reachable
  ingests : ∃ n acts, run (Ingest.step libs) (.empty n) acts = some s.ingest

theorem step_joined {a : Action} (joined : s.Joined libs) (h : s.step libs a = some s') :
    s'.Joined libs := by
  obtain ⟨n, acts, ends⟩ := joined.ingests
  have later : ∀ {b}, s.ingest.step libs b = some s'.ingest →
      ∃ n acts, run (Ingest.step libs) (.empty n) acts = some s'.ingest := by
    intro b taken
    refine ⟨n, acts ++ [b], ?_⟩
    rw [run_append, ends]
    simp [taken]
  cases a with
  | scan a =>
    obtain ⟨moves, linked⟩ := scan_moves joined.linked joined.scans.inv h
    refine ⟨linked, joined.scans.step moves, ?_⟩
    obtain ⟨_, _, _, _, ⟨_, same⟩ | ⟨b, _, taken⟩⟩ := scan_cases h
    · exact ⟨n, acts, same ▸ ends⟩
    · exact later (b := .pipeline b) taken
  | ingest a =>
    obtain ⟨linked, _, moves⟩ := ingest_moves joined.linked h
    exact ⟨linked, joined.scans.after moves, later (ingest_cases h).1⟩

theorem Reachable.joined (reachable : s.Reachable libs) : s.Joined libs := by
  obtain ⟨n, acts, ends⟩ := reachable
  refine invariant_of_run (fun _ _ _ joined h => step_joined joined h) ?_ ends
  exact ⟨.none_, ⟨[], rfl⟩, ⟨n, [], rfl⟩⟩

theorem exists_pipeline {b : Metadata.Action} {pipe : Pipeline Unit}
    (other : ∀ w, b ≠ .importDir w) (taken : s.ingest.pipe.step (fun _ => ()) b = some pipe) :
    ∃ ingest, s.ingest.pipeline b = some ingest ∧ ingest.pipe = pipe := by
  unfold Ingest.pipeline
  split
  · rename_i w
    exact absurd rfl (other w)
  · split
    · rename_i none_
      rw [none_] at taken
      cases taken
    · rename_i pipe' took
      rw [took, Option.some.injEq] at taken
      exact ⟨_, rfl, taken⟩

theorem write_ne_importDir {a : Scan.Action} {b : Metadata.Action} (written : s.write a = some b)
    (w : Nat) : b ≠ .importDir w := by
  rintro rfl
  cases a with
  | commit loc i newDirID newFileID =>
    obtain ⟨_, _, wrong⟩ := Option.map_eq_some_iff.mp written
    cases wrong
  | finish loc now scanErr =>
    obtain ⟨_, _, wrong⟩ := Option.map_eq_some_iff.mp written
    cases wrong
  | _ => cases written

/-- The scans of a server are those of a scanner, the rest of it is a run of the pipeline with
its importer, and neither waits for more than it does alone: a scan can do what the scanner can
do, once `OnDirty` was called for what it synced. -/
theorem composes (reachable : s.Reachable libs) : s.scanner.Reachable ∧
    (∃ n acts, run (Ingest.step libs) (.empty n) acts = some s.ingest) ∧
      ∀ a moved, a.scanOf.isSome → s.scanner.step a = some moved →
        (∀ loc, awaits a = some loc → loc ∉ s.ingest.pipe.onDirty) →
          ∃ s', s.step libs (.scan a) = some s' ∧ s'.scanner = moved := by
  have joined := reachable.joined
  refine ⟨joined.scans, joined.ingests, ?_⟩
  intro a moved own stepped called
  have enabled : ∃ s', s.step libs (.scan a) = some s' := by
    simp only [step, if_pos own, scan, stepped, Option.bind_eq_bind, Option.bind_some]
    cases written : s.write a with
    | none => exact ⟨_, rfl⟩
    | some b =>
      rcases joined.linked.write joined.scans.inv stepped written with
        ⟨⟨loc, waits, pending⟩, _⟩ | ⟨pipe, taken, _, _⟩
      · exact absurd pending (called loc waits)
      · obtain ⟨ingest, took, _⟩ := exists_pipeline (write_ne_importDir written) taken
        exact ⟨⟨ingest, moved.byLoc⟩, by simp [took]⟩
  obtain ⟨s', h⟩ := enabled
  have moves := (scan_moves joined.linked joined.scans.inv h).1
  rw [stepped, Option.some.injEq] at moves
  exact ⟨s', h, moves.symm⟩

def locationAdded : List Action := [.ingest (.insertLocation 1 "file:///music")]

def located : Server := (run (step Ingest.asciiLibraries) (empty 1) locationAdded).getD (empty 1)

theorem located_reachable : located.Reachable Ingest.asciiLibraries := ⟨1, locationAdded, rfl⟩

theorem located_scans : (step Ingest.asciiLibraries located
    (.scan (.start 1 0 30 false .insertion Scanner.oneFile))).isSome := by
  have stepped : (located.scanner.step (.start 1 0 30 false .insertion Scanner.oneFile)).isSome := by
    decide
  obtain ⟨moved, stepped⟩ := Option.isSome_iff_exists.mp stepped
  obtain ⟨s', taken, _⟩ := (composes located_reachable).2.2 _ moved rfl stepped nofun
  rw [taken]
  rfl

/-! ### The library and the disk -/

/-- The step fills the library, if it is one of the pipeline or the importer. -/
def Filed (libs : Libraries) (s : Server) (a : Action) : Prop :=
  ∀ b ∈ s.ingestAction a, s.ingest.Filed libs b

instance (libs : Libraries) (s : Server) (a : Action) : Decidable (s.Filed libs a) :=
  inferInstanceAs (Decidable (∀ b ∈ s.ingestAction a, _))

/-- There is a track of the file of that name in that dir. -/
def Tracked (s : Server) (loc : UUID) (rel name : Path) : Prop :=
  ∃ f ∈ s.scanner.tables.files, s.scanner.tables.dirID loc rel = some f.dirID ∧ f.name = name ∧
    s.ingest.HasTrack f.id

/-- Where the last scan has swept, with a stat of every file and no file back as it was before
it went missing, the files with a track are the audio files it walked. -/
def MatchesDisk (s : Server) : Prop :=
  ∀ loc run, s.byLoc loc = some run → run.swept = true →
    (∀ res ∈ run.walked, ∀ f ∈ res.files, f.info.isSome) →
      (∀ res ∈ run.walked, NoneReturnsUnchanged loc res run.begun) →
        ∀ rel name, s.Tracked loc rel name ↔
          ∃ res ∈ run.walked, res.dir = rel ∧ ∃ e ∈ res.files, e.name = name ∧ e.kind = .audio

theorem step_catalogued {a : Action} (cat : s.ingest.Catalogued) (filed : s.Filed libs a)
    (h : s.step libs a = some s') : s'.ingest.Catalogued := by
  cases a with
  | scan a =>
    obtain ⟨_, _, _, _, ⟨_, same⟩ | ⟨b, written, taken⟩⟩ := scan_cases h
    · exact same ▸ cat
    · have met : s.ingest.Filed libs (.pipeline b) := filed _ (by simp [ingestAction, written])
      exact Ingest.step_catalogued cat met taken
  | ingest a => exact Ingest.step_catalogued cat (filed a rfl) (ingest_cases h).1

theorem Joined.matchesDisk (joined : s.Joined libs) (exact_ : s.ingest.Exact) : s.MatchesDisk := by
  intro loc run found swept stats clear rel name
  rw [← Scanner.live_iff_walked joined.scans found swept stats clear]
  refine exists_congr fun f => and_congr_right fun hf => and_congr_right fun _ =>
    and_congr_right fun _ => ?_
  exact exact_.2 f hf

/-- The dir "b" with one file, beside a dir "a". -/
def besideA (a : Entries) : Entries :=
  .dir "a" a (.dir "b" (.file "01.flac" true (some ⟨1000, 5⟩) .nil) .nil)

def twoFiles : Tree := ⟨besideA (.file "01.flac" true (some ⟨1000, 5⟩) .nil), by decide⟩

def fileGone : Tree := ⟨besideA .nil, by decide⟩

/-- A scan of location 1 that syncs "a", "b" and the root, with these `OnDirty` calls. -/
def scanned (scanID : UUID) (tree : Tree) (calls : List Action) : List Action :=
  [.scan (.start 1 0 scanID false .insertion tree), .scan (.load 1 0),
    .scan (.commit 1 0 10 fun _ => 20), .scan (.load 1 0), .scan (.commit 1 0 11 fun _ => 21),
    .scan (.load 1 0), .scan (.commit 1 0 9 fun _ => 0)] ++ calls ++
    [.scan (.sweep 1), .scan (.finish 1 9 none)]

def onDirty : Action := .ingest (.pipeline (.onDirty 0))

def filesImported : List Action :=
  locationAdded ++ scanned 30 twoFiles [onDirty, onDirty] ++
    (Ingest.parseOf 10 [Importer.albumBy "The Band" "Home" 20] 50).map .ingest ++
    (Ingest.parseOf 11 [Importer.albumBy "The Band" "Away" 21] 60).map .ingest

def fileRemoved : List Action :=
  filesImported ++ scanned 31 fileGone [onDirty] ++ (Ingest.parseOf 10 [] 70).map .ingest

end Server

end Byom
