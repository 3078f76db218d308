import Byom.Scan.Rescan
import Byom.Sqlite.ScanRecords

/-!
# What a scan counts as missing

`filesMissing` is fed by the change sets, which list each known file that is not there, and
by the rows that `Sweep` updates. `Counted` also has the file rows that a scan has really
marked.
-/

namespace Byom.Sqlite.ScanTables

open Storage Relational

/-- The file rows that are marked as missing between two states of the tables. -/
def newlyMissing (t t' : ScanTables) : Nat :=
  t.files.countP fun f => !f.missing && t'.files.any fun g => g.id = f.id && g.missing

variable {t t' : ScanTables}

/-- A write that sets no flag. -/
theorem newlyMissing_eq_zero (wf : t.WellFormed)
    (kept : ∀ g ∈ t'.files, g.missing = true → g ∈ t.files) : newlyMissing t t' = 0 := by
  unfold newlyMissing
  rw [List.countP_eq_zero]
  intro f hf marked
  simp only [Bool.and_eq_true, Bool.not_eq_true', List.any_eq_true, decide_eq_true_eq] at marked
  obtain ⟨present, g, hg, same, missing⟩ := marked
  have before := kept g hg missing
  rw [wf.fileIDs.eq_of_key before hf same, present] at missing
  cases missing

theorem newlyMissing_of_files (wf : t.WellFormed) (files : t'.files = t.files) :
    newlyMissing t t' = 0 := by
  apply newlyMissing_eq_zero wf
  intro g hg _
  rwa [files] at hg

theorem upsertFiles_missing {newFileID : Path → UUID} {d : UUID} {fs : List File}
    (h : upsertFiles newFileID d fs t = .ok t') :
    ∀ g ∈ t'.files, g.missing = true → g ∈ t.files := by
  induction fs generalizing t with
  | nil =>
    cases h
    exact fun g hg _ => hg
  | cons f fs ih =>
    obtain ⟨u, first, rest⟩ := upsertFiles_cons h
    obtain ⟨rfl, _⟩ := upsertFile_spec first
    intro g hg missing
    rcases mem_upsertOn (ih rest g hg missing) with ⟨rfl, _⟩ | ⟨old, _⟩ | ⟨old, _, _, rfl⟩
    · cases missing
    · exact old
    · cases missing

/-- A change set without missing files marks none. -/
theorem syncDir_newlyMissing {newDirID d : UUID} {newFileID : Path → UUID} {p : Scan.SyncPayload}
    (wf : t.WellFormed) (h : syncDir newDirID newFileID p t = .ok (t', d))
    (none_ : p.missing = []) : newlyMissing t t' = 0 := by
  obtain ⟨u, first, second⟩ := syncDir_spec h
  obtain ⟨rfl, _⟩ := upsertDir_spec first
  apply newlyMissing_eq_zero wf
  intro g hg missing
  have before := upsertFiles_missing second g hg missing
  rw [none_] at before
  simpa [markMissingFiles] using before

variable {loc : UUID} {gen : Int}

/-- The file is in a dir that a sweep finds unseen. -/
def inUnseen (loc : UUID) (gen : Int) (t : ScanTables) (f : FileRow) : Bool :=
  f.dirID ∈ (t.dirs.filter (unseen loc gen)).map DirRow.id

theorem sweep_affected : (sweep loc gen t).2.2 = t.files.countP (inUnseen loc gen t) := by
  rw [List.countP_eq_length_filter]
  rfl

theorem sweep_newlyMissing (wf : t.WellFormed) : newlyMissing t (sweep loc gen t).1 =
    t.files.countP fun f => !f.missing && inUnseen loc gen t f := by
  unfold newlyMissing
  apply List.countP_congr
  intro f hf
  simp only [Bool.and_eq_true, Bool.not_eq_true', List.any_eq_true, decide_eq_true_eq]
  apply and_congr_right
  intro present
  constructor
  · rintro ⟨g, hg, same, missing⟩
    obtain ⟨old, hold, rfl⟩ := mem_updateWhere.mp hg
    split at missing
    · rename_i here
      rw [if_pos here] at same
      rw [← wf.fileIDs.eq_of_key hold hf same]
      exact here
    · rename_i elsewhere
      rw [if_neg elsewhere] at same
      rw [wf.fileIDs.eq_of_key hold hf same, present] at missing
      cases missing
  · intro here
    exact ⟨{ f with missing := true }, mem_updateWhere.mpr ⟨f, hf, if_pos here⟩, rfl, rfl⟩

/-- `Sweep` counts the rows that it marks if and only if it finds none marked. -/
theorem sweep_exact_iff (wf : t.WellFormed) :
    (sweep loc gen t).2.2 = newlyMissing t (sweep loc gen t).1 ↔
      ∀ f ∈ t.files, inUnseen loc gen t f = true → f.missing = false := by
  rw [sweep_affected, sweep_newlyMissing wf]
  have parts := List.countP_eq_countP_filter_add t.files (inUnseen loc gen t) FileRow.missing
  rw [List.countP_filter, List.countP_filter] at parts
  have unmarked : (t.files.countP fun f => inUnseen loc gen t f && !f.missing) =
      t.files.countP fun f => !f.missing && inUnseen loc gen t f := by
    simp only [Bool.and_comm]
  have marked : (t.files.countP fun f => inUnseen loc gen t f && f.missing) = 0 ↔
      ∀ f ∈ t.files, inUnseen loc gen t f = true → f.missing = false := by
    simp [List.countP_eq_zero]
  rw [← marked]
  omega

end Byom.Sqlite.ScanTables

namespace Byom.Scan

open Storage Relational Sqlite

/-- Every file that was known for the dir is there, and its stat succeeds. -/
def WalkResult.FindsAll (res : WalkResult) (known : List File) : Prop :=
  ∀ k ∈ known, ∃ w ∈ res.files, w.name = k.name ∧ w.info.isSome = true

instance (res : WalkResult) (known : List File) : Decidable (res.FindsAll known) :=
  inferInstanceAs (Decidable (∀ k ∈ known, ∃ w ∈ res.files, _ ∧ _))

theorem findsAll_iff {res : WalkResult} {known : List File}
    (names : UniqueOn WalkEntry.name res.files) (unique : UniqueOn File.name known) :
    (computeChangeset known res).2.1 = [] ↔ res.FindsAll known := by
  rw [List.eq_nil_iff_forall_not_mem]
  constructor
  · intro none_ k hk
    by_contra lacking
    apply none_ k.id
    refine (mem_missing_iff names unique k.id).mpr ⟨k, hk, rfl, ?_⟩
    intro w hw named
    by_contra statd
    exact lacking ⟨w, hw, named, Option.isSome_iff_ne_none.mpr statd⟩
  · intro finds id listed
    obtain ⟨k, hk, _, clear⟩ := (mem_missing_iff names unique id).mp listed
    obtain ⟨w, hw, named, statd⟩ := finds k hk
    rw [clear w hw named] at statd
    cases statd

/-- The counters of a scan are those of the rows it has marked. -/
structure ScanRun.Exact (run : ScanRun) (t : ScanTables) (marked : Nat) : Prop where
  unswept : run.swept = false → run.progress.dirsMissing = 0 ∧ run.progress.filesMissing = 0
  live : run.progress.filesMissing = marked
  recorded : ∀ row ∈ t.recordAt run.scanID, row.state = .done →
    row.progress.filesMissing = marked

/-- A scan that goes on has a row of its location that is not done. -/
def ScanRun.HasRow (loc : UUID) (run : ScanRun) (t : ScanTables) : Prop :=
  ∃ row, t.recordAt run.scanID = some row ∧ row.locationID = loc ∧
    (run.inFlight = true → row.state ≠ .done)

/-- The row of a scan stays, and does not become done. -/
def RowStays (id : UUID) (t t' : ScanTables) : Prop :=
  ∀ row, t.recordAt id = some row → ∃ row', t'.recordAt id = some row' ∧
    row'.locationID = row.locationID ∧ (row'.state = .done → row' = row)

section

variable {id loc scanID : UUID} {run : ScanRun} {t t' : ScanTables} {n : Nat}

theorem RowStays.of_scans (scans : t'.scans = t.scans) (id : UUID) : RowStays id t t' :=
  fun row found => ⟨row, (ScanTables.recordAt_of_eq scans id).trans found, rfl, fun _ => rfl⟩

theorem RowStays.of_map {g : ScanRow → ScanRow} (rows : t'.recordAt id = (t.recordAt id).map g)
    (owner : ∀ s, (g s).locationID = s.locationID) (same : ∀ s, (g s).state = .done → g s = s) :
    RowStays id t t' := by
  intro row found
  rw [found, Option.map_some] at rows
  exact ⟨g row, rows, owner row, same row⟩

theorem RowStays.beginScan {now gen : Int} (h : t.beginScan now scanID loc = .ok (t', gen))
    (id : UUID) : RowStays id t t' := by
  obtain ⟨absent, _, others⟩ := ScanTables.beginScan_records h
  by_cases own : id = scanID
  · subst own
    intro row found
    rw [absent] at found
    cases found
  · apply RowStays.of_map (others id own)
    · intro s
      split <;> rfl
    · intro s done
      split at done
      · cases done
      · rename_i closed
        exact if_neg closed

theorem RowStays.abortRunningScans (now : Int) (id : UUID) :
    RowStays id t (t.abortRunningScans now) := by
  apply RowStays.of_map (ScanTables.abortRunningScans_recordAt id)
  · intro s
    split <;> rfl
  · intro s done
    split at done
    · cases done
    · rename_i closed
      exact if_neg closed

theorem RowStays.finishScan {now : Int} {progress : Progress} {scanErr : Option ScanError}
    (apart : id ≠ scanID) : RowStays id t (t.finishScan now scanID progress scanErr) :=
  fun row found => ⟨row, (ScanTables.finishScan_recordAt_ne apart).trans found, rfl, fun _ => rfl⟩

theorem ScanRun.HasRow.stay (has : run.HasRow loc t) (stays : RowStays run.scanID t t') :
    run.HasRow loc t' := by
  obtain ⟨row, found, owner, unfinished⟩ := has
  obtain ⟨row', found', owner', same⟩ := stays row found
  refine ⟨row', found', owner'.trans owner, ?_⟩
  intro going done
  have before := same done
  subst before
  exact unfinished going done

theorem ScanRun.HasRow.congr (has : run.HasRow loc t) {next : ScanRun}
    (scanID : next.scanID = run.scanID) (going : next.inFlight = true → run.inFlight = true) :
    next.HasRow loc t := by
  obtain ⟨row, found, owner, unfinished⟩ := has
  exact ⟨row, (congrArg t.recordAt scanID).trans found, owner, fun goes => unfinished (going goes)⟩

theorem ScanRun.Exact.stay (counts : run.Exact t n) (has : run.HasRow loc t)
    (stays : RowStays run.scanID t t') : run.Exact t' n := by
  refine { counts with recorded := ?_ }
  intro row' found' done
  obtain ⟨row, found, _, _⟩ := has
  obtain ⟨later, again, _, same⟩ := stays row found
  have this_ : later = row' := Option.some.inj (again.symm.trans found')
  subst this_
  have before := same done
  subst before
  exact counts.recorded later found done

/-- While a scan goes on, only its live counters matter. -/
theorem ScanRun.HasRow.exact_iff (has : run.HasRow loc t) (going : run.inFlight = true) :
    run.Exact t n ↔
      (run.swept = false → run.progress.dirsMissing = 0 ∧ run.progress.filesMissing = 0) ∧
        run.progress.filesMissing = n := by
  constructor
  · exact fun counts => ⟨counts.unswept, counts.live⟩
  · rintro ⟨unswept, live⟩
    refine ⟨unswept, live, ?_⟩
    intro row found done
    obtain ⟨row', found', _, unfinished⟩ := has
    have same : row' = row := Option.some.inj (found'.symm.trans found)
    subst same
    exact absurd done (unfinished going)

end

/-! ### The scanner and what its scans mark -/

/-- `marked` is, for each location, the rows that its latest scan has marked. -/
structure Counted where
  scanner : Scanner
  marked : UUID → Nat

namespace Counted

def empty : Counted := ⟨.empty, fun _ => 0⟩

/-- A step, and the rows that the scan it belongs to marks. -/
def step (s : Counted) (a : Action) : Option Counted :=
  (s.scanner.step a).map fun s' =>
    match a.scanOf with
    | none => ⟨s', s.marked⟩
    | some loc =>
      let before := if a.starts.isSome then 0 else s.marked loc
      ⟨s', Function.update s.marked loc
        (before + s.scanner.tables.newlyMissing s'.tables)⟩

/-- The counters of every scan are exact. -/
def MissingExact (s : Counted) : Prop :=
  ∀ loc run, s.scanner.byLoc loc = some run → run.Exact s.scanner.tables (s.marked loc)

/-- A dir is synced with all its known files there, and a sweep finds no file marked. -/
def CountsOnce (s : Counted) : Action → Prop
  | .commit loc i _ _ => ∀ run ∈ s.scanner.active loc, ∀ l ∈ run.loaded[i]?, l.1.FindsAll l.2
  | .sweep loc => ∀ run ∈ s.scanner.active loc, ∀ f ∈ s.scanner.tables.files,
      ScanTables.inUnseen loc run.gen s.scanner.tables f = true → f.missing = false
  | _ => True

structure Inv (s : Counted) : Prop where
  scanner : s.scanner.Inv
  rows : ∀ loc run, s.scanner.byLoc loc = some run → run.HasRow loc s.scanner.tables

variable {s s' : Counted} {a : Action} {loc : UUID} {run : ScanRun} {t : ScanTables} {n : Nat}

theorem empty_inv : empty.Inv := ⟨Scanner.empty_inv, by simp [empty, Scanner.empty]⟩

theorem empty_exact : empty.MissingExact := by simp [MissingExact, empty, Scanner.empty]

/-- A step on the tables, which every scan survives or none does. -/
structure Quiet (s s' : Counted) : Prop where
  runs : ∀ loc run, s'.scanner.byLoc loc = some run → s.scanner.byLoc loc = some run
  marked : s'.marked = s.marked
  stays : ∀ id, RowStays id s.scanner.tables s'.scanner.tables

/-- A step of the scan of `loc`, which leads it to `run` and the tables to `t`. -/
structure Turn (s : Counted) (loc : UUID) (run : ScanRun) (t : ScanTables) (n : Nat)
    (s' : Counted) : Prop where
  next : s' = ⟨s.scanner.setRun loc t run, Function.update s.marked loc n⟩
  row : run.HasRow loc t
  stays : ∀ loc' other, loc' ≠ loc → s.scanner.byLoc loc' = some other →
    RowStays other.scanID s.scanner.tables t

theorem Quiet.rows (quiet : s.Quiet s') (inv : s.Inv) (found : s'.scanner.byLoc loc = some run) :
    run.HasRow loc s'.scanner.tables :=
  (inv.rows loc run (quiet.runs loc run found)).stay (quiet.stays run.scanID)

theorem Quiet.keepsExact (quiet : s.Quiet s') (inv : s.Inv) (good : s.MissingExact) :
    s'.MissingExact := by
  intro loc run found
  have before := quiet.runs loc run found
  rw [quiet.marked]
  exact (good loc run before).stay (inv.rows loc run before) (quiet.stays run.scanID)

theorem Turn.byLoc (turn : s.Turn loc run t n s') (loc' : UUID) :
    s'.scanner.byLoc loc' = if loc' = loc then some run else s.scanner.byLoc loc' := by
  rw [turn.next]
  exact Scanner.setRun_byLoc ..

theorem Turn.rows (turn : s.Turn loc run t n s') (inv : s.Inv) {loc' : UUID} {run' : ScanRun}
    (found : s'.scanner.byLoc loc' = some run') : run'.HasRow loc' s'.scanner.tables := by
  rw [turn.byLoc] at found
  rw [turn.next]
  split at found
  · rename_i own
    subst own
    cases found
    exact turn.row
  · rename_i other
    exact (inv.rows loc' run' found).stay (turn.stays loc' run' other found)

/-- The other scans stay exact. -/
theorem Turn.exact_iff (turn : s.Turn loc run t n s') (inv : s.Inv) (good : s.MissingExact) :
    s'.MissingExact ↔ run.Exact t n := by
  have own : s'.scanner.byLoc loc = some run := by rw [turn.byLoc, if_pos rfl]
  have tables : s'.scanner.tables = t := by rw [turn.next]; rfl
  have marked : s'.marked = Function.update s.marked loc n := by rw [turn.next]
  unfold MissingExact
  rw [tables, marked]
  constructor
  · intro all
    simpa using all loc run own
  · intro counts loc' run' found
    rw [turn.byLoc] at found
    split at found
    · rename_i same
      subst same
      cases found
      simpa using counts
    · rename_i other
      rw [Function.update_of_ne other]
      exact (good loc' run' found).stay (inv.rows loc' run' found)
        (turn.stays loc' run' other found)

theorem turn_of_setRun (owner : a.scanOf = some loc) (h : s.step a = some s')
    (stepped : s.scanner.step a = some (s.scanner.setRun loc t run)) (row : run.HasRow loc t)
    (stays : ∀ loc' other, loc' ≠ loc → s.scanner.byLoc loc' = some other →
      RowStays other.scanID s.scanner.tables t) :
    s.Turn loc run t
      ((if a.starts.isSome then 0 else s.marked loc) + s.scanner.tables.newlyMissing t) s' := by
  refine ⟨?_, row, stays⟩
  rw [step, stepped, owner] at h
  exact (Option.some.inj h).symm

theorem start_turn {now : Int} {scanID : UUID} {force : Bool} {order : MapOrder} {tree : Tree}
    (inv : s.Inv) (h : s.step (.start loc now scanID force order tree) = some s') :
    ∃ run t n, s.Turn loc run t n s' ∧ run.Exact t n := by
  obtain ⟨p, started, _⟩ := Option.map_eq_some_iff.mp h
  obtain ⟨_, t, gen, began, rfl⟩ := Scanner.start_cases started
  obtain ⟨_, opened, _⟩ := ScanTables.beginScan_records began
  have unmarked : s.scanner.tables.newlyMissing t = 0 :=
    ScanTables.newlyMissing_of_files inv.scanner.wellFormed (ScanTables.beginScan_spec began).2.1
  have row : ScanRun.HasRow loc ⟨scanID, gen, force, (walk order tree).emitted,
      (walk order tree).emitted, [], [], false, true, ⟨0, 0, 0, 0⟩, s.scanner.tables⟩ t := by
    refine ⟨_, opened, rfl, ?_⟩
    intro _ done
    cases done
  have turn := turn_of_setRun rfl h started row
    fun _ other _ _ => RowStays.beginScan began other.scanID
  refine ⟨_, t, _, turn, (row.exact_iff rfl).mpr ⟨fun _ => ⟨rfl, rfl⟩, ?_⟩⟩
  simp [Action.starts, unmarked]

theorem load_turn {i : Nat} (inv : s.Inv) (good : s.MissingExact)
    (h : s.step (.load loc i) = some s') : ∃ run t n, s.Turn loc run t n s' ∧ run.Exact t n := by
  obtain ⟨p, taken, _⟩ := Option.map_eq_some_iff.mp h
  obtain ⟨run, res, active, _, rfl⟩ := Scanner.load_cases taken
  have here := Scanner.active_some active
  have unmarked : s.scanner.tables.newlyMissing s.scanner.tables = 0 :=
    ScanTables.newlyMissing_of_files inv.scanner.wellFormed rfl
  have counts := good loc run here
  have turn := turn_of_setRun rfl h taken ((inv.rows loc run here).congr rfl id)
    fun _ other _ _ => RowStays.of_scans rfl other.scanID
  refine ⟨_, _, _, turn, ⟨counts.unswept, ?_, ?_⟩⟩
  · simpa [Action.starts, unmarked] using counts.live
  · simpa [Action.starts, unmarked] using counts.recorded

/-- A commit keeps the counters exact if and only if all known files are there. -/
theorem commit_turn {i : Nat} {newDirID : UUID} {newFileID : Path → UUID} (inv : s.Inv)
    (good : s.MissingExact) (h : s.step (.commit loc i newDirID newFileID) = some s') :
    ∃ run t n, s.Turn loc run t n s' ∧
      (run.Exact t n ↔ s.CountsOnce (.commit loc i newDirID newFileID)) := by
  obtain ⟨p, committed, _⟩ := Option.map_eq_some_iff.mp h
  obtain ⟨run, res, known, t, d, active, taken, synced, rfl⟩ := Scanner.commit_cases committed
  obtain ⟨here, going⟩ := Scanner.active_eq_some_iff.mp active
  have tracks := inv.scanner.tracks loc run here
  have counts := good loc run here
  have loaded : (res, known) ∈ run.loaded := List.mem_of_getElem? taken
  have fresh : Loaded known loc res.dir s.scanner.tables := tracks.loaded _ loaded
  have unswept := tracks.unswept_of_loaded loaded
  obtain ⟨noDirs, noFiles⟩ := counts.unswept unswept
  have walked := tracks.walked_of_loaded loaded
  have stay : RowStays run.scanID s.scanner.tables t :=
    .of_scans (ScanTables.syncDir_scans synced) _
  have row := (inv.rows loc run here).stay stay
  have turn := turn_of_setRun rfl h committed (row.congr rfl id)
    fun _ other _ _ => .of_scans (ScanTables.syncDir_scans synced) other.scanID
  refine ⟨_, t, _, turn, (turn.row.exact_iff going).trans ?_⟩
  · have met : s.CountsOnce (.commit loc i newDirID newFileID) ↔ res.FindsAll known := by
      simp [CountsOnce, active, taken]
    rw [met, ← findsAll_iff (tracks.names res walked) fresh.unique]
    constructor
    · rintro ⟨zero, _⟩
      have filesZero := (zero unswept).2
      simp only [Scanner.committedProgress] at filesZero
      exact List.length_eq_zero_iff.mp (by omega)
    · intro none_
      have unmarked : s.scanner.tables.newlyMissing t = 0 :=
        ScanTables.syncDir_newlyMissing inv.scanner.wellFormed synced none_
      refine ⟨fun _ => ⟨noDirs, ?_⟩, ?_⟩
      · simp [Scanner.committedProgress, none_, noFiles]
      · simpa [Scanner.committedProgress, none_, Action.starts, unmarked] using counts.live

/-- A sweep keeps the counters exact if and only if it finds no file marked. -/
theorem sweep_turn (inv : s.Inv) (good : s.MissingExact) (h : s.step (.sweep loc) = some s') :
    ∃ run t n, s.Turn loc run t n s' ∧ (run.Exact t n ↔ s.CountsOnce (.sweep loc)) := by
  obtain ⟨p, swept, _⟩ := Option.map_eq_some_iff.mp h
  obtain ⟨run, active, _, _, rfl⟩ := Scanner.sweep_cases swept
  obtain ⟨here, going⟩ := Scanner.active_eq_some_iff.mp active
  have counts := (good loc run here).live
  have row := (inv.rows loc run here).stay (.of_scans rfl _ :
    RowStays run.scanID s.scanner.tables (s.scanner.tables.sweep loc run.gen).1)
  have turn := turn_of_setRun rfl h swept (row.congr rfl id)
    fun _ other _ _ => .of_scans rfl other.scanID
  refine ⟨_, _, _, turn, (turn.row.exact_iff going).trans ?_⟩
  · have met : s.CountsOnce (.sweep loc) ↔ ∀ f ∈ s.scanner.tables.files,
        ScanTables.inUnseen loc run.gen s.scanner.tables f = true → f.missing = false := by
      simp [CountsOnce, active]
    rw [met, ← ScanTables.sweep_exact_iff inv.scanner.wellFormed]
    simp only [Scanner.sweptProgress, Action.starts, Option.isSome_none, Bool.false_eq_true,
      if_false, Bool.true_eq_false, false_implies, true_and, counts]
    omega

/-- The row of a scan that ends gets its live counters. -/
theorem finish_turn {now : Int} {scanErr : Option ScanError} (inv : s.Inv)
    (good : s.MissingExact) (h : s.step (.finish loc now scanErr) = some s') :
    ∃ run t n, s.Turn loc run t n s' ∧ run.Exact t n := by
  obtain ⟨p, finished, _⟩ := Option.map_eq_some_iff.mp h
  obtain ⟨run, active, _, rfl⟩ := Scanner.finish_cases finished
  obtain ⟨here, going⟩ := Scanner.active_eq_some_iff.mp active
  obtain ⟨row, found, owner, unfinished⟩ := inv.rows loc run here
  have counts := good loc run here
  have unmarked : s.scanner.tables.newlyMissing
      (s.scanner.tables.finishScan now run.scanID run.progress scanErr) = 0 :=
    ScanTables.newlyMissing_of_files inv.scanner.wellFormed rfl
  have rowStays : ∀ loc' other, loc' ≠ loc → s.scanner.byLoc loc' = some other →
      RowStays other.scanID s.scanner.tables
        (s.scanner.tables.finishScan now run.scanID run.progress scanErr) := by
    intro loc' other apart at_
    apply RowStays.finishScan
    intro same
    obtain ⟨row', found', owner', _⟩ := inv.rows loc' other at_
    rw [same, found] at found'
    cases found'
    exact apart (owner'.symm.trans owner)
  have closed : (s.scanner.tables.finishScan now run.scanID run.progress scanErr).recordAt
      run.scanID = some (if row.id = run.scanID ∧ row.state = .running then
        ScanTables.finished now run.progress scanErr row else row) := by
    rw [ScanTables.finishScan_recordAt, found, Option.map_some]
  have closedRow : ScanRun.HasRow loc { run with inFlight := false }
      (s.scanner.tables.finishScan now run.scanID run.progress scanErr) := by
    refine ⟨_, closed, ?_, ?_⟩
    · split
      · exact owner
      · exact owner
    · intro going'
      cases going'
  refine ⟨_, _, _, turn_of_setRun rfl h finished closedRow rowStays, ⟨counts.unswept, ?_, ?_⟩⟩
  · simpa [Action.starts, unmarked] using counts.live
  · intro last at_ done
    rw [Option.mem_def, closed, Option.some.injEq] at at_
    subst at_
    split at done
    · rename_i open_
      rw [if_pos open_]
      change run.progress.filesMissing = _
      simpa [Action.starts, unmarked] using counts.live
    · exact absurd done (unfinished going)

/-- A step on the tables alone, or a step of one scan. -/
theorem step_cases (inv : s.Inv) (good : s.MissingExact) (h : s.step a = some s') :
    s.Quiet s' ∧ s.CountsOnce a ∨
      ∃ loc run t n, s.Turn loc run t n s' ∧ (run.Exact t n ↔ s.CountsOnce a) := by
  have quiet : ∀ {next : Scanner}, s.scanner.step a = some next → a.scanOf = none →
      (∀ loc run, next.byLoc loc = some run → s.scanner.byLoc loc = some run) →
      (∀ id, RowStays id s.scanner.tables next.tables) → s.Quiet s' := by
    intro next stepped none_ runs stays
    rw [step, stepped, none_] at h
    cases h
    exact ⟨runs, rfl, stays⟩
  obtain ⟨p, stepped, _⟩ := Option.map_eq_some_iff.mp h
  cases a with
  | insertLocation newID uri =>
    obtain ⟨t, inserted, rfl⟩ := Scanner.withTables_cases stepped
    refine .inl ⟨quiet stepped rfl (fun _ _ => id) ?_, trivial⟩
    exact RowStays.of_scans (ScanTables.insertLocation_scans inserted)
  | start loc now scanID force order tree =>
    obtain ⟨run, t, n, turn, counts⟩ := start_turn inv h
    exact .inr ⟨loc, run, t, n, turn, iff_of_true counts trivial⟩
  | load loc i =>
    obtain ⟨run, t, n, turn, counts⟩ := load_turn inv good h
    exact .inr ⟨loc, run, t, n, turn, iff_of_true counts trivial⟩
  | commit loc i newDirID newFileID => exact .inr ⟨loc, commit_turn inv good h⟩
  | sweep loc => exact .inr ⟨loc, sweep_turn inv good h⟩
  | finish loc now scanErr =>
    obtain ⟨run, t, n, turn, counts⟩ := finish_turn inv good h
    exact .inr ⟨loc, run, t, n, turn, iff_of_true counts trivial⟩
  | crash =>
    cases stepped
    refine .inl ⟨quiet rfl rfl ?_ (RowStays.of_scans rfl), trivial⟩
    intro loc run gone
    cases gone
  | recover now =>
    cases stepped
    exact .inl ⟨quiet rfl rfl (fun _ _ => id) (RowStays.abortRunningScans now), trivial⟩
  | dirtyDirs limit picked =>
    obtain ⟨_, rfl⟩ := Scanner.dirtyDirs_cases stepped
    exact .inl ⟨quiet stepped rfl (fun _ _ => id) (RowStays.of_scans rfl), trivial⟩
  | releaseDir dirID lockedGen =>
    obtain ⟨t, released, rfl⟩ := Scanner.withTables_cases stepped
    obtain ⟨_, rfl⟩ := ScanTables.releaseDir_spec released
    exact .inl ⟨quiet stepped rfl (fun _ _ => id) (RowStays.of_scans rfl), trivial⟩
  | releaseAndRedirty dirID lockedGen =>
    obtain ⟨t, released, rfl⟩ := Scanner.withTables_cases stepped
    obtain ⟨_, rfl⟩ := ScanTables.releaseAndRedirty_spec released
    exact .inl ⟨quiet stepped rfl (fun _ _ => id) (RowStays.of_scans rfl), trivial⟩

theorem step_inv (inv : s.Inv) (good : s.MissingExact) (h : s.step a = some s') : s'.Inv := by
  obtain ⟨p, stepped, next⟩ := Option.map_eq_some_iff.mp h
  have scanner : s'.scanner.Inv := by
    have same : s'.scanner = p := by
      rw [← next]
      split <;> rfl
    exact same ▸ Scanner.step_inv a inv.scanner stepped
  refine ⟨scanner, ?_⟩
  intro loc run found
  rcases step_cases inv good h with ⟨quiet, _⟩ | ⟨_, _, _, _, turn, _⟩
  · exact quiet.rows inv found
  · exact turn.rows inv found

theorem step_missingExact_iff (inv : s.Inv) (good : s.MissingExact) (h : s.step a = some s') :
    s'.MissingExact ↔ s.CountsOnce a := by
  rcases step_cases inv good h with ⟨quiet, once⟩ | ⟨loc, run, t, n, turn, counts⟩
  · exact iff_of_true (quiet.keepsExact inv good) once
  · exact (turn.exact_iff inv good).trans counts

/-- The counters stay exact in a run if and only if no synced dir lacks a known file,
and no sweep finds a file that is marked. -/
theorem missingExact_iff (acts : List Action) :
    Transition.Along step MissingExact empty acts ↔
      Transition.StepsMeet step CountsOnce empty acts :=
  Transition.along_iff_stepsMeet (fun _ _ _ inv good h => step_inv inv good h)
    (fun _ _ _ inv good h => step_missingExact_iff inv good h) empty_inv empty_exact

/-- A second scan after the removal reports the file again, before its sweep and in the end. -/
theorem removedFile_counted_again :
    (∃ s run, Transition.run step empty
        (Scanner.fileRemoved ++ (Scanner.wholeScan 4 Scanner.noFiles).take 3) = some s ∧
      s.scanner.byLoc 1 = some run ∧ run.swept = false ∧ run.progress.filesMissing = 1) ∧
    ∃ s run row, Transition.run step empty
        (Scanner.fileRemoved ++ Scanner.wholeScan 4 Scanner.noFiles) = some s ∧
      s.scanner.byLoc 1 = some run ∧ s.scanner.tables.recordAt run.scanID = some row ∧
      row.state = .done ∧ row.progress.filesMissing = 1 ∧ s.marked 1 = 0 := by
  constructor
  · exact ⟨_, _, rfl, rfl, rfl, rfl⟩
  · exact ⟨_, _, _, rfl, rfl, rfl, rfl, rfl, rfl⟩

end Counted

end Byom.Scan
