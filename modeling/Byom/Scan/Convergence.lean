import Byom.Scan.Tracking

/-!
# Scan convergence

After the sweep of a scan, the live rows of a walked dir are its walked files,
except for files whose row was missing with the very size and mod time they have
now: `KnownFiles` does not load `missing`, so such a row counts as unchanged.
-/

namespace Byom.Scan

open Storage Relational Sqlite

/-- The live file rows of a dir. -/
def liveFiles (loc : UUID) (rel : Path) (t : ScanTables) : List FileRow :=
  t.files.filter fun f => t.dirID loc rel = some f.dirID ∧ f.missing = false

/-- The live rows of a walked dir are its walked files, each as it was stat'd. -/
def Converged (loc : UUID) (res : WalkResult) (t : ScanTables) : Prop :=
  ((liveFiles loc res.dir t).map fun f => (f.name, some f.info)).Perm
    (res.files.map fun f => (f.name, f.info))

instance (loc : UUID) (res : WalkResult) (t : ScanTables) : Decidable (Converged loc res t) :=
  inferInstanceAs (Decidable (List.Perm _ _))

/-- Every walked file has a mod time that fits its column, and no missing row with
the size and mod time it has now. -/
def NoneReturnsUnchanged (loc : UUID) (res : WalkResult) (t : ScanTables) : Prop :=
  ∀ f ∈ res.files, ∀ info ∈ f.info, info.stored = info ∧
    ∀ row ∈ t.files, t.dirID loc res.dir = some row.dirID → row.name = f.name →
      row.info = info → row.missing = false

instance (loc : UUID) (res : WalkResult) (t : ScanTables) :
    Decidable (NoneReturnsUnchanged loc res t) :=
  inferInstanceAs (Decidable (∀ f ∈ res.files, ∀ info ∈ f.info, _ ∧ ∀ row ∈ t.files, _ → _ → _ → _))

section

variable {loc : UUID} {res : WalkResult} {t : ScanTables}

theorem fileAt_record_iff (wf : t.WellFormed) {rel name : Path} {r : Record} :
    (t.fileAt loc rel name).map record = some r ↔
      ∃ f ∈ t.files, t.dirID loc rel = some f.dirID ∧ f.name = name ∧ record f = r := by
  constructor
  · intro found
    obtain ⟨f, at_, same⟩ := Option.map_eq_some_iff.mp found
    obtain ⟨hf, named, owner⟩ := ScanTables.fileAt_some at_
    exact ⟨f, hf, owner, named, same⟩
  · rintro ⟨f, hf, owner, rfl, rfl⟩
    rw [ScanTables.fileAt_of_mem wf hf owner]
    rfl

theorem liveFiles_nodup (wf : t.WellFormed) (loc : UUID) (rel : Path) :
    ((liveFiles loc rel t).map fun f => (f.name, some f.info)).Nodup := by
  have names : UniqueOn FileRow.name (liveFiles loc rel t) := by
    apply List.Nodup.map_on
    · intro a ha b hb same
      obtain ⟨memA, liveA⟩ := List.mem_filter.mp ha
      obtain ⟨memB, liveB⟩ := List.mem_filter.mp hb
      simp only [decide_eq_true_eq] at liveA liveB
      have owner : a.dirID = b.dirID := Option.some.inj (liveA.1.symm.trans liveB.1)
      exact wf.fileKeys.eq_of_key memA memB (Prod.ext owner same)
    · exact List.Nodup.of_map FileRow.key (wf.fileKeys.filter _)
  apply List.Nodup.of_map Prod.fst
  rw [List.map_map]
  exact names

theorem walked_nodup (names : UniqueOn WalkEntry.name res.files) :
    (res.files.map fun f => (f.name, f.info)).Nodup := by
  apply List.Nodup.of_map Prod.fst
  rw [List.map_map]
  exact names

/-- Convergence, name by name. -/
theorem converged_iff (wf : t.WellFormed) (names : UniqueOn WalkEntry.name res.files)
    (stats : ∀ f ∈ res.files, f.info.isSome) :
    Converged loc res t ↔ ∀ name info,
      (t.fileAt loc res.dir name).map record = some ⟨info, false⟩ ↔ res.stat name = some info := by
  have live : ∀ name info, (name, some info) ∈
      (liveFiles loc res.dir t).map (fun f => (f.name, some f.info)) ↔
      (t.fileAt loc res.dir name).map record = some ⟨info, false⟩ := by
    intro name info
    rw [fileAt_record_iff wf]
    simp only [liveFiles, List.mem_map, List.mem_filter, decide_eq_true_eq, record,
      Record.mk.injEq, Prod.mk.injEq, Option.some.injEq]
    constructor
    · rintro ⟨f, ⟨hf, owner, present⟩, named, same⟩
      exact ⟨f, hf, owner, named, same, present⟩
    · rintro ⟨f, hf, owner, named, same, present⟩
      exact ⟨f, ⟨hf, owner, present⟩, named, same⟩
  have walked : ∀ name info, (name, some info) ∈ res.files.map (fun f => (f.name, f.info)) ↔
      res.stat name = some info := by
    intro name info
    rw [stat_eq_some_iff names]
    simp
  unfold Converged
  rw [List.perm_ext_iff_of_nodup (liveFiles_nodup wf loc res.dir) (walked_nodup names)]
  constructor
  · intro same name info
    rw [← live, ← walked]
    exact same (name, some info)
  · intro same entry
    obtain ⟨name, statd⟩ := entry
    cases statd with
    | none =>
      -- Neither list has an entry without a stat.
      constructor
      · intro inLive
        simp at inLive
      · intro inWalked
        obtain ⟨f, hf, clash⟩ := List.mem_map.mp inWalked
        have failed : f.info = none := (Prod.mk.inj clash).2
        have statd := stats f hf
        simp [failed] at statd
    | some info =>
      rw [live, walked]
      exact same name info

theorem zero_not_stored : File.zero.info.stored ≠ File.zero.info := by decide

/-- One row is live with the stat'd info exactly when that info survives storing
and the row was not missing with the same info. -/
theorem reconcile_live_iff {seen : Option FileInfo} {row : Option Record}
    (stored : ∀ r ∈ row, r.info.stored = r.info) :
    (∀ info, reconcile seen row = some ⟨info, false⟩ ↔ seen = some info) ↔
      ∀ info ∈ seen, info.stored = info ∧ row ≠ some ⟨info, true⟩ := by
  cases seen with
  | none =>
    constructor
    · intro _ info none_
      simp at none_
    · intro _ info
      cases row <;> simp [reconcile]
  | some info =>
    have only : (∀ x, reconcile (some info) row = some ⟨x, false⟩ ↔ some info = some x) ↔
        reconcile (some info) row = some ⟨info, false⟩ := by
      constructor
      · exact fun same => (same info).mpr rfl
      · intro here x
        rw [here]
        simp
    rw [only]
    simp only [Option.mem_def, Option.some.injEq, forall_eq']
    cases row with
    | none =>
      by_cases zero : info = File.zero.info
      · subst zero
        simp [reconcile, zero_not_stored]
      · simp [reconcile, zero]
    | some r =>
      have fits := stored r rfl
      obtain ⟨old, missing⟩ := r
      by_cases same : info = old
      · subst same
        simp [reconcile, fits]
      · simp [reconcile, same, Ne.symm same]

end

namespace Scanner

variable {s : Scanner} {loc : UUID} {run : ScanRun}

theorem synced_of_swept (inv : s.Inv) (found : s.byLoc loc = some run) (swept : run.swept = true)
    {res : WalkResult} (walked : res ∈ run.walked) : res ∈ run.synced := by
  have tracks := inv.tracks loc run found
  obtain ⟨queue, loaded⟩ := tracks.complete swept
  rcases tracks.mem_walked.mp walked with waits | done
  · simp [queue, loaded] at waits
  · exact done

theorem dir_converged_iff (inv : s.Inv) (found : s.byLoc loc = some run)
    (swept : run.swept = true) {res : WalkResult} (walked : res ∈ run.walked)
    (stats : ∀ f ∈ res.files, f.info.isSome) :
    Converged loc res s.tables ↔ NoneReturnsUnchanged loc res run.begun := by
  have tracks := inv.tracks loc run found
  have names := tracks.names res walked
  have reconciled := tracks.synced res (synced_of_swept inv found swept walked)
  have stored : ∀ name, ∀ r ∈ (run.begun.fileAt loc res.dir name).map record,
      r.info.stored = r.info := by
    intro name r hr
    obtain ⟨f, hf, _, _, rfl⟩ := (fileAt_record_iff tracks.begun).mp hr
    exact tracks.begun.stored f hf
  rw [converged_iff inv.wellFormed names stats]
  calc
    _ ↔ ∀ name, ∀ info ∈ res.stat name, info.stored = info ∧
          (run.begun.fileAt loc res.dir name).map record ≠ some ⟨info, true⟩ := by
      apply forall_congr'
      intro name
      rw [← reconcile_live_iff (stored name)]
      simp only [reconciled]
    _ ↔ NoneReturnsUnchanged loc res run.begun := by
      constructor
      · intro clear f hf info statd
        have here : info ∈ res.stat f.name := by rw [stat_of_mem names hf]; exact statd
        obtain ⟨fits, noRow⟩ := clear f.name info here
        refine ⟨fits, ?_⟩
        intro row hrow owner named same
        by_contra gone
        refine noRow ((fileAt_record_iff tracks.begun).mpr ⟨row, hrow, owner, named, ?_⟩)
        have missing : row.missing = true := by simpa using gone
        rw [record, same, missing]
      · intro clear name info statd
        obtain ⟨f, hf, rfl, here⟩ := (stat_eq_some_iff names).mp statd
        obtain ⟨fits, noRow⟩ := clear f hf info here
        refine ⟨fits, ?_⟩
        intro gone
        obtain ⟨row, hrow, owner, named, same⟩ := (fileAt_record_iff tracks.begun).mp gone
        obtain ⟨sameInfo, missing⟩ := Record.mk.inj same
        have present := noRow row hrow owner named sameInfo
        rw [missing] at present
        cases present

/-- A scan that swept left exactly the walked files live, in every dir it walked,
if and only if none of them returned unchanged. -/
theorem scan_converges_iff (reachable : s.Reachable) (found : s.byLoc loc = some run)
    (swept : run.swept = true) (stats : ∀ res ∈ run.walked, ∀ f ∈ res.files, f.info.isSome) :
    (∀ res ∈ run.walked, Converged loc res s.tables) ↔
      ∀ res ∈ run.walked, NoneReturnsUnchanged loc res run.begun := by
  constructor
  · intro converged res walked
    have dir := dir_converged_iff reachable.inv found swept walked (stats res walked)
    exact dir.mp (converged res walked)
  · intro clear res walked
    have dir := dir_converged_iff reachable.inv found swept walked (stats res walked)
    exact dir.mpr (clear res walked)

/-! ### Three scans of one file -/

/-- The only file of the location, at its root. -/
def oneFile : Tree := ⟨.file "01.flac" true (some ⟨1000, 5⟩) .nil, by decide⟩

/-- A file with the same name. -/
def otherFile : Tree := ⟨.file "01.flac" true (some ⟨1200, 9⟩) .nil, by decide⟩

def noFiles : Tree := ⟨.nil, trivial⟩

/-- A whole scan of location 1, by one worker. -/
def wholeScan (scanID : UUID) (tree : Tree) : List Action :=
  [.start 1 0 scanID false .insertion tree, .load 1 0, .commit 1 0 10 fun _ => 20, .sweep 1,
    .finish 1 9 none]

def fileAdded : List Action := .insertLocation 1 "file:///music" :: wholeScan 2 oneFile

/-- The file is scanned, then its removal, then its return. -/
def fileReturned : List Action := fileAdded ++ wholeScan 3 noFiles ++ wholeScan 4 oneFile

/-- Another file comes back under its name. -/
def fileReplaced : List Action := fileAdded ++ wholeScan 3 noFiles ++ wholeScan 4 otherFile

def afterActions (acts : List Action) (enabled : (Transition.run step empty acts).isSome) : Scanner :=
  (Transition.run step empty acts).get enabled

theorem afterActions_reachable (acts : List Action)
    (enabled : (Transition.run step empty acts).isSome) : (afterActions acts enabled).Reachable :=
  ⟨acts, (Option.some_get enabled).symm⟩

/-- The latest scan of location 1. -/
def scanOfOne (s : Scanner) (scanned : (s.byLoc 1).isSome) : ScanRun := (s.byLoc 1).get scanned

theorem scanOfOne_found (s : Scanner) (scanned : (s.byLoc 1).isSome) :
    s.byLoc 1 = some (scanOfOne s scanned) :=
  (Option.some_get scanned).symm

def replacingScan : ScanRun := scanOfOne (afterActions fileReplaced (by decide)) (by decide)

theorem replacingScan_converges :
    replacingScan.begun.files.map FileRow.missing = [true] ∧ replacingScan.walked ≠ [] ∧
      ∀ res ∈ replacingScan.walked,
        Converged 1 res (afterActions fileReplaced (by decide)).tables := by
  refine ⟨by decide, by decide, (scan_converges_iff
    (afterActions_reachable fileReplaced (by decide)) (scanOfOne_found _ (by decide)) ?_ ?_).mpr ?_⟩
  · decide
  · decide
  · decide

def lastScan : ScanRun := scanOfOne (afterActions fileReturned (by decide)) (by decide)

theorem fileReturned_stays_missing :
    ¬ ∀ (s : Scanner) (loc : UUID) (run : ScanRun), s.Reachable → s.byLoc loc = some run →
      run.swept = true → (∀ res ∈ run.walked, ∀ f ∈ res.files, f.info.isSome) →
      ∀ res ∈ run.walked, Converged loc res s.tables := by
  intro converges
  have last := converges (afterActions fileReturned (by decide)) 1 lastScan
    (afterActions_reachable fileReturned (by decide)) (scanOfOne_found _ (by decide)) (by decide)
    (by decide)
  exact absurd last (by decide)

end Scanner

end Byom.Scan
