import Byom.Scan.Sync
import Byom.Sqlite.DirView

/-!
# What a sync does to one file row

`reconcile` is the effect of a whole sync, load to commit, on one row: only the
row and the stat of the file that has its name matter. A row that is marked
missing and has the stat'd size and mod time stays missing.
-/

namespace Byom.Scan

open Storage Relational Sqlite

/-- The columns of a file row that a scan decides on. -/
structure Record where
  info : FileInfo
  missing : Bool
  deriving DecidableEq, Repr

def record (f : FileRow) : Record := ⟨f.info, f.missing⟩

/-- The stat of the walked file with a name, if there is one and it succeeded. -/
def WalkResult.stat (res : WalkResult) (name : Path) : Option FileInfo :=
  (lookup WalkEntry.name name res.files).bind WalkEntry.info

def reconcile : Option FileInfo → Option Record → Option Record
  | none, row => row.map fun r => { r with missing := true }
  | some info, none => if info = File.zero.info then none else some ⟨info.stored, false⟩
  | some info, some row => if info = row.info then some row else some ⟨info.stored, false⟩

/-- `known` is what `KnownFiles` returns for a dir, and the dir has not changed since. -/
structure Loaded (known : List File) (loc : UUID) (rel : Path) (t : ScanTables) : Prop where
  unique : UniqueOn File.name known
  rows : ∀ name, lookup File.name name known = (t.fileAt loc rel name).map ScanTables.scanFile

section

variable {t t' : ScanTables} {loc : UUID} {rel name : Path} {known : List File}
  {res : WalkResult}

theorem Loaded.of_sameDir (loaded : Loaded known loc rel t)
    (same : ScanTables.SameDir loc rel t t') : Loaded known loc rel t' := by
  refine ⟨loaded.unique, ?_⟩
  intro name
  rw [same.files, loaded.rows]

theorem knownIn_loaded (wf : t.WellFormed) (loc : UUID) (rel : Path) :
    Loaded (knownIn loc rel t) loc rel t := by
  unfold knownIn
  cases found : t.dirID loc rel with
  | none => exact ⟨uniqueOn_nil _, fun name => by simp [ScanTables.fileAt, found]⟩
  | some d =>
    refine ⟨?_, ?_⟩
    · show ((ScanTables.knownFiles d t).map File.name).Nodup
      unfold ScanTables.knownFiles
      rw [List.map_map]
      exact ScanTables.rowsOf_names wf.fileKeys d
    · intro name
      rw [ScanTables.fileAt_of_dirID found, ScanTables.lookup_rowsOf]
      unfold lookup ScanTables.knownFiles
      rw [List.find?_map]
      rfl

theorem previous_of_loaded (loaded : Loaded known loc rel t) (name : Path) :
    previous known name = ((t.fileAt loc rel name).map ScanTables.scanFile).getD File.zero := by
  rw [previous, loaded.rows]

/-- Only the info of the loaded row is compared: its `missing` flag was not read. -/
theorem unchanged_of_loaded (loaded : Loaded known loc rel t) {info : FileInfo} :
    unchanged (previous known name) info = true ↔
      (match t.fileAt loc rel name with
        | none => File.zero.info
        | some f => f.info) = info := by
  rw [previous_of_loaded loaded, unchanged_iff]
  cases t.fileAt loc rel name with
  | none => simp [File.zero]
  | some f => simp [ScanTables.scanFile, File.zero]

theorem compareWalked_names (files : List WalkEntry) (known : List File) :
    ((compareWalked files known).1.map File.name).Sublist (files.map WalkEntry.name) := by
  induction files generalizing known with
  | nil => exact .slnil
  | cons f fs ih =>
    have tail := ih (deleteWhere (fun k => k.name = f.name) known)
    unfold compareWalked
    cases stat : f.info with
    | none => exact tail.cons _
    | some info =>
      simp only
      split
      · exact tail.cons _
      · exact tail.cons_cons _

theorem stat_of_mem (names : UniqueOn WalkEntry.name res.files) {f : WalkEntry}
    (hf : f ∈ res.files) : res.stat f.name = f.info := by
  simp [WalkResult.stat, names.lookup_of_mem hf]

theorem stat_eq_some_iff (names : UniqueOn WalkEntry.name res.files) {info : FileInfo} :
    res.stat name = some info ↔ ∃ f ∈ res.files, f.name = name ∧ f.info = some info := by
  constructor
  · intro found
    obtain ⟨f, hf, statd⟩ := Option.bind_eq_some_iff.mp found
    exact ⟨f, mem_of_lookup hf, key_of_lookup hf, statd⟩
  · rintro ⟨f, hf, rfl, statd⟩
    rw [stat_of_mem names hf, statd]

theorem info_of_lookup_computed (names : UniqueOn WalkEntry.name res.files) {c : File}
    (found : lookup File.name name (computeChangeset known res).1 = some c) :
    res.stat name = some c.info ∧ unchanged (previous known name) c.info = false := by
  obtain ⟨f, hf, info, statd, differs, rfl⟩ := (mem_changed_iff names).mp (mem_of_lookup found)
  have named := key_of_lookup found
  simp only at named
  subst named
  exact ⟨(stat_of_mem names hf).trans statd, differs⟩

end

/-! ### The payload of a loaded dir -/

section Payload

variable {t t' : ScanTables} {loc : UUID} {gen : Int} {force : Bool} {known : List File}
  {res : WalkResult} {name : Path} {newDirID d : UUID} {newFileID : Path → UUID}

theorem payload_changed_unique (names : UniqueOn WalkEntry.name res.files) :
    UniqueOn File.name (syncPayload loc gen force known res).changed :=
  (compareWalked_names res.files known).nodup names

/-- A stat'd file that the payload leaves out looks unchanged. -/
theorem unchanged_of_lookup_changed (names : UniqueOn WalkEntry.name res.files)
    (absent : lookup File.name name (syncPayload loc gen force known res).changed = none)
    {info : FileInfo} (statd : res.stat name = some info) :
    unchanged (previous known name) info = true := by
  by_contra differs
  obtain ⟨f, hf, rfl, found⟩ := (stat_eq_some_iff names).mp statd
  have listed := (mem_changed_iff names).mpr
    ⟨f, hf, info, found, by simpa using differs, rfl⟩
  exact lookup_eq_none_iff.mp absent _ listed rfl

theorem info_of_lookup_changed (names : UniqueOn WalkEntry.name res.files) {c : File}
    (found : lookup File.name name (syncPayload loc gen force known res).changed = some c) :
    res.stat name = some c.info ∧ unchanged (previous known name) c.info = false :=
  info_of_lookup_computed names found

/-- A row of the dir is to be marked missing when no stat of its name succeeded. -/
theorem mem_payload_missing (gen : Int) (force : Bool) (wf : t.WellFormed)
    (names : UniqueOn WalkEntry.name res.files)
    (loaded : Loaded known loc res.dir t) {f : FileRow} (hf : f ∈ t.files) :
    f.id ∈ (syncPayload loc gen force known res).missing ↔
      t.dirID loc res.dir = some f.dirID ∧ res.stat f.name = none := by
  have spec := mem_missing_iff names loaded.unique f.id
  refine spec.trans ?_
  constructor
  · rintro ⟨k, hk, same, clear⟩
    have row := loaded.unique.lookup_of_mem hk
    rw [loaded.rows] at row
    obtain ⟨g, found, rfl⟩ := Option.map_eq_some_iff.mp row
    obtain ⟨hg, named, owner⟩ := ScanTables.fileAt_some found
    obtain rfl := wf.fileIDs.eq_of_key hg hf same
    refine ⟨owner, ?_⟩
    by_contra statd
    obtain ⟨info, statd⟩ := Option.ne_none_iff_exists'.mp statd
    obtain ⟨w, hw, sameName, some_⟩ := (stat_eq_some_iff names).mp statd
    rw [clear w hw sameName] at some_
    cases some_
  · rintro ⟨owner, unseen⟩
    have found := ScanTables.fileAt_of_mem wf hf owner
    have row := loaded.rows f.name
    rw [found, Option.map_some] at row
    refine ⟨_, mem_of_lookup row, rfl, ?_⟩
    intro w hw sameName
    have named : w.name = f.name := sameName
    rw [← named, stat_of_mem names hw] at unseen
    exact unseen

theorem payload_missingInside (gen : Int) (force : Bool) (wf : t.WellFormed)
    (names : UniqueOn WalkEntry.name res.files)
    (loaded : Loaded known loc res.dir t) :
    ScanTables.MissingInside (syncPayload loc gen force known res) t := by
  intro f hf listed
  exact ((mem_payload_missing gen force wf names loaded hf).mp listed).1

/-- `SyncDir` on the change set of a loaded dir reconciles each of its rows. -/
theorem syncDir_reconciles (wf : t.WellFormed) (names : UniqueOn WalkEntry.name res.files)
    (loaded : Loaded known loc res.dir t)
    (h : ScanTables.syncDir newDirID newFileID (syncPayload loc gen force known res) t =
      .ok (t', d)) (name : Path) :
    (t'.fileAt loc res.dir name).map record =
      reconcile (res.stat name) ((t.fileAt loc res.dir name).map record) := by
  have after := ScanTables.syncDir_fileAt wf (payload_changed_unique names) h name
  have dir : (syncPayload loc gen force known res).locationID = loc ∧
      (syncPayload loc gen force known res).relPath = res.dir := ⟨rfl, rfl⟩
  rw [dir.1, dir.2] at after
  simp only at after
  rw [after]
  cases changed : lookup File.name name (syncPayload loc gen force known res).changed with
  | some c =>
    obtain ⟨statd, differs⟩ := info_of_lookup_changed names changed
    have apart : ¬ unchanged (previous known name) c.info = true := by simp [differs]
    rw [unchanged_of_loaded loaded] at apart
    rw [statd]
    cases row : t.fileAt loc res.dir name with
    | none =>
      simp only [row] at apart
      simp [reconcile, Ne.symm apart, record, ScanTables.newFile]
    | some f =>
      simp only [row] at apart
      simp [reconcile, Ne.symm apart, record, ScanTables.refreshFile]
  | none =>
    cases row : t.fileAt loc res.dir name with
    | none =>
      cases statd : res.stat name with
      | none => rfl
      | some info =>
        have same := unchanged_of_lookup_changed names changed statd
        rw [unchanged_of_loaded loaded] at same
        simp only [row] at same
        simp [reconcile, same]
    | some f =>
      obtain ⟨hf, rfl, owner⟩ := ScanTables.fileAt_some row
      have missing := mem_payload_missing gen force wf names loaded hf
      cases statd : res.stat f.name with
      | none =>
        have marked := missing.mpr ⟨owner, statd⟩
        by_cases gone : f.missing = true
        · simp [reconcile, record, gone]
        · simp [reconcile, record, gone, marked]
      | some info =>
        have kept : f.id ∉ (syncPayload loc gen force known res).missing := by
          intro listed
          have := (missing.mp listed).2
          rw [statd] at this
          cases this
        have same := unchanged_of_lookup_changed names changed statd
        rw [unchanged_of_loaded loaded] at same
        simp only [row] at same
        simp [reconcile, record, same, kept]

end Payload

end Byom.Scan
