import Byom.Scan.Convergence
import Byom.Scan.Generations

/-!
# Change sets with nothing in them

A payload is clean when its dir has no row without a walked file and every stat
agrees with the row of its file. A clean payload writes one column of its dir.
-/

namespace Byom.Scan

open Storage Relational Sqlite

/-- Nothing to write and nothing to parse. `OnDirty` follows the dirty payloads. -/
def SyncPayload.Clean (p : SyncPayload) : Prop :=
  p.dirty = false ∧ p.changed = [] ∧ p.missing = []

instance (p : SyncPayload) : Decidable p.Clean := inferInstanceAs (Decidable (_ ∧ _ ∧ _))

/-- The stat of a file agrees with what is known of it. -/
def Agrees : Option FileInfo → Option Record → Prop
  | none, row => row = none
  | some info, none => info = File.zero.info
  | some info, some row => info = row.info

section Payload

variable {t : ScanTables} {loc : UUID} {gen : Int} {known : List File} {res : WalkResult}

theorem clean_iff :
    (syncPayload loc gen false known res).Clean ↔
      (syncPayload loc gen false known res).changed = [] ∧
        (syncPayload loc gen false known res).missing = [] := by
  constructor
  · exact fun clean => clean.2
  · rintro ⟨changed, missing⟩
    refine ⟨?_, changed, missing⟩
    simp only [syncPayload, computeChangeset] at changed missing ⊢
    rw [changed, missing]
    rfl

theorem unchanged_iff_agrees (loaded : Loaded known loc res.dir t) {name : Path} {info : FileInfo} :
    unchanged (previous known name) info = true ↔
      Agrees (some info) ((t.fileAt loc res.dir name).map record) := by
  rw [unchanged_of_loaded loaded]
  cases t.fileAt loc res.dir name with
  | none => exact eq_comm
  | some f => exact eq_comm

theorem payload_clean_iff (wf : t.WellFormed) (names : UniqueOn WalkEntry.name res.files)
    (loaded : Loaded known loc res.dir t) :
    (syncPayload loc gen false known res).Clean ↔
      ∀ name, Agrees (res.stat name) ((t.fileAt loc res.dir name).map record) := by
  rw [clean_iff]
  constructor
  · rintro ⟨changed, missing⟩ name
    cases statd : res.stat name with
    | none =>
      cases row : t.fileAt loc res.dir name with
      | none => rfl
      | some f =>
        obtain ⟨hf, rfl, owner⟩ := ScanTables.fileAt_some row
        have listed := (mem_payload_missing gen false wf names loaded hf).mpr ⟨owner, statd⟩
        rw [missing] at listed
        cases listed
    | some info =>
      have absent : lookup File.name name (syncPayload loc gen false known res).changed = none := by
        rw [changed]
        rfl
      exact (unchanged_iff_agrees loaded).mp (unchanged_of_lookup_changed names absent statd)
  · intro agrees
    refine ⟨?_, ?_⟩
    · apply List.eq_nil_iff_forall_not_mem.mpr
      intro c hc
      obtain ⟨f, hf, info, statd, differs, _⟩ := (mem_changed_iff names).mp hc
      have same := agrees f.name
      rw [stat_of_mem names hf, statd, ← unchanged_iff_agrees loaded, differs] at same
      cases same
    · apply List.eq_nil_iff_forall_not_mem.mpr
      intro id hid
      obtain ⟨k, hk, _, clear⟩ := (mem_missing_iff names loaded.unique id).mp hid
      have row := loaded.unique.lookup_of_mem hk
      rw [loaded.rows] at row
      obtain ⟨f, found, rfl⟩ := Option.map_eq_some_iff.mp row
      have same := agrees f.name
      rw [show (ScanTables.scanFile f).name = f.name from rfl] at found clear
      rw [found] at same
      cases statd : res.stat f.name with
      | none =>
        rw [statd] at same
        cases same
      | some info =>
        obtain ⟨w, hw, named, some_⟩ := (stat_eq_some_iff names).mp statd
        rw [clear w hw named] at some_
        cases some_

end Payload

/-! ### The rows of one location -/

def dirsHere (loc : UUID) (t : ScanTables) : List DirRow := t.dirs.filter fun d => d.locationID = loc

def filesHere (loc : UUID) (t : ScanTables) : List FileRow :=
  t.files.filter fun f => f.dirID ∈ (dirsHere loc t).map DirRow.id

def forgetSeen (d : DirRow) : DirRow := { d with seenGeneration := 0 }

/-- The dirs of a location and their file rows are the same, up to the generation
that saw a dir last. -/
structure SameButSeen (loc : UUID) (t t' : ScanTables) : Prop where
  dirs : (dirsHere loc t').map forgetSeen = (dirsHere loc t).map forgetSeen
  files : filesHere loc t' = filesHere loc t

section SameButSeen

variable {t t' t'' : ScanTables} {loc : UUID}

theorem SameButSeen.refl (loc : UUID) (t : ScanTables) : SameButSeen loc t t := ⟨rfl, rfl⟩

theorem SameButSeen.trans (first : SameButSeen loc t t') (second : SameButSeen loc t' t'') :
    SameButSeen loc t t'' :=
  ⟨second.dirs.trans first.dirs, second.files.trans first.files⟩

/-- The IDs of the dirs are compared too, so it is enough to look at all files. -/
theorem SameButSeen.of_files (dirs : (dirsHere loc t').map forgetSeen = (dirsHere loc t).map forgetSeen)
    (files : t'.files = t.files) : SameButSeen loc t t' := by
  refine ⟨dirs, ?_⟩
  have ids : (dirsHere loc t').map DirRow.id = (dirsHere loc t).map DirRow.id := by
    have read : ∀ rows : List DirRow, rows.map DirRow.id = (rows.map forgetSeen).map DirRow.id :=
      fun rows => by rw [List.map_map]; rfl
    rw [read (dirsHere loc t'), dirs, ← read]
  unfold filesHere
  rw [files, ids]

theorem SameButSeen.of_eq (dirs : t'.dirs = t.dirs) (files : t'.files = t.files) :
    SameButSeen loc t t' := by
  refine .of_files ?_ files
  unfold dirsHere
  rw [dirs]

/-- An update of the dirs that spares those of the location. -/
theorem SameButSeen.of_updateWhere {p : DirRow → Bool} {set : DirRow → DirRow}
    (dirs : t'.dirs = updateWhere p set t.dirs) (files : t'.files = t.files)
    (spares : ∀ d ∈ t.dirs, p d = true → d.locationID ≠ loc ∧ (set d).locationID = d.locationID) :
    SameButSeen loc t t' := by
  refine .of_files ?_ files
  congr 1
  unfold dirsHere
  rw [dirs]
  apply filter_updateWhere_of_disjoint
  intro d hd hit
  obtain ⟨apart, kept⟩ := spares d hd hit
  simp [kept, apart]

theorem SameButSeen.of_elsewhere {other : UUID} (apart : loc ≠ other)
    (same : ScanTables.SameElsewhere other t t') : SameButSeen loc t t' := by
  have readDirs : ∀ u : ScanTables,
      dirsHere loc u = (u.dirsElsewhere other).filter fun d => d.locationID = loc := by
    intro u
    unfold dirsHere ScanTables.dirsElsewhere
    rw [List.filter_filter]
    apply List.filter_congr
    intro d _
    by_cases here : d.locationID = loc
    · simp [here, apart]
    · simp [here]
  have dirs : dirsHere loc t' = dirsHere loc t := by rw [readDirs, readDirs, same.dirs]
  have listed : ∀ id ∈ (dirsHere loc t).map DirRow.id,
      id ∈ (t.dirsElsewhere other).map DirRow.id := by
    intro id hid
    obtain ⟨d, hd, rfl⟩ := List.mem_map.mp hid
    rw [readDirs] at hd
    exact List.mem_map_of_mem (List.mem_of_mem_filter hd)
  have readFiles : ∀ u : ScanTables, u.dirsElsewhere other = t.dirsElsewhere other →
      u.files.filter (fun f => f.dirID ∈ (dirsHere loc t).map DirRow.id) =
        (u.filesElsewhere other).filter fun f => f.dirID ∈ (dirsHere loc t).map DirRow.id := by
    intro u sameDirs
    unfold ScanTables.filesElsewhere
    rw [sameDirs, List.filter_filter]
    apply List.filter_congr
    intro f _
    by_cases here : f.dirID ∈ (dirsHere loc t).map DirRow.id
    · have outside := listed f.dirID here
      simp only [here, outside, decide_true, Bool.and_self]
    · simp only [here, decide_false, Bool.false_and]
  refine ⟨by rw [dirs], ?_⟩
  unfold filesHere
  rw [dirs, readFiles t' same.dirs, readFiles t rfl, same.files]

/-- A clean payload for a live dir records that the dir was seen. -/
theorem SameButSeen.of_clean {p : SyncPayload} {newDirID d : UUID} {newFileID : Path → UUID}
    (clean : p.Clean) (h : t.syncDir newDirID newFileID p = .ok (t', d)) {seen : ScanTables.Sighting}
    (found : t.dirAt p.locationID p.relPath = some seen) (live : seen.missing = false)
    (wf : t.WellFormed) : SameButSeen p.locationID t t' := by
  obtain ⟨unqueued, changed, missing⟩ := clean
  obtain ⟨u, first, second⟩ := ScanTables.syncDir_spec h
  obtain ⟨rfl, _⟩ := ScanTables.upsertDir_spec first
  rw [changed, missing] at second
  have files : t'.files = t.files := by
    cases second
    exact updateWhere_eq_self _ (by simp)
  refine .of_files ?_ files
  obtain ⟨row, hrow, owner, path, rfl⟩ := ScanTables.dirAt_some found
  have key : row.key = (p.locationID, p.relPath) := Prod.ext owner path
  have hit : lookup DirRow.key (ScanTables.newDir newDirID p).key t.dirs = some row := by
    rw [ScanTables.newDir_key, ← key]
    exact wf.dirKeys.lookup_of_mem hrow
  have dirs := ScanTables.syncDir_dirs h
  rw [upsertOn_of_lookup _ hit] at dirs
  unfold dirsHere
  rw [dirs, updateWhere, List.filter_map, List.map_map]
  have owners : ((fun r : DirRow => decide (r.locationID = p.locationID)) ∘ fun r =>
      if decide (r.key = (ScanTables.newDir newDirID p).key) = true then ScanTables.resyncDir p r
      else r) = fun r => decide (r.locationID = p.locationID) := by
    funext r
    simp only [Function.comp_apply]
    split <;> rfl
  rw [owners]
  apply List.map_congr_left
  intro r hr
  simp only [Function.comp_apply]
  split
  · rename_i same
    -- The only row with this key is the live one.
    have sameKey : r.key = row.key := by
      rw [key]
      exact of_decide_eq_true same
    obtain rfl := wf.dirKeys.eq_of_key (List.mem_of_mem_filter hr) hrow sameKey
    have present : r.missing = false := live
    simp [ScanTables.resyncDir, forgetSeen, unqueued, present]
  · rfl

end SameButSeen

end Byom.Scan
