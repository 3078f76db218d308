import Byom.Sqlite.ScanSchema

/-!
# The file rows of one dir

`fileAt` finds a file row by its location, dir and name. The lemmas say which
statements leave the rows of a dir alone, and what `SyncDir` writes there.
-/

namespace Byom.Sqlite.ScanTables

open Storage Relational

/-- The row of a file, found by its path. -/
def fileAt (loc : UUID) (rel name : Path) (t : ScanTables) : Option FileRow :=
  (t.dirID loc rel).bind fun d => lookup FileRow.key (d, name) t.files

/-- The file rows of a dir. -/
def rowsOf (d : UUID) (t : ScanTables) : List FileRow := t.files.filter fun f => f.dirID = d

/-- The last generation that saw a dir. -/
def seenAt (loc : UUID) (rel : Path) (t : ScanTables) : Option Int :=
  (lookup DirRow.key (loc, rel) t.dirs).map DirRow.seenGeneration

/-- A dir has the same file rows in `t'` as in `t`, last seen by the same scan. -/
structure SameDir (loc : UUID) (rel : Path) (t t' : ScanTables) : Prop where
  files : ∀ name, t'.fileAt loc rel name = t.fileAt loc rel name
  seen : t'.seenAt loc rel = t.seenAt loc rel

section

variable {t t' : ScanTables} {loc : UUID} {rel name : Path} {d : UUID}

theorem SameDir.refl (loc : UUID) (rel : Path) (t : ScanTables) : SameDir loc rel t t :=
  ⟨fun _ => rfl, rfl⟩

theorem fileAt_of_dirID (found : t.dirID loc rel = some d) :
    t.fileAt loc rel name = lookup FileRow.key (d, name) t.files := by
  simp [fileAt, found]

theorem fileAt_some {f : FileRow} (h : t.fileAt loc rel name = some f) :
    f ∈ t.files ∧ f.name = name ∧ t.dirID loc rel = some f.dirID := by
  obtain ⟨d, found, row⟩ := Option.bind_eq_some_iff.mp h
  have key : f.key = (d, name) := key_of_lookup row
  obtain ⟨rfl, rfl⟩ := Prod.mk.inj key
  exact ⟨mem_of_lookup row, rfl, found⟩

theorem fileAt_of_mem (wf : t.WellFormed) {f : FileRow} (hf : f ∈ t.files)
    (found : t.dirID loc rel = some f.dirID) : t.fileAt loc rel f.name = some f := by
  rw [fileAt_of_dirID found]
  exact wf.fileKeys.lookup_of_mem hf

theorem lookup_rowsOf (d : UUID) (name : Path) (t : ScanTables) :
    lookup FileRow.key (d, name) t.files = lookup FileRow.name name (t.rowsOf d) := by
  unfold lookup rowsOf
  rw [List.find?_filter]
  congr 1
  funext f
  rw [Bool.eq_iff_iff]
  simp only [FileRow.key, Prod.mk.injEq, decide_eq_true_eq]

/-- The rows of a dir have names of their own. -/
theorem rowsOf_names (keys : UniqueOn FileRow.key t.files) (d : UUID) :
    UniqueOn FileRow.name (t.rowsOf d) := by
  have owner : ∀ f ∈ t.rowsOf d, f.dirID = d := by
    intro f hf
    simpa using (List.mem_filter.mp hf).2
  apply List.Nodup.map_on
  · intro a ha b hb same
    apply keys.eq_of_key (List.mem_of_mem_filter ha) (List.mem_of_mem_filter hb)
    exact Prod.ext ((owner a ha).trans (owner b hb).symm) same
  · exact List.Nodup.of_map FileRow.key (keys.filter _)

/-- One ID belongs to one path. -/
theorem dirID_inj (wf : t.WellFormed) {loc' : UUID} {rel' : Path}
    (found : t.dirID loc rel = some d) (found' : t.dirID loc' rel' = some d) :
    (loc, rel) = (loc', rel') := by
  obtain ⟨a, ha, idA, keyA⟩ := exists_dir_of_dirID found
  obtain ⟨b, hb, idB, keyB⟩ := exists_dir_of_dirID found'
  obtain rfl := wf.dirIDs.eq_of_key ha hb (idA.trans idB.symm)
  exact keyA.symm.trans keyB

/-! ### Statements that leave every dir as it was -/

/-- Writes of the queue columns. -/
theorem sameDir_of_dirs {p : DirRow → Bool} {set : DirRow → DirRow} (files : t'.files = t.files)
    (dirs : t'.dirs = updateWhere p set t.dirs) (ident : ∀ d, dirIdent (set d) = dirIdent d)
    (seen : ∀ d, (set d).seenGeneration = d.seenGeneration) (loc : UUID) (rel : Path) :
    SameDir loc rel t t' := by
  have keys : ∀ d, (set d).key = d.key := by
    intro d
    exact congrArg Prod.snd (ident d)
  have ids : ∀ d, (set d).id = d.id := by
    intro d
    exact congrArg Prod.fst (ident d)
  refine ⟨?_, ?_⟩
  · intro name
    unfold fileAt dirID
    rw [files, dirs, lookup_updateWhere keys, Option.map_map]
    congr 2
    funext d
    by_cases hit : p d = true <;> simp [hit, ids]
  · unfold seenAt
    rw [dirs, lookup_updateWhere keys, Option.map_map]
    congr 1
    funext d
    by_cases hit : p d = true <;> simp [hit, seen]

theorem sameDir_of_eq (files : t'.files = t.files) (dirs : t'.dirs = t.dirs) (loc : UUID)
    (rel : Path) : SameDir loc rel t t' := by
  refine ⟨?_, ?_⟩
  · intro name
    unfold fileAt dirID
    rw [files, dirs]
  · unfold seenAt
    rw [dirs]

/-! ### `Sweep` -/

/-- A dir that the generation has seen is not swept, nor is one of another location. -/
theorem sweep_sameDir (wf : t.WellFormed) {swept : UUID} {gen : Int}
    (apart : loc ≠ swept ∨ t.seenAt loc rel = some gen) :
    SameDir loc rel t (sweep swept gen t).1 := by
  have spared : ∀ r, lookup DirRow.key (loc, rel) t.dirs = some r → unseen swept gen r = false := by
    intro r found
    have owner : r.locationID = loc := congrArg Prod.fst (key_of_lookup found)
    rcases apart with other | current
    · simp [unseen, owner, other]
    · have same : r.seenGeneration = gen := by simpa [seenAt, found] using current
      simp [unseen, same]
  have keys : ∀ d : DirRow, ({ d with missing := true } : DirRow).key = d.key := fun _ => rfl
  have row : lookup DirRow.key (loc, rel) (sweep swept gen t).1.dirs =
      lookup DirRow.key (loc, rel) t.dirs := by
    unfold sweep
    rw [lookup_updateWhere keys]
    cases found : lookup DirRow.key (loc, rel) t.dirs with
    | none => rfl
    | some r => simp [spared r found]
  refine ⟨?_, by unfold seenAt; rw [row]⟩
  intro name
  unfold fileAt dirID
  rw [row]
  cases found : lookup DirRow.key (loc, rel) t.dirs with
  | none => rfl
  | some r =>
    have kept : r.id ∉ (t.dirs.filter (unseen swept gen)).map DirRow.id := by
      intro listed
      obtain ⟨other, hother, same⟩ := List.mem_map.mp listed
      obtain ⟨member, gone⟩ := List.mem_filter.mp hother
      obtain rfl := wf.dirIDs.eq_of_key member (mem_of_lookup found) same
      rw [spared other found] at gone
      cases gone
    have fileKeys : ∀ f : FileRow, ({ f with missing := true } : FileRow).key = f.key :=
      fun _ => rfl
    simp only [Option.map_some, Option.bind_some]
    unfold sweep
    rw [lookup_updateWhere fileKeys]
    cases file : lookup FileRow.key (r.id, name) t.files with
    | none => rfl
    | some f =>
      have owner : f.dirID = r.id := congrArg Prod.fst (key_of_lookup file)
      rw [Option.map_some, owner, if_neg (by simpa using kept)]

/-! ### `SyncDir` -/

variable {newDirID : UUID} {newFileID : Path → UUID} {p : Scan.SyncPayload}

theorem lookup_markMissingFiles (ids : List UUID) (t : ScanTables) (k : UUID × Path) :
    lookup FileRow.key k (markMissingFiles ids t).files = (lookup FileRow.key k t.files).map
      fun f => if f.id ∈ ids ∧ f.missing = false then { f with missing := true } else f := by
  have keys : ∀ f : FileRow, ({ f with missing := true } : FileRow).key = f.key := fun _ => rfl
  unfold markMissingFiles
  rw [lookup_updateWhere keys]
  simp only [decide_eq_true_eq]

/-- The row that a payload leaves under a name: rewritten or inserted if the payload
changes it, as it was otherwise. -/
theorem lookup_upsertFiles {fs : List File} (unique : UniqueOn File.name fs)
    (h : upsertFiles newFileID d fs t = .ok t') (name : Path) :
    lookup FileRow.key (d, name) t'.files =
      match lookup File.name name fs with
      | none => lookup FileRow.key (d, name) t.files
      | some f => some (((lookup FileRow.key (d, name) t.files).map (refreshFile f)).getD
          (newFile newFileID d f)) := by
  induction fs generalizing t with
  | nil =>
    cases h
    rfl
  | cons f fs ih =>
    obtain ⟨new, distinct⟩ := List.nodup_cons.mp unique
    obtain ⟨u, first, rest⟩ := upsertFiles_cons h
    rw [ih distinct rest]
    obtain ⟨rfl, _⟩ := upsertFile_spec first
    by_cases same : f.name = name
    · subst same
      have absent : lookup File.name f.name fs = none := by
        apply lookup_eq_none_iff.mpr
        intro g hg clash
        exact new (clash ▸ List.mem_map_of_mem hg)
      have here : lookup File.name f.name (f :: fs) = some f := by simp [lookup]
      rw [absent, here]
      have written := lookup_upsertOn_self (newFile newFileID d f) t.files
        (refreshFile_key f)
      rw [newFile_key] at written
      exact written
    · have skip : lookup File.name name (f :: fs) = lookup File.name name fs := by
        simp [lookup, same]
      have frame : lookup FileRow.key (d, name)
          (upsertOn FileRow.key (refreshFile f) (newFile newFileID d f) t.files) =
          lookup FileRow.key (d, name) t.files := by
        apply lookup_upsertOn_ne (refreshFile_key f)
        rw [newFile_key]
        intro clash
        exact same (Prod.mk.inj clash).2.symm
      rw [skip, frame]

theorem lookup_upsertFiles_ne {fs : List File} (h : upsertFiles newFileID d fs t = .ok t')
    {k : UUID × Path} (other : k.1 ≠ d) :
    lookup FileRow.key k t'.files = lookup FileRow.key k t.files := by
  induction fs generalizing t with
  | nil =>
    cases h
    rfl
  | cons f fs ih =>
    obtain ⟨u, first, rest⟩ := upsertFiles_cons h
    rw [ih rest]
    obtain ⟨rfl, _⟩ := upsertFile_spec first
    apply lookup_upsertOn_ne (refreshFile_key f)
    rw [newFile_key]
    rintro rfl
    exact other rfl

/-- The IDs to be marked missing belong to files of the payload's dir. -/
def MissingInside (p : Scan.SyncPayload) (t : ScanTables) : Prop :=
  ∀ f ∈ t.files, f.id ∈ p.missing → t.dirID p.locationID p.relPath = some f.dirID

theorem syncDir_dirs (h : syncDir newDirID newFileID p t = .ok (t', d)) :
    t'.dirs = upsertOn DirRow.key (resyncDir p) (newDir newDirID p) t.dirs := by
  obtain ⟨u, first, second⟩ := syncDir_spec h
  obtain ⟨rfl, _⟩ := upsertDir_spec first
  exact (upsertFiles_frame second).1

theorem syncDir_dirID (h : syncDir newDirID newFileID p t = .ok (t', d)) :
    t'.dirID p.locationID p.relPath = some d := by
  obtain ⟨u, first, second⟩ := syncDir_spec h
  have named := upsertDir_dirID first
  unfold dirID at named ⊢
  rw [(upsertFiles_frame second).1]
  exact named

/-- The dir had its ID before, or had no file rows. -/
theorem syncDir_lookup_before (wf : t.WellFormed) (h : syncDir newDirID newFileID p t = .ok (t', d))
    (name : Path) :
    t.fileAt p.locationID p.relPath name = lookup FileRow.key (d, name) t.files := by
  obtain ⟨u, first, _⟩ := syncDir_spec h
  obtain ⟨_, ⟨row, found, rfl⟩ | ⟨found, rfl, fresh, _⟩⟩ := upsertDir_spec first
  · exact fileAt_of_dirID (by simp [dirID, found])
  · have absent : lookup FileRow.key (d, name) t.files = none := by
      apply lookup_eq_none_iff.mpr
      intro f hf same
      obtain ⟨row, hrow, owner⟩ := wf.fileDirs f hf
      exact fresh row hrow (owner.trans (congrArg Prod.fst same))
    simp [fileAt, dirID, found, absent]

theorem syncDir_seenAt (h : syncDir newDirID newFileID p t = .ok (t', d)) :
    t'.seenAt p.locationID p.relPath = some p.generation := by
  have written := lookup_upsertOn_self (newDir newDirID p) t.dirs
    (resyncDir_key p)
  rw [newDir_key] at written
  unfold seenAt
  rw [syncDir_dirs h, written, upserted, newDir_key]
  cases lookup DirRow.key (p.locationID, p.relPath) t.dirs <;> rfl

/-- The rows of the synced dir, in terms of those before. -/
theorem syncDir_fileAt (wf : t.WellFormed) (unique : UniqueOn File.name p.changed)
    (h : syncDir newDirID newFileID p t = .ok (t', d)) (name : Path) :
    let marked := (t.fileAt p.locationID p.relPath name).map fun f =>
      if f.id ∈ p.missing ∧ f.missing = false then { f with missing := true } else f
    t'.fileAt p.locationID p.relPath name =
      match lookup File.name name p.changed with
      | none => marked
      | some f => some ((marked.map (refreshFile f)).getD (newFile newFileID d f)) := by
  intro marked
  have before := syncDir_lookup_before wf h name
  rw [fileAt_of_dirID (syncDir_dirID h)]
  obtain ⟨u, first, second⟩ := syncDir_spec h
  obtain ⟨rfl, _⟩ := upsertDir_spec first
  rw [lookup_upsertFiles unique second, lookup_markMissingFiles, ← before]

/-- The other dirs keep their rows. -/
theorem syncDir_sameDir_ne (wf : t.WellFormed) (inside : MissingInside p t)
    (h : syncDir newDirID newFileID p t = .ok (t', d)) (other : (loc, rel) ≠ (p.locationID, p.relPath)) :
    SameDir loc rel t t' := by
  have wf' := syncDir_wellFormed h wf
  have here := syncDir_dirID h
  have dirs := syncDir_dirs h
  have row : lookup DirRow.key (loc, rel) t'.dirs = lookup DirRow.key (loc, rel) t.dirs := by
    rw [dirs]
    exact lookup_upsertOn_ne (resyncDir_key p) other
  refine ⟨?_, by unfold seenAt; rw [row]⟩
  intro name
  have sameID : t'.dirID loc rel = t.dirID loc rel := by
    unfold dirID
    rw [row]
  unfold fileAt
  rw [sameID]
  cases found : t.dirID loc rel with
  | none => rfl
  | some e =>
    have apart : e ≠ d := by
      rintro rfl
      exact other (dirID_inj wf' (sameID.trans found) here)
    obtain ⟨u, first, second⟩ := syncDir_spec h
    obtain ⟨rfl, _⟩ := upsertDir_spec first
    rw [Option.bind_some, Option.bind_some, lookup_upsertFiles_ne second apart,
      lookup_markMissingFiles]
    cases file : lookup FileRow.key (e, name) t.files with
    | none => rfl
    | some f =>
      have owner : f.dirID = e := congrArg Prod.fst (key_of_lookup file)
      have kept : f.id ∉ p.missing := by
        intro listed
        have atP := inside f (mem_of_lookup file) listed
        rw [owner] at atP
        exact other (dirID_inj wf found atP)
      simp [kept]

/-! ### All file rows of a dir -/

/-- What a parse of a dir reads is in the rows of that dir. -/
theorem dirFiles_of_rowsOf (same : t'.rowsOf d = t.rowsOf d) : t'.dirFiles d = t.dirFiles d := by
  have read : ∀ u : ScanTables, u.dirFiles d =
      (((u.rowsOf d).filter fun f => f.missing = false).map scanFile).insertionSort nameOrder := by
    intro u
    unfold dirFiles rowsOf
    rw [List.filter_filter]
    congr 3
    funext f
    simp [Bool.and_comm]
  rw [read, read, same]

theorem upsertFiles_filter {fs : List File} (h : upsertFiles newFileID d fs t = .ok t')
    {q : FileRow → Bool} (outside : ∀ f, f.dirID = d → q f = false) :
    t'.files.filter q = t.files.filter q := by
  induction fs generalizing t with
  | nil =>
    cases h
    rfl
  | cons f fs ih =>
    obtain ⟨u, first, rest⟩ := upsertFiles_cons h
    rw [ih rest]
    obtain ⟨rfl, _⟩ := upsertFile_spec first
    apply filter_upsertOn_of_disjoint
    · exact outside _ rfl
    · intro r _ same
      have owner : r.dirID = d := congrArg Prod.fst same
      exact ⟨outside r owner, outside _ owner⟩

/-- A selection without files of the synced dir stays as it was. -/
theorem syncDir_filter (inside : MissingInside p t)
    (h : syncDir newDirID newFileID p t = .ok (t', d)) {q : FileRow → Bool}
    (outside : ∀ f, f.dirID = d → q f = false) : t'.files.filter q = t.files.filter q := by
  obtain ⟨u, first, second⟩ := syncDir_spec h
  rw [upsertFiles_filter second outside]
  obtain ⟨rfl, found⟩ := upsertDir_spec first
  unfold markMissingFiles
  apply filter_updateWhere_of_disjoint
  intro f hf marked
  have owner : f.dirID = d := by
    simp only [decide_eq_true_eq] at marked
    have named := inside f hf marked.1
    unfold dirID at named
    rcases found with ⟨row, found, rfl⟩ | ⟨absent, _⟩
    · rw [found] at named
      exact (Option.some.inj named).symm
    · rw [absent] at named
      cases named
  exact ⟨outside f owner, outside _ owner⟩

theorem syncDir_rowsOf_ne (inside : MissingInside p t)
    (h : syncDir newDirID newFileID p t = .ok (t', d)) {e : UUID} (other : e ≠ d) :
    t'.rowsOf e = t.rowsOf e := by
  apply syncDir_filter inside h
  rintro f rfl
  simp [Ne.symm other]

end

end Byom.Sqlite.ScanTables
