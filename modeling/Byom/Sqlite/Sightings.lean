import Byom.Sqlite.DirView

/-!
# Sightings of dirs

`dirAt` is what scans write in a dir row: which scan saw it last, and whether it
is missing. `generationAt` is the generation of a location. The lemmas say what
each statement of a scan does to them, and `SameElsewhere` that it leaves the
rows of other locations alone.
-/

namespace Byom.Sqlite.ScanTables

open Storage Relational

/-- The ID of a dir row and the columns that only scans write. -/
structure Sighting where
  id : UUID
  seen : Int
  missing : Bool
  deriving DecidableEq, Repr

def sighting (d : DirRow) : Sighting := ⟨d.id, d.seenGeneration, d.missing⟩

def dirAt (loc : UUID) (rel : Path) (t : ScanTables) : Option Sighting :=
  (lookup DirRow.key (loc, rel) t.dirs).map sighting

def generationAt (loc : UUID) (t : ScanTables) : Option Int :=
  (lookup LocationRow.id loc t.locations).map LocationRow.scanGeneration

section

variable {t t' : ScanTables} {loc : UUID} {rel : Path} {d : UUID}

theorem dirAt_of_mem (wf : t.WellFormed) {row : DirRow} (hrow : row ∈ t.dirs) :
    t.dirAt row.locationID row.relPath = some (sighting row) := by
  have found := wf.dirKeys.lookup_of_mem hrow
  unfold dirAt
  rw [← DirRow.key, found]
  rfl

theorem dirAt_some {seen : Sighting} (h : t.dirAt loc rel = some seen) :
    ∃ row ∈ t.dirs, row.locationID = loc ∧ row.relPath = rel ∧ sighting row = seen := by
  obtain ⟨row, found, rfl⟩ := Option.map_eq_some_iff.mp h
  have key : row.key = (loc, rel) := key_of_lookup found
  obtain ⟨rfl, rfl⟩ := Prod.mk.inj key
  exact ⟨row, mem_of_lookup found, rfl, rfl, rfl⟩

/-! ### Statements of the parse queue, and the start of a scan -/

theorem dirAt_updateWhere {p : DirRow → Bool} {set : DirRow → DirRow}
    (dirs : t'.dirs = updateWhere p set t.dirs) (keys : ∀ r, (set r).key = r.key)
    (same : ∀ r, sighting (set r) = sighting r) (loc : UUID) (rel : Path) :
    t'.dirAt loc rel = t.dirAt loc rel := by
  unfold dirAt
  rw [dirs, lookup_updateWhere keys, Option.map_map]
  congr 1
  funext r
  by_cases hit : p r = true <;> simp [hit, same]

theorem dirAt_of_eq (dirs : t'.dirs = t.dirs) (loc : UUID) (rel : Path) :
    t'.dirAt loc rel = t.dirAt loc rel := by
  unfold dirAt
  rw [dirs]

theorem generationAt_of_eq (locations : t'.locations = t.locations) (loc : UUID) :
    t'.generationAt loc = t.generationAt loc := by
  unfold generationAt
  rw [locations]

section BeginScan

variable {now : Int} {scanID : UUID} {gen : Int}

theorem beginScan_generationAt (h : beginScan now scanID loc t = .ok (t', gen)) :
    t'.generationAt loc = some gen ∧ t.generationAt loc = some (gen - 1) := by
  unfold beginScan at h
  cases found : lookup LocationRow.id loc t.locations with
  | none => simp [found] at h
  | some row =>
    simp only [found] at h
    split at h
    · cases h
    · injection h with h
      injection h with tables generation
      subst tables
      have bump : ∀ l : LocationRow,
          ({ l with scanGeneration := l.scanGeneration + 1 } : LocationRow).id = l.id :=
        fun _ => rfl
      refine ⟨?_, ?_⟩
      · unfold generationAt
        rw [lookup_updateWhere bump, found]
        simp [key_of_lookup found, generation]
      · simp [generationAt, found, ← generation]

theorem beginScan_generationAt_ne (h : beginScan now scanID loc t = .ok (t', gen)) {other : UUID}
    (apart : other ≠ loc) : t'.generationAt other = t.generationAt other := by
  unfold beginScan at h
  cases found : lookup LocationRow.id loc t.locations with
  | none => simp [found] at h
  | some row =>
    simp only [found] at h
    split at h
    · cases h
    · injection h with h
      injection h with tables _
      subst tables
      have bump : ∀ l : LocationRow,
          ({ l with scanGeneration := l.scanGeneration + 1 } : LocationRow).id = l.id :=
        fun _ => rfl
      unfold generationAt
      rw [lookup_updateWhere bump]
      cases row' : lookup LocationRow.id other t.locations with
      | none => rfl
      | some l => simp [key_of_lookup row', apart]

theorem beginScan_dirAt (h : beginScan now scanID loc t = .ok (t', gen)) (other : UUID)
    (rel : Path) : t'.dirAt other rel = t.dirAt other rel := by
  obtain ⟨_, _, dirs, _⟩ := beginScan_spec h
  apply dirAt_updateWhere dirs
  · exact fun _ => rfl
  · exact fun _ => rfl

end BeginScan

/-- A new location is at generation 0; the others stay where they are. -/
theorem insertLocation_generationAt {id : UUID} {uri : String}
    (h : insertLocation id uri t = .ok t') (loc : UUID) (known : ∃ l ∈ t.locations, l.id = loc) :
    t'.generationAt loc = t.generationAt loc := by
  unfold insertLocation at h
  split at h
  · cases h
  · rename_i fresh
    injection h with h
    subst h
    obtain ⟨l, hl, rfl⟩ := known
    have apart : id ≠ l.id := by
      intro same
      exact fresh (List.any_eq_true.mpr ⟨l, hl, by simp [same]⟩)
    unfold generationAt
    rw [lookup_append_ne apart]

/-! ### `Sweep` -/

/-- A sweep marks the dirs of its location that an older generation saw last. -/
def Sighting.swept (gen : Int) (seen : Sighting) : Sighting :=
  if seen.seen < gen then { seen with missing := true } else seen

theorem sweep_dirAt (gen : Int) (loc : UUID) (rel : Path) (t : ScanTables) :
    (sweep loc gen t).1.dirAt loc rel = (t.dirAt loc rel).map (Sighting.swept gen) := by
  have keys : ∀ r : DirRow, ({ r with missing := true } : DirRow).key = r.key := fun _ => rfl
  unfold dirAt sweep
  rw [lookup_updateWhere keys]
  cases found : lookup DirRow.key (loc, rel) t.dirs with
  | none => rfl
  | some r =>
    have owner : r.locationID = loc := congrArg Prod.fst (key_of_lookup found)
    by_cases old : r.seenGeneration < gen
    · by_cases gone : r.missing = true
      · simp [unseen, sighting, Sighting.swept, old, gone]
      · simp [unseen, sighting, Sighting.swept, old, gone, owner]
    · simp [unseen, sighting, Sighting.swept, old]

theorem sweep_dirAt_ne (gen : Int) {other : UUID} (apart : other ≠ loc) (rel : Path) :
    (sweep loc gen t).1.dirAt other rel = t.dirAt other rel := by
  have keys : ∀ r : DirRow, ({ r with missing := true } : DirRow).key = r.key := fun _ => rfl
  unfold dirAt sweep
  rw [lookup_updateWhere keys]
  cases found : lookup DirRow.key (other, rel) t.dirs with
  | none => rfl
  | some r =>
    have owner : r.locationID = other := congrArg Prod.fst (key_of_lookup found)
    simp [unseen, owner, apart]

/-- The files of the dirs it marks are marked with them. -/
theorem sweep_files {gen : Int} {seen : Sighting}
    (found : t.dirAt loc rel = some seen) (old : seen.seen < gen) (live : seen.missing = false)
    {f : FileRow} (hf : f ∈ (sweep loc gen t).1.files) (owner : f.dirID = seen.id) :
    f.missing = true := by
  obtain ⟨row, hrow, rfl, rfl, rfl⟩ := dirAt_some found
  obtain ⟨before, hbefore, rfl⟩ := mem_updateWhere.mp hf
  have marked : row.id ∈ (t.dirs.filter (unseen row.locationID gen)).map DirRow.id := by
    apply List.mem_map_of_mem
    exact List.mem_filter.mpr ⟨hrow, by simpa [unseen, sighting] using ⟨old, live⟩⟩
  by_cases hit : before.dirID ∈ (t.dirs.filter (unseen row.locationID gen)).map DirRow.id
  · rw [if_pos (by simpa using hit)]
  · rw [if_neg (by simpa using hit)] at owner
    exact absurd (owner ▸ marked) hit

/-! ### `SyncDir` -/

variable {newDirID : UUID} {newFileID : Path → UUID} {p : Scan.SyncPayload}

theorem syncDir_locations (h : syncDir newDirID newFileID p t = .ok (t', d)) :
    t'.locations = t.locations := by
  obtain ⟨u, first, second⟩ := syncDir_spec h
  obtain ⟨rfl, _⟩ := upsertDir_spec first
  exact (upsertFiles_frame second).2.1

theorem syncDir_dirAt (h : syncDir newDirID newFileID p t = .ok (t', d)) :
    t'.dirAt p.locationID p.relPath = some ⟨d, p.generation, false⟩ := by
  have written := lookup_upsertOn_self (newDir newDirID p) t.dirs (resyncDir_key p)
  have named := syncDir_dirID h
  rw [newDir_key] at written
  unfold dirID at named
  unfold dirAt
  rw [syncDir_dirs h, written] at named ⊢
  have id : (upserted DirRow.key (resyncDir p) (newDir newDirID p) t.dirs).id = d := by
    simpa using named
  rw [Option.map_some, Option.some.injEq, ← id]
  unfold upserted
  cases lookup DirRow.key (newDir newDirID p).key t.dirs <;> rfl

/-- A dir that is there keeps its ID. -/
theorem syncDir_id (h : syncDir newDirID newFileID p t = .ok (t', d)) {seen : Sighting}
    (found : t.dirAt p.locationID p.relPath = some seen) : d = seen.id := by
  obtain ⟨u, first, _⟩ := syncDir_spec h
  obtain ⟨row, at_, rfl⟩ := Option.map_eq_some_iff.mp found
  obtain ⟨_, ⟨old, there, rfl⟩ | ⟨absent, _⟩⟩ := upsertDir_spec first
  · rw [at_] at there
    cases there
    rfl
  · rw [at_] at absent
    cases absent

theorem syncDir_dirAt_ne (h : syncDir newDirID newFileID p t = .ok (t', d))
    (other : (loc, rel) ≠ (p.locationID, p.relPath)) : t'.dirAt loc rel = t.dirAt loc rel := by
  unfold dirAt
  rw [syncDir_dirs h, lookup_upsertOn_ne (resyncDir_key p) other]

/-! ### The rows of other locations -/

/-- The dirs of the other locations. -/
def dirsElsewhere (loc : UUID) (t : ScanTables) : List DirRow :=
  t.dirs.filter fun r => r.locationID ≠ loc

/-- The file rows of these dirs. -/
def filesElsewhere (loc : UUID) (t : ScanTables) : List FileRow :=
  t.files.filter fun f => f.dirID ∈ (t.dirsElsewhere loc).map DirRow.id

structure SameElsewhere (loc : UUID) (t t' : ScanTables) : Prop where
  dirs : t'.dirsElsewhere loc = t.dirsElsewhere loc
  files : t'.filesElsewhere loc = t.filesElsewhere loc

theorem SameElsewhere.of_eq (dirs : t'.dirs = t.dirs) (files : t'.files = t.files) :
    SameElsewhere loc t t' := by
  refine ⟨?_, ?_⟩
  · unfold dirsElsewhere
    rw [dirs]
  · unfold filesElsewhere dirsElsewhere
    rw [dirs, files]

theorem SameElsewhere.dirAt (same : SameElsewhere loc t t') {other : UUID} (apart : other ≠ loc)
    (rel : Path) : t'.dirAt other rel = t.dirAt other rel := by
  have read : ∀ u : ScanTables,
      lookup DirRow.key (other, rel) (u.dirsElsewhere loc) = lookup DirRow.key (other, rel) u.dirs := by
    intro u
    unfold lookup dirsElsewhere
    rw [List.find?_filter]
    congr 1
    funext r
    rw [Bool.eq_iff_iff]
    simp only [DirRow.key, ne_eq, decide_not, Bool.not_eq_eq_eq_not, Bool.not_true,
      decide_eq_false_iff_not, Prod.mk.injEq, decide_eq_true_eq]
    constructor
    · exact fun hit => hit.2
    · exact fun key => ⟨fun clash => apart (key.1.symm.trans clash), key⟩
  unfold ScanTables.dirAt
  rw [← read t', ← read t, same.dirs]

theorem SameElsewhere.rowsOf (same : SameElsewhere loc t t') {other : UUID} (apart : other ≠ loc)
    {seen : Sighting} (found : t.dirAt other rel = some seen) :
    t'.rowsOf seen.id = t.rowsOf seen.id := by
  obtain ⟨row, hrow, rfl, _, rfl⟩ := dirAt_some found
  have listed : row.id ∈ (t.dirsElsewhere loc).map DirRow.id :=
    List.mem_map_of_mem (List.mem_filter.mpr ⟨hrow, by simpa using apart⟩)
  have read : ∀ u : ScanTables, u.dirsElsewhere loc = t.dirsElsewhere loc →
      u.rowsOf row.id = (u.filesElsewhere loc).filter fun f => f.dirID = row.id := by
    intro u dirs
    unfold ScanTables.rowsOf filesElsewhere
    rw [dirs, List.filter_filter]
    apply List.filter_congr
    intro f _
    by_cases owner : f.dirID = row.id
    · simp only [owner, listed, decide_true, Bool.and_self]
    · simp [owner]
  have one := read t' same.dirs
  have two := read t rfl
  rw [same.files] at one
  exact one.trans two.symm

theorem beginScan_sameElsewhere {now : Int} {scanID : UUID} {gen : Int}
    (h : beginScan now scanID loc t = .ok (t', gen)) : SameElsewhere loc t t' := by
  obtain ⟨_, files, dirs, _⟩ := beginScan_spec h
  have same : t'.dirsElsewhere loc = t.dirsElsewhere loc := by
    unfold dirsElsewhere
    rw [dirs]
    apply filter_updateWhere_of_disjoint
    intro r _ hit
    have owner : r.locationID = loc := by
      simp only [decide_eq_true_eq] at hit
      exact hit.1
    simp [owner]
  refine ⟨same, ?_⟩
  unfold filesElsewhere
  rw [files, same]

theorem sweep_sameElsewhere (wf : t.WellFormed) (gen : Int) :
    SameElsewhere loc t (sweep loc gen t).1 := by
  have same : (sweep loc gen t).1.dirsElsewhere loc = t.dirsElsewhere loc := by
    unfold dirsElsewhere sweep
    apply filter_updateWhere_of_disjoint
    intro r _ hit
    have owner : r.locationID = loc := by
      simp only [unseen, decide_eq_true_eq] at hit
      exact hit.1
    simp [owner]
  refine ⟨same, ?_⟩
  unfold filesElsewhere
  rw [same]
  apply filter_updateWhere_of_disjoint
  intro f _ marked
  -- A marked file is in a dir of the swept location, and IDs are unique.
  have outside : f.dirID ∉ (t.dirsElsewhere loc).map DirRow.id := by
    intro listed
    obtain ⟨a, ha, sameA⟩ := List.mem_map.mp listed
    obtain ⟨b, hb, sameB⟩ := List.mem_map.mp (of_decide_eq_true marked)
    obtain ⟨inA, ownerA⟩ := List.mem_filter.mp ha
    obtain ⟨inB, ownerB⟩ := List.mem_filter.mp hb
    obtain rfl := wf.dirIDs.eq_of_key inA inB (sameA.trans sameB.symm)
    simp only [unseen, decide_eq_true_eq] at ownerB
    simp [ownerB.1] at ownerA
  simp [outside]

theorem syncDir_sameElsewhere (wf : t.WellFormed) (inside : MissingInside p t)
    (h : syncDir newDirID newFileID p t = .ok (t', d)) : SameElsewhere p.locationID t t' := by
  have wf' := syncDir_wellFormed h wf
  have same : t'.dirsElsewhere p.locationID = t.dirsElsewhere p.locationID := by
    unfold dirsElsewhere
    rw [syncDir_dirs h]
    apply filter_upsertOn_of_disjoint
    · simp [newDir]
    · intro r _ hit
      have owner : r.locationID = p.locationID := congrArg Prod.fst hit
      simp [resyncDir, owner]
  refine ⟨same, ?_⟩
  have apart : ∀ e ∈ (t.dirsElsewhere p.locationID).map DirRow.id, e ≠ d := by
    intro e he
    rw [← same] at he
    obtain ⟨row, hrow, rfl⟩ := List.mem_map.mp he
    obtain ⟨member, owner⟩ := List.mem_filter.mp hrow
    obtain ⟨here, hhere, rfl, key⟩ := exists_dir_of_dirID (syncDir_dirID h)
    intro clash
    obtain rfl := wf'.dirIDs.eq_of_key member hhere clash
    have located : row.locationID = p.locationID := congrArg Prod.fst key
    simp [located] at owner
  unfold filesElsewhere
  rw [same]
  apply syncDir_filter inside h
  intro f owner
  rw [decide_eq_false_iff_not]
  intro listed
  exact apart f.dirID listed owner

end

end Byom.Sqlite.ScanTables
