import Byom.Scan.Tracking
import Byom.Sqlite.Sightings

/-!
# Generations

No dir was seen by a generation its location has not reached, so a new scan has
a generation above every stored one, whatever the aborted and failed scans before
it left behind. `Sees` says what the dirs of a location then are while its latest
scan goes on and after its sweep.
-/

namespace Byom.Scan

open Storage Relational Sqlite

/-- The dirs of a location: those the scan synced carry its generation, the others
are as it found them until its sweep. -/
structure Sees (loc : UUID) (run : ScanRun) (t : ScanTables) : Prop where
  before : ∀ rel d, run.begun.dirAt loc rel = some d → d.seen < run.gen
  synced : ∀ res ∈ run.synced, ∃ d, t.dirAt loc res.dir = some ⟨d, run.gen, false⟩
  others : ∀ rel, (∀ res ∈ run.synced, res.dir ≠ rel) → t.dirAt loc rel =
    (run.begun.dirAt loc rel).map fun d => if run.swept then { d with missing := true } else d
  gone : run.swept = true → ∀ rel d, (∀ res ∈ run.synced, res.dir ≠ rel) →
    run.begun.dirAt loc rel = some d → d.missing = false → ∀ f ∈ t.rowsOf d.id, f.missing = true
  current : run.inFlight = true → t.generationAt loc = some run.gen

/-- No stored generation is above the one its location is at. -/
def Bounded (t : ScanTables) : Prop :=
  ∀ loc rel d gen, t.dirAt loc rel = some d → t.generationAt loc = some gen → d.seen ≤ gen

section

variable {loc : UUID} {run : ScanRun} {t t' : ScanTables}

/-- A write that leaves the dirs of the location and their file rows alone. -/
theorem Sees.frame (sees : Sees loc run t) (dirs : ∀ rel, t'.dirAt loc rel = t.dirAt loc rel)
    (files : ∀ rel d, t.dirAt loc rel = some d → t'.rowsOf d.id = t.rowsOf d.id)
    (generation : t'.generationAt loc = t.generationAt loc) : Sees loc run t' := by
  refine { sees with synced := ?_, others := ?_, gone := ?_, current := ?_ }
  · intro res hres
    rw [dirs]
    exact sees.synced res hres
  · intro rel apart
    rw [dirs]
    exact sees.others rel apart
  · intro swept rel d apart found live
    have now := sees.others rel apart
    rw [found, Option.map_some, if_pos swept] at now
    rw [files rel _ now]
    exact sees.gone swept rel d apart found live
  · intro inFlight
    rw [generation]
    exact sees.current inFlight

theorem Sees.of_files (sees : Sees loc run t) (dirs : ∀ rel, t'.dirAt loc rel = t.dirAt loc rel)
    (files : t'.files = t.files) (generation : t'.generationAt loc = t.generationAt loc) :
    Sees loc run t' := by
  refine sees.frame dirs ?_ generation
  intro _ d _
  unfold ScanTables.rowsOf
  rw [files]

/-- The rows another location's scan leaves alone include those of this one. -/
theorem Sees.of_elsewhere (sees : Sees loc run t) {other : UUID} (apart : loc ≠ other)
    (same : ScanTables.SameElsewhere other t t')
    (generation : t'.generationAt loc = t.generationAt loc) : Sees loc run t' :=
  sees.frame (fun rel => same.dirAt apart rel) (fun _ _ found => same.rowsOf apart found) generation

theorem Bounded.frame (bounded : Bounded t) (dirs : ∀ loc rel, t'.dirAt loc rel = t.dirAt loc rel)
    (generation : ∀ loc, t'.generationAt loc = t.generationAt loc) : Bounded t' := by
  intro loc rel d gen found at_
  rw [dirs] at found
  rw [generation] at at_
  exact bounded loc rel d gen found at_

/-- A new scan is above everything stored. -/
theorem Sees.start (bounded : Bounded t) {now : Int} {scanID : UUID} {gen : Int}
    (began : t.beginScan now scanID loc = .ok (t', gen)) (force : Bool)
    (walked : List WalkResult) (progress : Progress) :
    Sees loc ⟨scanID, gen, force, walked, walked, [], [], false, true, progress, t⟩ t' := by
  obtain ⟨after, before⟩ := ScanTables.beginScan_generationAt began
  refine ⟨?_, by simp, ?_, by simp, fun _ => after⟩
  · intro rel d found
    have := bounded loc rel d _ found before
    exact Int.lt_of_le_sub_one this
  · intro rel _
    rw [ScanTables.beginScan_dirAt began]
    simp

theorem Sees.commit (sees : Sees loc run t) {res : WalkResult} {known : List File}
    {newDirID d : UUID} {newFileID : Path → UUID} (unswept : run.swept = false)
    (h : t.syncDir newDirID newFileID (syncPayload loc run.gen run.force known res) =
      .ok (t', d)) (loaded : List (WalkResult × List File)) (progress : Progress) :
    Sees loc { run with
      loaded := loaded
      synced := res :: run.synced
      progress := progress } t' := by
  have here : t'.dirAt loc res.dir = some ⟨d, run.gen, false⟩ := ScanTables.syncDir_dirAt h
  have elsewhere : ∀ rel, res.dir ≠ rel → t'.dirAt loc rel = t.dirAt loc rel := by
    intro rel apart
    apply ScanTables.syncDir_dirAt_ne h
    exact fun clash => apart (Prod.mk.inj clash).2.symm
  refine ⟨sees.before, ?_, ?_, ?_, ?_⟩
  · intro r hr
    by_cases same : res.dir = r.dir
    · exact ⟨d, same ▸ here⟩
    · rcases List.mem_cons.mp hr with rfl | old
      · exact absurd rfl same
      · rw [elsewhere r.dir same]
        exact sees.synced r old
  · intro rel apart
    obtain ⟨other, rest⟩ := List.forall_mem_cons.mp apart
    rw [elsewhere rel other]
    exact sees.others rel rest
  · intro swept
    simp [unswept] at swept
  · intro inFlight
    rw [ScanTables.generationAt_of_eq (ScanTables.syncDir_locations h)]
    exact sees.current inFlight

theorem Sees.sweep (sees : Sees loc run t) (unswept : run.swept = false) (progress : Progress) :
    Sees loc { run with swept := true, progress := progress } (t.sweep loc run.gen).1 := by
  have found : ∀ rel, (∀ res ∈ run.synced, res.dir ≠ rel) →
      t.dirAt loc rel = run.begun.dirAt loc rel := by
    intro rel apart
    rw [sees.others rel apart]
    simp [unswept]
  refine ⟨sees.before, ?_, ?_, ?_, ?_⟩
  · intro res hres
    obtain ⟨d, here⟩ := sees.synced res hres
    refine ⟨d, ?_⟩
    rw [ScanTables.sweep_dirAt, here]
    simp [ScanTables.Sighting.swept]
  · intro rel apart
    rw [ScanTables.sweep_dirAt, found rel apart]
    cases before : run.begun.dirAt loc rel with
    | none => rfl
    | some d =>
      have old := sees.before rel d before
      simp [ScanTables.Sighting.swept, old]
  · intro _ rel d apart before live f hf
    obtain ⟨hf, owner⟩ := List.mem_filter.mp hf
    have here := (found rel apart).trans before
    exact ScanTables.sweep_files here (sees.before rel d before) live hf (by simpa using owner)
  · exact fun inFlight => sees.current inFlight

theorem Bounded.commit (bounded : Bounded t) {p : SyncPayload} {newDirID d : UUID}
    {newFileID : Path → UUID} (current : t.generationAt p.locationID = some p.generation)
    (h : t.syncDir newDirID newFileID p = .ok (t', d)) : Bounded t' := by
  intro loc rel seen gen found at_
  rw [ScanTables.generationAt_of_eq (ScanTables.syncDir_locations h)] at at_
  by_cases same : (loc, rel) = (p.locationID, p.relPath)
  · obtain ⟨rfl, rfl⟩ := Prod.mk.inj same
    rw [ScanTables.syncDir_dirAt h] at found
    cases found
    rw [current] at at_
    cases at_
    exact Int.le_refl _
  · rw [ScanTables.syncDir_dirAt_ne h same] at found
    exact bounded loc rel seen gen found at_

theorem Bounded.sweep (bounded : Bounded t) (swept : UUID) (gen : Int) :
    Bounded (t.sweep swept gen).1 := by
  intro loc rel seen top found at_
  have atTop : t.generationAt loc = some top := at_
  by_cases same : loc = swept
  · subst same
    rw [ScanTables.sweep_dirAt] at found
    obtain ⟨d, here, rfl⟩ := Option.map_eq_some_iff.mp found
    have seen : (d.swept gen).seen = d.seen := by
      unfold ScanTables.Sighting.swept
      split <;> rfl
    rw [seen]
    exact bounded loc rel d top here atTop
  · rw [ScanTables.sweep_dirAt_ne gen same] at found
    exact bounded loc rel seen top found at_

theorem Bounded.start (bounded : Bounded t) {now : Int} {scanID : UUID} {gen : Int}
    (began : t.beginScan now scanID loc = .ok (t', gen)) : Bounded t' := by
  intro other rel d top found at_
  rw [ScanTables.beginScan_dirAt began] at found
  by_cases same : other = loc
  · subst same
    obtain ⟨after, before⟩ := ScanTables.beginScan_generationAt began
    rw [after] at at_
    cases at_
    have := bounded other rel d _ found before
    exact this.trans (Int.sub_le_self _ (by decide))
  · rw [ScanTables.beginScan_generationAt_ne began same] at at_
    exact bounded other rel d top found at_

end

namespace Scanner

structure Generations (s : Scanner) : Prop where
  inv : s.Inv
  bounded : Bounded s.tables
  sees : ∀ loc run, s.byLoc loc = some run → Sees loc run s.tables

variable {s s' : Scanner} {loc : UUID} {run : ScanRun} {t : ScanTables}

theorem empty_generations : empty.Generations :=
  ⟨empty_inv, by simp [Bounded, empty, ScanTables.empty, ScanTables.dirAt], by simp [empty]⟩

/-- Actions that write neither a generation nor a `missing` flag. -/
theorem Generations.of_tables (g : s.Generations) (inv : Inv { s with tables := t })
    (dirs : ∀ loc rel, t.dirAt loc rel = s.tables.dirAt loc rel) (files : t.files = s.tables.files)
    (generation : ∀ loc, t.generationAt loc = s.tables.generationAt loc) :
    Generations { s with tables := t } := by
  refine ⟨inv, g.bounded.frame dirs generation, ?_⟩
  intro loc run found
  exact (g.sees loc run found).of_files (dirs loc) files (generation loc)

/-- Actions of the scan of one location. -/
theorem Generations.setRun (g : s.Generations) (inv : (s.setRun loc t run).Inv)
    (bounded : Bounded t) (own : Sees loc run t)
    (elsewhere : ScanTables.SameElsewhere loc s.tables t)
    (generation : ∀ other, other ≠ loc → t.generationAt other = s.tables.generationAt other) :
    (s.setRun loc t run).Generations := by
  refine ⟨inv, bounded, ?_⟩
  intro loc' run' found
  rw [setRun_byLoc] at found
  by_cases same : loc' = loc
  · subst same
    rw [if_pos rfl, Option.some.injEq] at found
    exact found ▸ own
  · rw [if_neg same] at found
    exact (g.sees loc' run' found).of_elsewhere same elsewhere (generation loc' same)

theorem insertLocation_generations {id : UUID} {uri : String} (g : s.Generations)
    (inv : Inv { s with tables := t }) (ok : s.tables.insertLocation id uri = .ok t) :
    Generations { s with tables := t } := by
  obtain ⟨sameDirs, sameFiles⟩ := ScanTables.insertLocation_frame ok
  have dirs := ScanTables.dirAt_of_eq sameDirs
  have generation := ScanTables.insertLocation_generationAt ok
  refine ⟨inv, ?_, ?_⟩
  · intro loc rel d gen found at_
    rw [dirs] at found
    -- A location with a dir was there before.
    obtain ⟨row, hrow, rfl, _⟩ := ScanTables.dirAt_some found
    obtain ⟨l, hl, owner⟩ := g.inv.wellFormed.dirLocations row hrow
    rw [generation row.locationID ⟨l, hl, owner⟩] at at_
    exact g.bounded row.locationID rel d gen found at_
  · intro loc run found
    have sees := g.sees loc run found
    by_cases known : ∃ l ∈ s.tables.locations, l.id = loc
    · exact sees.of_files (dirs loc) sameFiles (generation loc known)
    · refine { sees with
        synced := fun res hres => by rw [dirs]; exact sees.synced res hres
        others := fun rel apart => by rw [dirs]; exact sees.others rel apart
        gone := ?_
        current := ?_ }
      · unfold ScanTables.rowsOf
        rw [sameFiles]
        exact sees.gone
      · intro inFlight
        obtain ⟨l, at_, _⟩ := Option.map_eq_some_iff.mp (sees.current inFlight)
        exact absurd ⟨l, mem_of_lookup at_, key_of_lookup at_⟩ known

theorem step_generations (a : Action) (g : s.Generations) (h : s.step a = some s') :
    s'.Generations := by
  have inv := step_inv a g.inv h
  cases a with
  | insertLocation id uri =>
    obtain ⟨t, ok, rfl⟩ := withTables_cases h
    exact insertLocation_generations g inv ok
  | start loc now scanID force order tree =>
    obtain ⟨_, t, gen, began, rfl⟩ := start_cases h
    refine g.setRun inv (g.bounded.start began) (.start g.bounded began ..) ?_ ?_
    · exact ScanTables.beginScan_sameElsewhere began
    · exact fun other apart => ScanTables.beginScan_generationAt_ne began apart
  | load loc i =>
    obtain ⟨run, res, active, _, rfl⟩ := load_cases h
    refine g.setRun inv g.bounded { g.sees loc run (active_some active) with } ?_ fun _ _ => rfl
    exact .of_eq rfl rfl
  | commit loc i newDirID newFileID =>
    obtain ⟨run, res, known, t, d, active, taken, synced, rfl⟩ := commit_cases h
    obtain ⟨found, inFlight⟩ := active_eq_some_iff.mp active
    have sees := g.sees loc run found
    have tracks := g.inv.tracks loc run found
    have member := List.mem_of_getElem? taken
    have unswept := tracks.unswept_of_loaded member
    refine g.setRun inv (g.bounded.commit (sees.current inFlight) synced) ?_ ?_ ?_
    · exact sees.commit unswept synced _ _
    · exact ScanTables.syncDir_sameElsewhere g.inv.wellFormed
        (tracks.missingInside g.inv.wellFormed member) synced
    · exact fun other _ => ScanTables.generationAt_of_eq (ScanTables.syncDir_locations synced) other
  | sweep loc =>
    obtain ⟨run, active, _, unswept, rfl⟩ := sweep_cases h
    refine g.setRun inv (g.bounded.sweep loc run.gen) ?_ ?_ fun _ _ => rfl
    · exact (g.sees loc run (active_some active)).sweep unswept _
    · exact ScanTables.sweep_sameElsewhere g.inv.wellFormed run.gen
  | finish loc now scanErr =>
    obtain ⟨run, active, _, rfl⟩ := finish_cases h
    have sees : Sees loc run (s.tables.finishScan now run.scanID run.progress scanErr) :=
      (g.sees loc run (active_some active)).of_files (ScanTables.dirAt_of_eq rfl loc) rfl rfl
    refine g.setRun inv (g.bounded.frame (ScanTables.dirAt_of_eq rfl) fun _ => rfl) ?_ ?_ ?_
    · exact { sees with current := by simp }
    · exact .of_eq rfl rfl
    · exact fun _ _ => rfl
  | crash =>
    cases h
    exact ⟨inv, g.bounded, by simp⟩
  | recover now =>
    cases h
    exact g.of_tables inv (ScanTables.dirAt_of_eq rfl) rfl fun _ => rfl
  | dirtyDirs limit picked =>
    obtain ⟨_, rfl⟩ := dirtyDirs_cases h
    refine g.of_tables inv (ScanTables.dirAt_updateWhere rfl ?_ ?_) rfl fun _ => rfl
    · exact fun _ => rfl
    · exact fun _ => rfl
  | releaseDir dirID lockedGen =>
    obtain ⟨t, ok, rfl⟩ := withTables_cases h
    obtain ⟨_, rfl⟩ := ScanTables.releaseDir_spec ok
    refine g.of_tables inv (ScanTables.dirAt_updateWhere rfl ?_ ?_) rfl fun _ => rfl
    · exact fun _ => rfl
    · exact fun _ => rfl
  | releaseAndRedirty dirID lockedGen =>
    obtain ⟨t, ok, rfl⟩ := withTables_cases h
    obtain ⟨_, rfl⟩ := ScanTables.releaseAndRedirty_spec ok
    refine g.of_tables inv (ScanTables.dirAt_updateWhere rfl ?_ ?_) rfl fun _ => rfl
    · exact fun _ => rfl
    · exact fun _ => rfl

theorem Reachable.generations (reachable : s.Reachable) : s.Generations := by
  obtain ⟨acts, ends⟩ := reachable
  exact Transition.invariant_of_run (fun _ a _ g h => step_generations a g h) empty_generations
    ends

end Scanner

end Byom.Scan
