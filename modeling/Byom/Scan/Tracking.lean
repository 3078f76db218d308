import Mathlib.Data.List.Perm.Basic
import Byom.Scan.Actions

/-!
# What a scan has done so far

`Tracks` relates a scan to the tables it began with: each walked dir waits with
the rows found then, or is reconciled. Every action keeps this for every scan.
-/

namespace Byom.Scan

open Storage Relational Sqlite

/-- Each walked dir waits with the rows the scan found, or is reconciled. -/
structure Tracks (loc : UUID) (run : ScanRun) (t : ScanTables) : Prop where
  begun : run.begun.WellFormed
  names : ∀ res ∈ run.walked, UniqueOn WalkEntry.name res.files
  dirs : UniqueOn WalkResult.dir run.walked
  walked : (run.queue ++ (run.loaded.map Prod.fst ++ run.synced)).Perm run.walked
  waiting : ∀ res ∈ run.queue ++ run.loaded.map Prod.fst, ∀ name,
    t.fileAt loc res.dir name = run.begun.fileAt loc res.dir name
  loaded : ∀ l ∈ run.loaded, Loaded l.2 loc l.1.dir t
  seen : ∀ res ∈ run.synced, t.seenAt loc res.dir = some run.gen
  synced : ∀ res ∈ run.synced, ∀ name, (t.fileAt loc res.dir name).map record =
    reconcile (res.stat name) ((run.begun.fileAt loc res.dir name).map record)
  complete : run.swept = true → run.queue = [] ∧ run.loaded = []

section Tracks

variable {loc : UUID} {run : ScanRun} {t t' : ScanTables}

theorem Tracks.mem_walked (tracks : Tracks loc run t) {res : WalkResult} :
    res ∈ run.walked ↔ res ∈ run.queue ++ run.loaded.map Prod.fst ∨ res ∈ run.synced := by
  rw [← tracks.walked.mem_iff, ← List.append_assoc, List.mem_append]

theorem Tracks.walked_of_loaded (tracks : Tracks loc run t) {res : WalkResult} {known : List File}
    (hl : (res, known) ∈ run.loaded) : res ∈ run.walked :=
  tracks.mem_walked.mpr (.inl (List.mem_append_right _ (List.mem_map_of_mem hl)))

/-- A scan does not sweep before it has synced every dir it loaded. -/
theorem Tracks.unswept_of_loaded (tracks : Tracks loc run t) {l : WalkResult × List File}
    (hl : l ∈ run.loaded) : run.swept = false := by
  by_contra swept
  rw [(tracks.complete (by simpa using swept)).2] at hl
  cases hl

/-- Writes elsewhere do not disturb a scan. -/
theorem Tracks.of_sameDir (tracks : Tracks loc run t)
    (same : ∀ res ∈ run.walked, ScanTables.SameDir loc res.dir t t') : Tracks loc run t' := by
  have waits : ∀ res ∈ run.queue ++ run.loaded.map Prod.fst, res ∈ run.walked := by
    exact fun res hres => tracks.mem_walked.mpr (.inl hres)
  have done : ∀ res ∈ run.synced, res ∈ run.walked := by
    exact fun res hres => tracks.mem_walked.mpr (.inr hres)
  refine { tracks with waiting := ?_, loaded := ?_, seen := ?_, synced := ?_ }
  · intro res hres name
    rw [(same res (waits res hres)).files]
    exact tracks.waiting res hres name
  · intro l hl
    refine (tracks.loaded l hl).of_sameDir (same l.1 (waits l.1 ?_))
    exact List.mem_append_right _ (List.mem_map_of_mem hl)
  · intro res hres
    rw [(same res (done res hres)).seen]
    exact tracks.seen res hres
  · intro res hres name
    rw [(same res (done res hres)).files]
    exact tracks.synced res hres name

theorem Tracks.start (wf : t.WellFormed) (order : MapOrder) (tree : Tree) (scanID : UUID)
    (gen : Int) (force : Bool) (progress : Progress)
    (same : ∀ rel, ScanTables.SameDir loc rel t t') :
    Tracks loc ⟨scanID, gen, force, (walk order tree).emitted, (walk order tree).emitted, [], [],
      false, true, progress, t⟩ t' where
  begun := wf
  names := fun _ hres => emitted_names_unique hres
  dirs := emitted_dir_unique order tree
  walked := by simp
  waiting := fun res _ name => (same res.dir).files name
  loaded := by simp
  seen := by simp
  synced := by simp
  complete := by simp

theorem Tracks.load (tracks : Tracks loc run t) (wf : t.WellFormed) {i : Nat} {res : WalkResult}
    (taken : run.queue[i]? = some res) :
    Tracks loc { run with
      queue := run.queue.eraseIdx i
      loaded := (res, knownIn loc res.dir t) :: run.loaded } t := by
  obtain ⟨inside, rfl⟩ := List.getElem?_eq_some_iff.mp taken
  have perm := List.getElem_cons_eraseIdx_perm inside
  refine { tracks with walked := ?_, waiting := ?_, loaded := ?_, complete := ?_ }
  · have moved : (run.queue.eraseIdx i ++ (run.queue[i] :: run.loaded.map Prod.fst ++ run.synced)).Perm
        (run.queue[i] :: run.queue.eraseIdx i ++ (run.loaded.map Prod.fst ++ run.synced)) := by
      simp
    exact (moved.trans (perm.append_right _)).trans tracks.walked
  · intro r hr
    apply tracks.waiting
    rw [List.mem_append, ← perm.mem_iff, List.mem_cons]
    rcases List.mem_append.mp hr with queued | taken
    · exact .inl (.inr queued)
    · rcases List.mem_cons.mp taken with rfl | before
      · exact .inl (.inl rfl)
      · exact .inr before
  · intro l hl
    rcases List.mem_cons.mp hl with rfl | before
    · exact knownIn_loaded wf loc _
    · exact tracks.loaded l before
  · intro swept
    rw [(tracks.complete swept).1] at inside
    simp at inside

theorem Tracks.missingInside (tracks : Tracks loc run t) (wf : t.WellFormed) {res : WalkResult}
    {known : List File} (hl : (res, known) ∈ run.loaded) :
    ScanTables.MissingInside (syncPayload loc run.gen run.force known res) t := by
  have walked := tracks.walked_of_loaded hl
  exact payload_missingInside _ _ wf (tracks.names res walked) (tracks.loaded _ hl)

/-- A commit reconciles its dir and no other one of the scan. -/
theorem Tracks.commit (tracks : Tracks loc run t) (wf : t.WellFormed) {i : Nat}
    {res : WalkResult} {known : List File} (taken : run.loaded[i]? = some (res, known))
    {newDirID d : UUID} {newFileID : Path → UUID} (progress : Progress)
    (h : t.syncDir newDirID newFileID (syncPayload loc run.gen run.force known res) =
      .ok (t', d)) :
    Tracks loc { run with
      loaded := run.loaded.eraseIdx i
      synced := res :: run.synced
      progress := progress } t' := by
  obtain ⟨inside, here⟩ := List.getElem?_eq_some_iff.mp taken
  have perm := List.getElem_cons_eraseIdx_perm inside
  rw [here] at perm
  have parts : (res :: (run.queue ++ ((run.loaded.eraseIdx i).map Prod.fst ++ run.synced))).Perm
      run.walked := by
    refine .trans ?_ tracks.walked
    refine List.perm_middle.symm.trans (List.Perm.append_left _ ?_)
    exact (perm.map Prod.fst).append_right run.synced
  have inLoaded : (res, known) ∈ run.loaded := List.mem_of_getElem? taken
  have named : UniqueOn WalkEntry.name res.files :=
    tracks.names res (parts.mem_iff.mp (List.mem_cons_self ..))
  have fresh := tracks.loaded _ inLoaded
  have payload := payload_missingInside run.gen run.force wf named fresh
  have elsewhere : ∀ r ∈ run.queue ++ ((run.loaded.eraseIdx i).map Prod.fst ++ run.synced),
      ScanTables.SameDir loc r.dir t t' := by
    intro r hr
    apply ScanTables.syncDir_sameDir_ne wf payload h
    intro clash
    have sameDir : r.dir = res.dir := (Prod.mk.inj clash).2
    have unique : UniqueOn WalkResult.dir (res :: _) :=
      (parts.map WalkResult.dir).nodup_iff.mpr tracks.dirs
    have apart := (List.nodup_cons.mp unique).1
    exact apart (sameDir ▸ List.mem_map_of_mem hr)
  refine { tracks with
    walked := ?_
    waiting := ?_
    loaded := ?_
    seen := ?_
    synced := ?_
    complete := ?_ }
  · refine .trans ?_ parts
    exact (List.perm_middle.append_left _).trans List.perm_middle
  · intro r hr name
    have before := tracks.waiting r
    have other : r ∈ run.queue ++ ((run.loaded.eraseIdx i).map Prod.fst ++ run.synced) := by
      rw [← List.append_assoc]
      exact List.mem_append_left _ hr
    rw [(elsewhere r other).files]
    apply before
    rcases List.mem_append.mp hr with queued | kept
    · exact List.mem_append_left _ queued
    · apply List.mem_append_right
      exact (List.Sublist.map Prod.fst (List.eraseIdx_sublist ..)).subset kept
  · intro l hl
    refine (tracks.loaded l ((List.eraseIdx_sublist ..).subset hl)).of_sameDir (elsewhere l.1 ?_)
    exact List.mem_append_right _ (List.mem_append_left _ (List.mem_map_of_mem hl))
  · intro r hr
    rcases List.mem_cons.mp hr with rfl | before
    · exact ScanTables.syncDir_seenAt h
    · rw [(elsewhere r (by simp [before])).seen]
      exact tracks.seen r before
  · intro r hr name
    rcases List.mem_cons.mp hr with rfl | before
    · rw [syncDir_reconciles wf named fresh h name]
      rw [tracks.waiting r (List.mem_append_right _ (List.mem_map_of_mem inLoaded)) name]
    · rw [(elsewhere r (by simp [before])).files]
      exact tracks.synced r before name
  · intro swept
    rw [(tracks.complete swept).2] at inside
    simp at inside

/-- The sweep of a scan leaves its own dirs alone: it has seen them all. -/
theorem Tracks.sweep (tracks : Tracks loc run t) (wf : t.WellFormed)
    (drained : run.drained = true) (progress : Progress) :
    Tracks loc { run with swept := true, progress := progress } (t.sweep loc run.gen).1 := by
  obtain ⟨queue, loaded⟩ := Scanner.drained_iff.mp drained
  have kept : Tracks loc run (t.sweep loc run.gen).1 := by
    apply tracks.of_sameDir
    intro res hres
    apply ScanTables.sweep_sameDir wf
    right
    apply tracks.seen
    rcases tracks.mem_walked.mp hres with waits | done
    · simp [queue, loaded] at waits
    · exact done
  exact { kept with complete := fun _ => ⟨queue, loaded⟩ }

end Tracks

/-! ### Every reachable state -/

namespace Scanner

structure Inv (s : Scanner) : Prop where
  wellFormed : s.tables.WellFormed
  tracks : ∀ loc run, s.byLoc loc = some run → Tracks loc run s.tables

variable {s s' : Scanner} {loc : UUID} {run : ScanRun} {t : ScanTables}

theorem empty_inv : empty.Inv := ⟨ScanTables.empty_wellFormed, by simp [empty]⟩

/-- Actions on the tables alone. -/
theorem Inv.of_tables (inv : s.Inv) (wf : t.WellFormed)
    (same : ∀ loc rel, ScanTables.SameDir loc rel s.tables t) : Inv { s with tables := t } := by
  refine ⟨wf, ?_⟩
  intro loc run found
  exact (inv.tracks loc run found).of_sameDir fun res _ => same loc res.dir

/-- Actions of the scan of one location. -/
theorem Inv.setRun (inv : s.Inv) (wf : t.WellFormed) (own : Tracks loc run t)
    (others : ∀ loc', loc' ≠ loc → ∀ rel, ScanTables.SameDir loc' rel s.tables t) :
    (s.setRun loc t run).Inv := by
  refine ⟨wf, ?_⟩
  intro loc' run' found
  by_cases same : loc' = loc
  · subst same
    obtain rfl : run = run' := by simpa [Scanner.setRun] using found
    exact own
  · have before : s.byLoc loc' = some run' := by simpa [Scanner.setRun, same] using found
    exact (inv.tracks loc' run' before).of_sameDir fun res _ => others loc' same res.dir

theorem withTables_inv {result : Except SqlError ScanTables} (inv : s.Inv)
    (wf : ∀ t, result = .ok t → t.WellFormed)
    (same : ∀ t, result = .ok t → ∀ loc rel, ScanTables.SameDir loc rel s.tables t)
    (h : s.withTables result = some s') : s'.Inv := by
  obtain ⟨t, rfl, rfl⟩ := withTables_cases h
  exact inv.of_tables (wf t rfl) (same t rfl)

theorem start_inv {now : Int} {scanID : UUID} {force : Bool} {order : MapOrder} {tree : Tree}
    (inv : s.Inv) (h : s.start loc now scanID force order tree = some s') : s'.Inv := by
  obtain ⟨_, t, gen, began, rfl⟩ := start_cases h
  obtain ⟨_, files, dirs, keeps, _⟩ := ScanTables.beginScan_spec began
  have same : ∀ loc rel, ScanTables.SameDir loc rel s.tables t :=
    ScanTables.sameDir_of_dirs files dirs (fun _ => rfl) fun _ => rfl
  refine inv.setRun (keeps inv.wellFormed) ?_ fun loc' _ rel => same loc' rel
  exact .start inv.wellFormed order tree scanID gen force _ (same loc)

theorem load_inv {i : Nat} (inv : s.Inv) (h : s.load loc i = some s') : s'.Inv := by
  obtain ⟨run, res, active, taken, rfl⟩ := load_cases h
  have tracks := inv.tracks loc run (active_some active)
  exact inv.setRun inv.wellFormed (tracks.load inv.wellFormed taken)
    fun loc' _ rel => .refl loc' rel _

theorem commit_inv {i : Nat} {newDirID : UUID} {newFileID : Path → UUID} (inv : s.Inv)
    (h : s.commit loc i newDirID newFileID = some s') : s'.Inv := by
  obtain ⟨run, res, known, t, d, active, taken, synced, rfl⟩ := commit_cases h
  have tracks := inv.tracks loc run (active_some active)
  have wf := ScanTables.syncDir_wellFormed synced inv.wellFormed
  refine inv.setRun wf (tracks.commit inv.wellFormed taken _ synced) ?_
  intro loc' other rel
  refine ScanTables.syncDir_sameDir_ne inv.wellFormed ?_ synced ?_
  · exact tracks.missingInside inv.wellFormed (List.mem_of_getElem? taken)
  · exact fun clash => other (Prod.mk.inj clash).1

theorem sweep_inv (inv : s.Inv) (h : s.sweep loc = some s') : s'.Inv := by
  obtain ⟨run, active, drained, _, rfl⟩ := sweep_cases h
  have tracks := inv.tracks loc run (active_some active)
  have wf := ScanTables.sweep_wellFormed loc run.gen inv.wellFormed
  refine inv.setRun wf (tracks.sweep inv.wellFormed drained _) ?_
  intro loc' other rel
  exact ScanTables.sweep_sameDir inv.wellFormed (.inl other)

theorem finish_inv {now : Int} {scanErr : Option ScanError} (inv : s.Inv)
    (h : s.finish loc now scanErr = some s') : s'.Inv := by
  obtain ⟨run, active, _, rfl⟩ := finish_cases h
  have tracks := inv.tracks loc run (active_some active)
  have same : ∀ loc rel, ScanTables.SameDir loc rel s.tables
      (s.tables.finishScan now run.scanID run.progress scanErr) :=
    ScanTables.sameDir_of_eq rfl rfl
  have kept := tracks.of_sameDir fun res _ => same loc res.dir
  refine inv.setRun ?_ { kept with } fun loc' _ rel => same loc' rel
  exact ScanTables.finishScan_wellFormed _ _ _ _ inv.wellFormed

theorem step_inv (a : Action) (inv : s.Inv) (h : s.step a = some s') : s'.Inv := by
  cases a with
  | insertLocation id uri =>
    refine withTables_inv inv (fun t ok => ?_) (fun t ok => ?_) h
    · exact ScanTables.insertLocation_wellFormed ok inv.wellFormed
    · exact ScanTables.sameDir_of_eq (ScanTables.insertLocation_frame ok).2
        (ScanTables.insertLocation_frame ok).1
  | start loc now scanID force order tree => exact start_inv inv h
  | load loc i => exact load_inv inv h
  | commit loc i newDirID newFileID => exact commit_inv inv h
  | sweep loc => exact sweep_inv inv h
  | finish loc now scanErr => exact finish_inv inv h
  | crash =>
    cases h
    exact ⟨inv.wellFormed, by simp⟩
  | recover now =>
    cases h
    exact inv.of_tables (ScanTables.abortRunningScans_wellFormed now inv.wellFormed)
      (ScanTables.sameDir_of_eq rfl rfl)
  | dirtyDirs limit picked =>
    obtain ⟨_, rfl⟩ := dirtyDirs_cases h
    exact inv.of_tables (ScanTables.dirtyDirs_wellFormed picked inv.wellFormed)
      (ScanTables.sameDir_of_dirs rfl rfl (fun _ => rfl) fun _ => rfl)
  | releaseDir dirID lockedGen =>
    refine withTables_inv inv (fun t ok => ?_) (fun t ok => ?_) h
    · exact ScanTables.releaseDir_wellFormed ok inv.wellFormed
    · obtain ⟨_, rfl⟩ := ScanTables.releaseDir_spec ok
      exact ScanTables.sameDir_of_dirs rfl rfl (fun _ => rfl) fun _ => rfl
  | releaseAndRedirty dirID lockedGen =>
    refine withTables_inv inv (fun t ok => ?_) (fun t ok => ?_) h
    · exact ScanTables.releaseAndRedirty_wellFormed ok inv.wellFormed
    · obtain ⟨_, rfl⟩ := ScanTables.releaseAndRedirty_spec ok
      exact ScanTables.sameDir_of_dirs rfl rfl (fun _ => rfl) fun _ => rfl

theorem Reachable.inv (reachable : s.Reachable) : s.Inv := by
  obtain ⟨acts, ends⟩ := reachable
  exact Transition.invariant_of_run (fun _ a _ inv h => step_inv a inv h) empty_inv ends

end Scanner

end Byom.Scan
