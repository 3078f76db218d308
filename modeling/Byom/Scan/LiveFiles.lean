import Byom.Scan.Sweeping
import Byom.Scan.WalkSoundness

/-!
# The live files of a location

The kind of a file row is that of its name, and the files of a missing dir are missing. So
after a sweep the live rows of the location are the files of the walk, with their kinds, in
the dirs of the walk and nowhere else.
-/

namespace Byom.Scan

open Storage Relational Sqlite

/-- The kind of an emitted file is that of its name. -/
theorem kind_of_emitted {order : MapOrder} {tree : Tree} {res : WalkResult}
    (emitted : res ∈ (walk order tree).emitted) {f : WalkEntry} (hf : f ∈ res.files) :
    classifyKind f.name.base = some f.kind := by
  obtain ⟨own, hown, _, contents⟩ := (walk_merged order tree).files res emitted
  rcases (contents f).mp hf with inOwn | ⟨d, hd, _, _, g, hg, rfl⟩
  · obtain ⟨name, named, media⟩ := media_of_visit hown inOwn
    rw [named]
    exact media.recognised
  · obtain ⟨name, named, media⟩ := media_of_visit hd hg
    rw [prefixedEntry, named]
    exact media.recognised

/-- What `SyncDir` writes has the kinds of the payload. -/
theorem syncDir_kinds {t t' : ScanTables} {newDirID d : UUID} {newFileID : Path → UUID}
    {p : SyncPayload} (h : t.syncDir newDirID newFileID p = .ok (t', d))
    (kinds : ∀ f ∈ t.files, classifyKind f.name.base = some f.kind)
    (changed : ∀ c ∈ p.changed, classifyKind c.name.base = some c.kind) :
    ∀ f ∈ t'.files, classifyKind f.name.base = some f.kind := by
  have loop : ∀ {fs : List File} {u u' : ScanTables},
      (∀ c ∈ fs, classifyKind c.name.base = some c.kind) →
      (∀ f ∈ u.files, classifyKind f.name.base = some f.kind) →
      ScanTables.upsertFiles newFileID d fs u = .ok u' →
      ∀ f ∈ u'.files, classifyKind f.name.base = some f.kind := by
    intro fs
    induction fs with
    | nil =>
      intro u u' _ before h
      cases h
      exact before
    | cons c fs ih =>
      intro u u' all before h
      obtain ⟨own, others⟩ := List.forall_mem_cons.mp all
      obtain ⟨mid, first, rest⟩ := ScanTables.upsertFiles_cons h
      refine ih others ?_ rest
      obtain ⟨rfl, _⟩ := ScanTables.upsertFile_spec first
      intro f hf
      rcases mem_upsertOn hf with ⟨rfl, _⟩ | ⟨old, _⟩ | ⟨old, _, same, rfl⟩
      · exact own
      · exact before f old
      · have named : old.name = c.name := congrArg Prod.snd same
        exact named ▸ own
  obtain ⟨u, first, second⟩ := ScanTables.syncDir_spec h
  refine loop changed ?_ second
  intro f hf
  obtain ⟨old, hold, rfl⟩ := mem_updateWhere.mp hf
  have kept : old ∈ t.files := by
    rw [(ScanTables.upsertDir_spec first).1] at hold
    exact hold
  split
  · exact kinds old kept
  · exact kinds old kept

namespace Scanner

structure Rows (s : Scanner) : Prop where
  kinds : ∀ f ∈ s.tables.files, classifyKind f.name.base = some f.kind
  walked : ∀ loc run, s.byLoc loc = some run → ∀ res ∈ run.walked, ∀ e ∈ res.files,
    classifyKind e.name.base = some e.kind
  gone : ∀ d ∈ s.tables.dirs, d.missing = true → ∀ f ∈ s.tables.rowsOf d.id, f.missing = true

variable {s s' : Scanner} {loc : UUID} {run : ScanRun} {t : ScanTables}

/-- Writes of neither a file nor a `missing` flag. -/
theorem Rows.of_dirs (rows : s.Rows) (files : t.files = s.tables.files)
    (dirs : ∀ d ∈ t.dirs, ∃ old ∈ s.tables.dirs, old.id = d.id ∧ old.missing = d.missing)
    {byLoc : UUID → Option ScanRun} (walked : ∀ loc run, byLoc loc = some run → ∀ res ∈ run.walked,
      ∀ e ∈ res.files, classifyKind e.name.base = some e.kind) : Rows ⟨t, byLoc⟩ := by
  refine ⟨?_, walked, ?_⟩
  · show ∀ f ∈ t.files, _
    rw [files]
    exact rows.kinds
  · intro d hd missing f hf
    obtain ⟨old, hold, id, same⟩ := dirs d hd
    refine rows.gone old hold (same.trans missing) f ?_
    unfold ScanTables.rowsOf at hf ⊢
    rwa [id, ← files]

theorem dirs_of_updateWhere {t' : ScanTables} {p : DirRow → Bool} {set : DirRow → DirRow}
    (dirs : t'.dirs = updateWhere p set t.dirs)
    (same : ∀ d, (set d).id = d.id ∧ (set d).missing = d.missing) :
    ∀ d ∈ t'.dirs, ∃ old ∈ t.dirs, old.id = d.id ∧ old.missing = d.missing := by
  intro d hd
  rw [dirs] at hd
  obtain ⟨old, hold, rfl⟩ := mem_updateWhere.mp hd
  refine ⟨old, hold, ?_⟩
  split
  · exact ⟨(same old).1.symm, (same old).2.symm⟩
  · exact ⟨rfl, rfl⟩

/-- A scan goes on as the one it was. -/
theorem Rows.walked_setRun (rows : s.Rows) {run' : ScanRun} (found : s.byLoc loc = some run)
    (same : run'.walked = run.walked) : ∀ loc' r, (s.setRun loc t run').byLoc loc' = some r →
      ∀ res ∈ r.walked, ∀ e ∈ res.files, classifyKind e.name.base = some e.kind := by
  intro loc' r found'
  rw [setRun_byLoc] at found'
  split at found'
  · cases found'
    rw [same]
    exact rows.walked loc run found
  · exact rows.walked loc' r found'

theorem Rows.commit (rows : s.Rows) (inv : s.Inv) {i : Nat} {newDirID : UUID}
    {newFileID : Path → UUID} (h : s.commit loc i newDirID newFileID = some s') : s'.Rows := by
  obtain ⟨run, res, known, t, d, active, taken, synced, rfl⟩ := commit_cases h
  have found := active_some active
  have tracks := inv.tracks loc run found
  have member := List.mem_of_getElem? taken
  have walked := tracks.walked_of_loaded member
  refine ⟨?_, rows.walked_setRun found rfl, ?_⟩
  · refine syncDir_kinds synced rows.kinds ?_
    intro c hc
    obtain ⟨f, hf, info, _, _, rfl⟩ := (mem_changed_iff (tracks.names res walked)).mp hc
    exact rows.walked loc run found res walked f hf
  · intro row hrow missing f hf
    have dirs := ScanTables.syncDir_dirs synced
    rcases mem_upsertOn (dirs ▸ hrow) with ⟨rfl, _⟩ | ⟨old, other⟩ | ⟨old, _, _, rfl⟩
    · cases missing
    · -- another dir than the one that is synced
      have apart : row.id ≠ d := by
        rintro rfl
        obtain ⟨here, at_, id⟩ := Option.map_eq_some_iff.mp (ScanTables.syncDir_dirID synced)
        have wf := ScanTables.syncDir_wellFormed synced inv.wellFormed
        obtain rfl := wf.dirIDs.eq_of_key (mem_of_lookup at_) hrow id
        exact other (key_of_lookup at_)
      have inside := tracks.missingInside inv.wellFormed member
      refine rows.gone row old missing f ?_
      rw [← ScanTables.syncDir_rowsOf_ne inside synced apart]
      exact hf
    · cases missing

theorem Rows.sweep (rows : s.Rows) (h : s.sweep loc = some s') : s'.Rows := by
  obtain ⟨run, active, _, _, rfl⟩ := sweep_cases h
  refine ⟨?_, rows.walked_setRun (active_some active) rfl, ?_⟩
  · intro f hf
    obtain ⟨old, hold, rfl⟩ := mem_updateWhere.mp hf
    split
    · exact rows.kinds old hold
    · exact rows.kinds old hold
  · intro d hd missing f hf
    obtain ⟨member, owner⟩ := List.mem_filter.mp hf
    obtain ⟨file, hfile, rfl⟩ := mem_updateWhere.mp member
    obtain ⟨old, hold, rfl⟩ := mem_updateWhere.mp hd
    have id : (if ScanTables.unseen loc run.gen old then { old with missing := true } else old).id =
        old.id := by
      split <;> rfl
    have inDir : file.dirID = old.id := by
      rw [id, decide_eq_true_eq] at owner
      rw [← owner]
      split <;> rfl
    split
    · rfl
    · rename_i kept
      by_cases unseen : ScanTables.unseen loc run.gen old = true
      · refine absurd ?_ kept
        simp only [decide_eq_true_eq]
        exact List.mem_map.mpr ⟨old, List.mem_filter.mpr ⟨hold, unseen⟩, inDir.symm⟩
      · rw [if_neg unseen] at missing
        exact rows.gone old hold missing file (List.mem_filter.mpr ⟨hfile, by simp [inDir]⟩)

theorem step_rows {a : Action} (rows : s.Rows) (inv : s.Inv) (h : s.step a = some s') : s'.Rows := by
  have self : ∀ d ∈ s.tables.dirs, ∃ old ∈ s.tables.dirs, old.id = d.id ∧ old.missing = d.missing :=
    fun d hd => ⟨d, hd, rfl, rfl⟩
  cases a with
  | insertLocation id uri =>
    obtain ⟨t, ok, rfl⟩ := withTables_cases h
    obtain ⟨dirs, files⟩ := ScanTables.insertLocation_frame ok
    exact rows.of_dirs files (dirs ▸ self) rows.walked
  | start loc now scanID force order tree =>
    obtain ⟨_, t, gen, began, rfl⟩ := start_cases h
    obtain ⟨_, files, dirs, _⟩ := ScanTables.beginScan_spec began
    have kept := dirs_of_updateWhere dirs fun _ => ⟨rfl, rfl⟩
    refine rows.of_dirs files kept ?_
    intro loc' run found res hres e he
    rw [Function.update_apply] at found
    split at found
    · cases found
      exact kind_of_emitted hres he
    · exact rows.walked loc' run found res hres e he
  | load loc i =>
    obtain ⟨run, res, active, _, rfl⟩ := load_cases h
    refine Rows.of_dirs (t := s.tables) rows rfl self ?_
    exact rows.walked_setRun (t := s.tables) (active_some active) rfl
  | commit loc i newDirID newFileID => exact rows.commit inv h
  | sweep loc => exact rows.sweep h
  | finish loc now scanErr =>
    obtain ⟨run, active, _, rfl⟩ := finish_cases h
    refine Rows.of_dirs (t := s.tables.finishScan now run.scanID run.progress scanErr) rows rfl self ?_
    exact rows.walked_setRun (t := s.tables) (active_some active) rfl
  | crash =>
    cases h
    exact Rows.of_dirs (t := s.tables) rows rfl self nofun
  | recover now =>
    cases h
    exact Rows.of_dirs (t := s.tables.abortRunningScans now) rows rfl self rows.walked
  | dirtyDirs limit picked =>
    obtain ⟨_, rfl⟩ := dirtyDirs_cases h
    refine Rows.of_dirs (t := (s.tables.dirtyDirs picked).1) rows rfl ?_ rows.walked
    exact dirs_of_updateWhere rfl fun _ => ⟨rfl, rfl⟩
  | releaseDir dirID lockedGen =>
    obtain ⟨t, ok, rfl⟩ := withTables_cases h
    obtain ⟨_, written⟩ := ScanTables.releaseDir_spec ok
    have files : t.files = s.tables.files := by rw [written]
    have dirs := dirs_of_updateWhere (congrArg ScanTables.dirs written) fun _ => ⟨rfl, rfl⟩
    exact rows.of_dirs files dirs rows.walked
  | releaseAndRedirty dirID lockedGen =>
    obtain ⟨t, ok, rfl⟩ := withTables_cases h
    obtain ⟨_, written⟩ := ScanTables.releaseAndRedirty_spec ok
    have files : t.files = s.tables.files := by rw [written]
    have dirs := dirs_of_updateWhere (congrArg ScanTables.dirs written) fun _ => ⟨rfl, rfl⟩
    exact rows.of_dirs files dirs rows.walked

theorem Reachable.rows (reachable : s.Reachable) : s.Rows := by
  obtain ⟨acts, ends⟩ := reachable
  have both : s.Inv ∧ s.Rows := by
    refine Transition.invariant_of_run (I := fun s => s.Inv ∧ s.Rows) ?_ ?_ ends
    · exact fun s a s' ⟨inv, rows⟩ h => ⟨step_inv a inv h, step_rows rows inv h⟩
    · exact ⟨empty_inv, nofun, nofun, nofun⟩
  exact both.2

/-- The live rows of a location that was swept are the files that were walked, unless one of them
returned unchanged. -/
theorem live_iff_walked (reachable : s.Reachable) (found : s.byLoc loc = some run)
    (swept : run.swept = true) (stats : ∀ res ∈ run.walked, ∀ f ∈ res.files, f.info.isSome)
    (clear : ∀ res ∈ run.walked, NoneReturnsUnchanged loc res run.begun) {rel name : Path}
    {kind : FileKind} :
    (∃ f ∈ s.tables.files, s.tables.dirID loc rel = some f.dirID ∧ f.name = name ∧
        f.missing = false ∧ f.kind = kind) ↔
      ∃ res ∈ run.walked, res.dir = rel ∧ ∃ e ∈ res.files, e.name = name ∧ e.kind = kind := by
  have inv := reachable.inv
  have rows := reachable.rows
  have tracks := inv.tracks loc run found
  have exact_ := (reachable.generations.sees loc run found).sweptExactly inv.wellFormed
    tracks.begun swept fun res => ⟨fun walked => synced_of_swept inv found swept walked,
      fun done => tracks.mem_walked.mpr (.inr done)⟩
  have converged : ∀ res ∈ run.walked, Converged loc res s.tables := fun res walked =>
    (dir_converged_iff inv found swept walked (stats res walked)).mpr (clear res walked)
  constructor
  · rintro ⟨f, hf, owner, rfl, live, rfl⟩
    obtain ⟨d, hd, id, key⟩ := ScanTables.exists_dir_of_dirID owner
    have present : d.missing = false := by
      by_contra gone
      have missing := rows.gone d hd (by simpa using gone) f
        (List.mem_filter.mpr ⟨hf, by simp [id]⟩)
      rw [live] at missing
      cases missing
    obtain ⟨res, walked, same⟩ := (exact_.live rel).mp
      ⟨d, hd, congrArg Prod.fst key, congrArg Prod.snd key, present⟩
    subst same
    refine ⟨res, walked, rfl, ?_⟩
    have listed : f ∈ liveFiles loc res.dir s.tables :=
      List.mem_filter.mpr ⟨hf, by simp [owner, live]⟩
    obtain ⟨e, he, same⟩ := List.mem_map.mp
      ((converged res walked).mem_iff.mp (List.mem_map_of_mem listed))
    have named : e.name = f.name := congrArg Prod.fst same
    have kind := rows.walked loc run found res walked e he
    rw [named, rows.kinds f hf, Option.some.injEq] at kind
    exact ⟨e, he, named, kind.symm⟩
  · rintro ⟨res, walked, rfl, e, he, rfl, rfl⟩
    obtain ⟨f, hf, same⟩ := List.mem_map.mp
      ((converged res walked).mem_iff.mpr (List.mem_map_of_mem he))
    obtain ⟨member, facts⟩ := List.mem_filter.mp hf
    simp only [decide_eq_true_eq] at facts
    have named : f.name = e.name := congrArg Prod.fst same
    have kind := rows.walked loc run found res walked e he
    rw [← named, rows.kinds f member, Option.some.injEq] at kind
    exact ⟨f, member, facts.1, named, facts.2, kind⟩

end Scanner

end Byom.Scan
