import Byom.Scan.CleanSync
import Byom.Scan.Sweeping

/-!
# Scanning an unchanged tree again

The second of two scans of one tree syncs each dir against the rows the first one
left. It has nothing to write exactly when no dir had a row without a walked file,
since a missing row is known and missing again, and when every mod time fits its
column.
-/

namespace Byom.Scan

open Storage Relational Sqlite

/-- The stats of a walked dir agree with its rows. -/
def DirAgrees (loc : UUID) (res : WalkResult) (t : ScanTables) : Prop :=
  ∀ name, Agrees (res.stat name) ((t.fileAt loc res.dir name).map record)

/-- Before the first scan, each row of a walked dir belongs to a walked file, and each
walked file has a size and a mod time that a row can hold, or those of a file that
the change set leaves out. -/
def Settled (loc : UUID) (walked : List WalkResult) (t : ScanTables) : Prop :=
  ∀ res ∈ walked,
    (∀ f ∈ t.files, t.dirID loc res.dir = some f.dirID → ∃ e ∈ res.files, e.name = f.name) ∧
      ∀ e ∈ res.files, ∀ info ∈ e.info, info.stored = info ∨
        info = File.zero.info ∧ ∀ f ∈ t.files, t.dirID loc res.dir = some f.dirID → f.name ≠ e.name

instance (loc : UUID) (walked : List WalkResult) (t : ScanTables) :
    Decidable (Settled loc walked t) :=
  inferInstanceAs (Decidable (∀ res ∈ walked, (∀ f ∈ t.files, _ → ∃ e ∈ res.files, _) ∧
    ∀ e ∈ res.files, ∀ info ∈ e.info, _ ∨ _ ∧ ∀ f ∈ t.files, _ → _))

section

variable {t : ScanTables} {loc : UUID} {res : WalkResult}

/-- The merger's map order changes only the order of the files. -/
theorem emitted_of_order {order order' : MapOrder} {tree : Tree}
    (h : res ∈ (walk order tree).emitted) : ∃ res' ∈ (walk order' tree).emitted,
      res'.dir = res.dir ∧ ∀ name, res'.stat name = res.stat name := by
  have listed : res.dir ∈ (walk order' tree).emitted.map WalkResult.dir := by
    rw [(walk_merged order' tree).dirs, ← (walk_merged order tree).dirs]
    exact List.mem_map_of_mem h
  obtain ⟨res', h', same⟩ := List.mem_map.mp listed
  obtain ⟨r, hr, ofR, files⟩ := (walk_merged order tree).files res h
  obtain ⟨r', hr', ofR', files'⟩ := (walk_merged order' tree).files res' h'
  obtain rfl := (visits_dir_nodup tree).eq_of_key hr hr' (ofR.trans (same.symm.trans ofR'.symm))
  refine ⟨res', h', same, ?_⟩
  intro name
  have read : ∀ info, res'.stat name = some info ↔ res.stat name = some info := by
    intro info
    rw [stat_eq_some_iff (emitted_names_unique h'), stat_eq_some_iff (emitted_names_unique h)]
    simp only [files, files']
  exact Option.ext read

theorem DirAgrees.congr {res' : WalkResult} (agrees : DirAgrees loc res' t)
    (dir : res'.dir = res.dir) (stat : ∀ name, res'.stat name = res.stat name) :
    DirAgrees loc res t := by
  intro name
  rw [← stat, ← dir]
  exact agrees name

/-- One row after a scan agrees with its stat, in terms of the row before. -/
theorem agrees_reconcile_iff {seen : Option FileInfo} {row : Option Record}
    (stored : ∀ r ∈ row, r.info.stored = r.info) :
    Agrees seen (reconcile seen row) ↔
      (seen = none → row = none) ∧
        ∀ info ∈ seen, info.stored = info ∨ info = File.zero.info ∧ row = none := by
  cases seen with
  | none => cases row <;> simp [reconcile, Agrees]
  | some info =>
    cases row with
    | none =>
      by_cases zero : info = File.zero.info
      · simp [reconcile, Agrees, zero]
      · simp [reconcile, Agrees, zero, eq_comm]
    | some r =>
      have fits := stored r rfl
      by_cases same : info = r.info
      · simp [reconcile, Agrees, same, fits]
      · simp [reconcile, Agrees, same, eq_comm]

theorem dirAgrees_of_reconciled {before : ScanTables} (wf : before.WellFormed)
    (names : UniqueOn WalkEntry.name res.files) (stats : ∀ f ∈ res.files, f.info.isSome)
    (reconciled : ∀ name, (t.fileAt loc res.dir name).map record =
      reconcile (res.stat name) ((before.fileAt loc res.dir name).map record)) :
    DirAgrees loc res t ↔ Settled loc [res] before := by
  have stored : ∀ name, ∀ r ∈ (before.fileAt loc res.dir name).map record,
      r.info.stored = r.info := by
    intro name r hr
    obtain ⟨f, hf, _, _, rfl⟩ := (fileAt_record_iff wf).mp hr
    exact wf.stored f hf
  have absent : ∀ name, (before.fileAt loc res.dir name).map record = none ↔
      ∀ f ∈ before.files, before.dirID loc res.dir = some f.dirID → f.name ≠ name := by
    intro name
    rw [Option.map_eq_none_iff]
    constructor
    · rintro none_ f hf owner rfl
      rw [ScanTables.fileAt_of_mem wf hf owner] at none_
      cases none_
    · intro clear
      by_contra some_
      obtain ⟨f, found⟩ := Option.ne_none_iff_exists'.mp some_
      obtain ⟨hf, named, owner⟩ := ScanTables.fileAt_some found
      exact clear f hf owner named
  have unwalked : ∀ name, res.stat name = none ↔ ∀ e ∈ res.files, e.name ≠ name := by
    intro name
    constructor
    · rintro none_ e he rfl
      rw [stat_of_mem names he] at none_
      simpa [none_] using stats e he
    · intro clear
      by_contra some_
      obtain ⟨info, found⟩ := Option.ne_none_iff_exists'.mp some_
      obtain ⟨e, he, named, _⟩ := (stat_eq_some_iff names).mp found
      exact clear e he named
  unfold DirAgrees
  simp only [reconciled, agrees_reconcile_iff (stored _), Settled, List.mem_singleton,
    forall_eq, absent, unwalked]
  constructor
  · intro agrees
    refine ⟨?_, ?_⟩
    · intro f hf owner
      by_contra none_
      push Not at none_
      exact (agrees f.name).1 none_ f hf owner rfl
    · intro e he info statd
      apply (agrees e.name).2
      rw [stat_of_mem names he]
      exact statd
  · rintro ⟨rows, fits⟩ name
    refine ⟨?_, ?_⟩
    · rintro none_ f hf owner rfl
      obtain ⟨e, he, named⟩ := rows f hf owner
      exact none_ e he named
    · intro info statd
      obtain ⟨e, he, rfl, found⟩ := (stat_eq_some_iff names).mp statd
      exact fits e he info found

end

namespace Scanner

variable {s s' : Scanner} {loc : UUID} {run : ScanRun} {acts : List Action}

/-- The scan of `loc`, in this run, queued no dir and wrote nothing but generations. -/
structure NoOp (loc : UUID) (s s' : Scanner) (acts : List Action) : Prop where
  quiet : ∀ p ∈ payloads loc s acts, p.Clean
  same : SameButSeen loc s.tables s'.tables
  elsewhere : Transition.StepsMeet step (KeepsElsewhere loc) s acts

/-- No dir of the location is locked by a parser. -/
def Unlocked (loc : UUID) (s : Scanner) : Prop :=
  ∀ d ∈ s.tables.dirs, d.locationID = loc → d.lockedGeneration = none

instance (loc : UUID) (s : Scanner) : Decidable (s.Unlocked loc) :=
  inferInstanceAs (Decidable (∀ d ∈ s.tables.dirs, _ → _))

theorem Unlocked.not_lockedBy (unlocked : s.Unlocked loc) {dirID : UUID} {lockedGen : Int}
    {d : DirRow} (hd : d ∈ s.tables.dirs) (hit : ScanTables.lockedBy dirID lockedGen d = true) :
    d.locationID ≠ loc := by
  intro here
  have locked : d.id = dirID ∧ d.lockedGeneration = some lockedGen := by
    simpa [ScanTables.lockedBy] using hit
  rw [unlocked d hd here] at locked
  cases locked.2

/-- The scan found the dirs it walks live, and no others. -/
def FoundLive (loc : UUID) (run : ScanRun) : Prop :=
  ∀ rel, (∃ d, run.begun.dirAt loc rel = some d ∧ d.missing = false) ↔
    ∃ res ∈ run.walked, res.dir = rel

theorem FoundLive.of_sameScan {a b : ScanRun} (found : FoundLive loc a) (same : SameScan a b) :
    FoundLive loc b := by
  unfold FoundLive
  rw [same.walked, same.begun]
  exact found

/-- A committed payload compares the walked dir with the rows the scan found. -/
theorem payload_clean_iff_begun (inv : s.Inv) (at_ : s.byLoc loc = some run)
    (unforced : run.force = false) {res : WalkResult} {known : List File}
    (loaded : (res, known) ∈ run.loaded) :
    (syncPayload loc run.gen run.force known res).Clean ↔ DirAgrees loc res run.begun := by
  have tracks := inv.tracks loc run at_
  have waits : res ∈ run.queue ++ run.loaded.map Prod.fst :=
    List.mem_append_right _ (List.mem_map_of_mem loaded)
  have names := tracks.names res (tracks.mem_walked.mpr (.inl waits))
  rw [unforced, payload_clean_iff inv.wellFormed names (tracks.loaded _ loaded)]
  unfold DirAgrees
  simp only [tracks.waiting res waits]

/-- The payloads of a run are clean when the dirs synced in it agree with the rows
the scan found. -/
theorem payloads_clean_iff (inv : s.Inv) (once : ∀ a ∈ acts, a.starts ≠ some loc)
    (ran : Transition.run step s acts = some s') (at_ : s'.byLoc loc = some run)
    (unforced : run.force = false) : ∃ old news, s.byLoc loc = some old ∧ SameScan old run ∧
      run.synced = news ++ old.synced ∧
      ((∀ p ∈ payloads loc s acts, p.Clean) ↔ ∀ res ∈ news, DirAgrees loc res run.begun) := by
  induction acts generalizing s with
  | nil =>
    cases ran
    exact ⟨run, [], at_, .refl run, rfl, by simp [payloads]⟩
  | cons a acts ih =>
    obtain ⟨first, rest⟩ := List.forall_mem_cons.mp once
    obtain ⟨s₁, stepped, ran⟩ := Option.bind_eq_some_iff.mp ran
    obtain ⟨mid, news, atMid, later, grown, clean⟩ := ih (step_inv a inv stepped) rest ran
    obtain ⟨old, here, earlier, quiet | ⟨res, known, active, loaded, synced, payload⟩⟩ :=
      step_successor a first stepped atMid
    · refine ⟨old, news, here, earlier.trans later, by rw [grown, quiet.1], ?_⟩
      simpa [payloads, stepped, quiet.2] using clean
    · refine ⟨old, news ++ [res], here, earlier.trans later, by rw [grown, synced]; simp, ?_⟩
      have same := earlier.trans later
      have this := payload_clean_iff_begun inv here (same.force.symm.trans unforced) loaded
      rw [← same.begun] at this
      simp only [payloads, stepped, payload, Option.toList_some, List.cons_append,
        List.nil_append, List.forall_mem_cons, List.forall_mem_append, List.mem_singleton,
        forall_eq, this, clean]
      exact and_comm

/-! ### What the second scan writes -/

/-- A dir that waits for its commit is live: it was so when the scan began. -/
theorem live_of_waiting (g : s.Generations) (at_ : s.byLoc loc = some run)
    (live : FoundLive loc run) (unswept : run.swept = false) {res : WalkResult}
    (walked : res ∈ run.walked) :
    ∃ d, s.tables.dirAt loc res.dir = some d ∧ d.missing = false := by
  have sees := g.sees loc run at_
  by_cases synced : ∃ r ∈ run.synced, r.dir = res.dir
  · obtain ⟨r, hr, same⟩ := synced
    obtain ⟨d, found⟩ := sees.synced r hr
    exact ⟨_, same ▸ found, rfl⟩
  · push Not at synced
    obtain ⟨d, found, present⟩ := (live res.dir).mpr ⟨res, walked, rfl⟩
    refine ⟨d, ?_, present⟩
    rw [sees.others res.dir synced, found]
    simp [unswept]

/-- A sweep after a scan that found what it walked marks nothing. -/
theorem sweep_finds_none (g : s.Generations) (at_ : s.byLoc loc = some run)
    (live : FoundLive loc run) (unswept : run.swept = false) (drained : run.drained = true) :
    ∀ d ∈ s.tables.dirs, ScanTables.unseen loc run.gen d = false := by
  intro d hd
  by_contra hit
  have unseen : d.locationID = loc ∧ d.seenGeneration < run.gen ∧ d.missing = false := by
    simpa [ScanTables.unseen] using hit
  obtain ⟨rfl, old, present⟩ := unseen
  have sees := g.sees d.locationID run at_
  have tracks := g.inv.tracks d.locationID run at_
  have row := ScanTables.dirAt_of_mem g.inv.wellFormed hd
  by_cases synced : ∃ r ∈ run.synced, r.dir = d.relPath
  · obtain ⟨r, hr, same⟩ := synced
    obtain ⟨id, found⟩ := sees.synced r hr
    rw [same, row, Option.some.injEq] at found
    have current : d.seenGeneration = run.gen := congrArg ScanTables.Sighting.seen found
    exact absurd current old.ne
  · push Not at synced
    have found := sees.others d.relPath synced
    rw [row] at found
    have before : run.begun.dirAt d.locationID d.relPath = some (ScanTables.sighting d) := by
      rw [found]
      simp [unswept]
    obtain ⟨res, walked, same⟩ := (live d.relPath).mp ⟨_, before, present⟩
    obtain ⟨queue, loaded⟩ := drained_iff.mp drained
    rcases tracks.mem_walked.mp walked with waits | done
    · simp [queue, loaded] at waits
    · exact synced res done same

theorem step_sameButSeen (g : s.Generations) {a : Action} (other : a.starts ≠ some loc)
    (h : s.step a = some s') (unlocked : s.Unlocked loc) (unlocked' : s'.Unlocked loc)
    (live : ∀ run, s.byLoc loc = some run → FoundLive loc run)
    (clean : ∀ p ∈ payloadOf loc s a, p.Clean) : SameButSeen loc s.tables s'.tables := by
  cases a with
  | insertLocation id uri =>
    obtain ⟨t, ok, rfl⟩ := withTables_cases h
    obtain ⟨dirs, files⟩ := ScanTables.insertLocation_frame ok
    exact .of_eq dirs files
  | start loc' now scanID force order tree =>
    obtain ⟨_, t, gen, began, rfl⟩ := start_cases h
    have apart : loc ≠ loc' := fun same => other (by rw [Action.starts, same])
    exact .of_elsewhere apart (ScanTables.beginScan_sameElsewhere began)
  | load loc' i =>
    obtain ⟨run, res, _, _, rfl⟩ := load_cases h
    exact .refl loc _
  | commit loc' i newDirID newFileID =>
    obtain ⟨run, res, known, t, d, active, taken, synced, rfl⟩ := commit_cases h
    have loaded := List.mem_of_getElem? taken
    have at_ := active_some active
    have tracks := g.inv.tracks loc' run at_
    by_cases here : loc' = loc
    · subst here
      have unswept := tracks.unswept_of_loaded loaded
      have walked := tracks.walked_of_loaded loaded
      obtain ⟨seen, found, present⟩ := live_of_waiting g at_ (live run at_) unswept walked
      refine SameButSeen.of_clean (clean _ ?_) synced found present g.inv.wellFormed
      simp [payloadOf, payloadAt, active, taken]
    · exact .of_elsewhere (Ne.symm here) (ScanTables.syncDir_sameElsewhere g.inv.wellFormed
        (tracks.missingInside g.inv.wellFormed loaded) synced)
  | sweep loc' =>
    obtain ⟨run, active, drained, unswept, rfl⟩ := sweep_cases h
    by_cases here : loc' = loc
    · subst here
      have at_ := active_some active
      have none_ := sweep_finds_none g at_ (live run at_) unswept drained
      have marked : s.tables.dirs.filter (ScanTables.unseen loc' run.gen) = [] :=
        List.filter_eq_nil_iff.mpr fun d hd => by simp [none_ d hd]
      refine .of_eq (updateWhere_eq_self _ none_) ?_
      exact updateWhere_eq_self _ fun f _ => by simp [marked]
    · exact .of_elsewhere (Ne.symm here)
        (ScanTables.sweep_sameElsewhere g.inv.wellFormed run.gen)
  | finish loc' now scanErr =>
    obtain ⟨run, _, _, rfl⟩ := finish_cases h
    exact .of_eq rfl rfl
  | crash =>
    cases h
    exact .refl loc _
  | recover now =>
    cases h
    exact .of_eq rfl rfl
  | dirtyDirs limit picked =>
    obtain ⟨_, rfl⟩ := dirtyDirs_cases h
    refine .of_updateWhere rfl rfl ?_
    intro d hd hit
    refine ⟨?_, rfl⟩
    rintro rfl
    -- A claim of the dir would lock it.
    have locked := unlocked' _ (mem_updateWhere.mpr ⟨d, hd, rfl⟩)
    rw [if_pos hit] at locked
    cases locked rfl
  | releaseDir dirID lockedGen =>
    obtain ⟨t, ok, rfl⟩ := withTables_cases h
    obtain ⟨_, rfl⟩ := ScanTables.releaseDir_spec ok
    exact .of_updateWhere rfl rfl fun d hd hit => ⟨unlocked.not_lockedBy hd hit, rfl⟩
  | releaseAndRedirty dirID lockedGen =>
    obtain ⟨t, ok, rfl⟩ := withTables_cases h
    obtain ⟨_, rfl⟩ := ScanTables.releaseAndRedirty_spec ok
    exact .of_updateWhere rfl rfl fun d hd hit => ⟨unlocked.not_lockedBy hd hit, rfl⟩

theorem run_sameButSeen (g : s.Generations) (once : ∀ a ∈ acts, a.starts ≠ some loc)
    (ran : Transition.run step s acts = some s')
    (unlocked : Transition.Along step (Unlocked loc) s acts)
    (live : ∀ run, s.byLoc loc = some run → FoundLive loc run)
    (clean : ∀ p ∈ payloads loc s acts, p.Clean) : SameButSeen loc s.tables s'.tables := by
  induction acts generalizing s with
  | nil =>
    cases ran
    exact .refl loc _
  | cons a acts ih =>
    obtain ⟨first, rest⟩ := List.forall_mem_cons.mp once
    obtain ⟨s₁, stepped, ran⟩ := Option.bind_eq_some_iff.mp ran
    have later := unlocked.2 s₁ stepped
    simp only [payloads, stepped, List.forall_mem_append] at clean
    have here := step_sameButSeen g first stepped unlocked.1 later.head live
      (fun p hp => clean.1 p (by simpa using hp))
    refine here.trans (ih (step_generations a g stepped) rest ran later ?_ clean.2)
    intro run at_
    obtain ⟨old, before, same, _⟩ := step_successor a first stepped at_
    exact (live old before).of_sameScan same

/-- The start of a scan changes nothing in a location with no locked dir. -/
theorem start_sameButSeen {now : Int} {scanID : UUID} {force : Bool} {order : MapOrder} {tree : Tree}
    (unlocked : s.Unlocked loc) (h : s.start loc now scanID force order tree = some s') :
    SameButSeen loc s.tables s'.tables := by
  obtain ⟨_, t, gen, began, rfl⟩ := start_cases h
  obtain ⟨_, files, dirs, _⟩ := ScanTables.beginScan_spec began
  refine .of_updateWhere dirs files ?_
  intro d hd hit
  simp only [decide_eq_true_eq] at hit
  rw [unlocked d hd hit.1] at hit
  cases hit.2

section Scans

variable {now : Int} {scanID : UUID} {order : MapOrder} {tree : Tree}

/-- What a scan that has swept leaves for the next one. -/
theorem left_by_scan {force : Bool} (reachable : s.Reachable)
    (stats : ∀ res ∈ (walk order tree).emitted, ∀ f ∈ res.files, f.info.isSome)
    (once : ∀ a ∈ acts, a.starts ≠ some loc)
    (ran : Transition.run step s (.start loc now scanID force order tree :: acts) = some s')
    (found : s'.byLoc loc = some run) (swept : run.swept = true) :
    (∀ rel, (∃ d, s'.tables.dirAt loc rel = some d ∧ d.missing = false) ↔
      ∃ res ∈ (walk order tree).emitted, res.dir = rel) ∧
    ∀ res ∈ (walk order tree).emitted,
      (DirAgrees loc res s'.tables ↔ Settled loc [res] s.tables) := by
  have ends := reachable.after ran
  have left := (scan_sweeps_exactly reachable once ran found swept).1
  obtain ⟨u, started, rest⟩ := Option.bind_eq_some_iff.mp ran
  obtain ⟨begun, at_, same⟩ := run_sameScan once rest found
  obtain ⟨_, _, _, _, rfl⟩ := start_cases started
  rw [setRun_byLoc, if_pos rfl, Option.some.injEq] at at_
  subst at_
  have tracks := ends.inv.tracks loc run found
  refine ⟨?_, ?_⟩
  · intro rel
    rw [← left.live rel]
    constructor
    · rintro ⟨d, here, present⟩
      obtain ⟨row, hrow, owner, path, rfl⟩ := ScanTables.dirAt_some here
      exact ⟨row, hrow, owner, path, present⟩
    · rintro ⟨row, hrow, rfl, rfl, present⟩
      exact ⟨_, ScanTables.dirAt_of_mem ends.inv.wellFormed hrow, present⟩
  · intro res hres
    apply dirAgrees_of_reconciled reachable.inv.wellFormed (emitted_names_unique hres)
      (stats res hres)
    intro name
    have begun : run.begun = s.tables := same.begun
    rw [← begun]
    apply tracks.synced res
    exact synced_of_swept ends.inv found swept (same.walked.symm ▸ hres)

/-- A scan that finds the dirs it walks live is a no-op if and only if they agree with
the rows there. -/
theorem scan_noOp_iff (reachable : s.Reachable)
    (live : ∀ rel, (∃ d, s.tables.dirAt loc rel = some d ∧ d.missing = false) ↔
      ∃ res ∈ (walk order tree).emitted, res.dir = rel)
    (once : ∀ a ∈ acts, a.starts ≠ some loc)
    (ran : Transition.run step s (.start loc now scanID false order tree :: acts) = some s')
    (found : s'.byLoc loc = some run) (swept : run.swept = true)
    (unlocked : Transition.Along step (Unlocked loc) s
      (.start loc now scanID false order tree :: acts)) :
    NoOp loc s s' (.start loc now scanID false order tree :: acts) ↔
      ∀ res ∈ (walk order tree).emitted, DirAgrees loc res s.tables := by
  have ends := reachable.after ran
  obtain ⟨u, started, rest⟩ := Option.bind_eq_some_iff.mp ran
  have g := (reachable.step started).generations
  have begins := start_sameButSeen unlocked.1 started
  have locks := unlocked.2 u started
  obtain ⟨_, at_, same⟩ := run_sameScan once rest found
  have silent : payloads loc s (.start loc now scanID false order tree :: acts) =
      payloads loc u acts := by
    simp [payloads, started, payloadOf]
  obtain ⟨_, t, gen, _, rfl⟩ := start_cases started
  rw [setRun_byLoc, if_pos rfl, Option.some.injEq] at at_
  subst at_
  obtain ⟨old, news, before, _, grown, clean⟩ :=
    payloads_clean_iff g.inv once rest found same.force
  rw [setRun_byLoc, if_pos rfl, Option.some.injEq] at before
  subst before
  -- Every walked dir was synced in this run.
  have all : ∀ res, res ∈ news ↔ res ∈ (walk order tree).emitted := by
    intro res
    have walked : run.walked = (walk order tree).emitted := same.walked
    rw [← walked, show news = run.synced by simpa using grown.symm]
    constructor
    · exact fun done => (ends.inv.tracks loc run found).mem_walked.mpr (.inr done)
    · exact synced_of_swept ends.inv found swept
  simp only [all, show run.begun = s.tables from same.begun] at clean
  rw [← clean, ← silent]
  constructor
  · exact fun noOp => noOp.quiet
  · intro quiet
    refine ⟨quiet, ?_, keepsElsewhere_run reachable loc _⟩
    rw [silent] at quiet
    refine begins.trans (run_sameButSeen g once rest locks ?_ quiet)
    intro r at_
    rw [setRun_byLoc, if_pos rfl, Option.some.injEq] at at_
    subst at_
    exact live

end Scans

/-- The second of two scans of one tree is a no-op if and only if the tables that the
first one found are settled for that tree. -/
theorem rescan_noOp_iff {s₀ s₁ s₂ : Scanner} {run₁ run₂ : ScanRun} {acts₁ acts₂ : List Action}
    {now₁ now₂ : Int} {scanID₁ scanID₂ : UUID} {order₁ order₂ : MapOrder} {tree : Tree}
    (reachable : s₀.Reachable)
    (stats : ∀ res ∈ (walk order₁ tree).emitted, ∀ f ∈ res.files, f.info.isSome)
    (once₁ : ∀ a ∈ acts₁, a.starts ≠ some loc)
    (first : Transition.run step s₀ (.start loc now₁ scanID₁ false order₁ tree :: acts₁) = some s₁)
    (found₁ : s₁.byLoc loc = some run₁) (swept₁ : run₁.swept = true)
    (once₂ : ∀ a ∈ acts₂, a.starts ≠ some loc)
    (second : Transition.run step s₁ (.start loc now₂ scanID₂ false order₂ tree :: acts₂) = some s₂)
    (found₂ : s₂.byLoc loc = some run₂) (swept₂ : run₂.swept = true)
    (unlocked : Transition.Along step (Unlocked loc) s₁
      (.start loc now₂ scanID₂ false order₂ tree :: acts₂)) :
    NoOp loc s₁ s₂ (.start loc now₂ scanID₂ false order₂ tree :: acts₂) ↔
      Settled loc (walk order₁ tree).emitted s₀.tables := by
  obtain ⟨live, agrees⟩ := left_by_scan reachable stats once₁ first found₁ swept₁
  have live₂ : ∀ rel, (∃ d, s₁.tables.dirAt loc rel = some d ∧ d.missing = false) ↔
      ∃ res ∈ (walk order₂ tree).emitted, res.dir = rel := by
    intro rel
    rw [live rel]
    constructor
    · rintro ⟨res, hres, rfl⟩
      obtain ⟨res', hres', same, _⟩ := emitted_of_order hres
      exact ⟨res', hres', same⟩
    · rintro ⟨res, hres, rfl⟩
      obtain ⟨res', hres', same, _⟩ := emitted_of_order hres
      exact ⟨res', hres', same⟩
  rw [scan_noOp_iff (reachable.after first) live₂ once₂ second found₂ swept₂ unlocked]
  calc
    _ ↔ ∀ res ∈ (walk order₁ tree).emitted, DirAgrees loc res s₁.tables := by
      constructor
      · intro all res hres
        obtain ⟨res', hres', dir, stat⟩ := emitted_of_order hres
        exact (all res' hres').congr dir stat
      · intro all res hres
        obtain ⟨res', hres', dir, stat⟩ := emitted_of_order hres
        exact (all res' hres').congr dir stat
    _ ↔ Settled loc (walk order₁ tree).emitted s₀.tables := by
      unfold Settled at agrees ⊢
      simp only [List.mem_singleton, forall_eq] at agrees
      exact forall₂_congr agrees

def locationAdded : List Action := [.insertLocation 1 "file:///music"]

theorem oneFile_rescanned :
    NoOp 1 (afterActions fileAdded (by decide))
      (afterActions (fileAdded ++ wholeScan 3 oneFile) (by decide)) (wholeScan 3 oneFile) := by
  have first : Transition.run step (afterActions locationAdded (by decide)) (wholeScan 2 oneFile) =
      some (afterActions fileAdded (by decide)) := by rfl
  have second : Transition.run step (afterActions fileAdded (by decide)) (wholeScan 3 oneFile) =
      some (afterActions (fileAdded ++ wholeScan 3 oneFile) (by decide)) := by rfl
  exact (rescan_noOp_iff (afterActions_reachable locationAdded (by decide)) (by decide) (by decide)
    first (scanOfOne_found _ (by decide)) (by decide) (by decide) second
    (scanOfOne_found _ (by decide)) (by decide) (by decide)).mpr (by decide)

/-- The file is scanned, then removed; this is the first scan without it. -/
def fileRemoved : List Action := fileAdded ++ wholeScan 3 noFiles

/-- The second one reports the file as missing again, and queues the dir. -/
theorem fileRemoved_queued_again :
    ¬ ∀ (s₀ s₁ s₂ : Scanner) (loc : UUID) (run₁ run₂ : ScanRun) (acts₁ acts₂ : List Action)
      (now₁ now₂ : Int) (scanID₁ scanID₂ : UUID) (order₁ order₂ : MapOrder) (tree : Tree),
      s₀.Reachable → (∀ res ∈ (walk order₁ tree).emitted, ∀ f ∈ res.files, f.info.isSome) →
      (∀ a ∈ acts₁, a.starts ≠ some loc) →
      Transition.run step s₀ (.start loc now₁ scanID₁ false order₁ tree :: acts₁) = some s₁ →
      s₁.byLoc loc = some run₁ → run₁.swept = true →
      (∀ a ∈ acts₂, a.starts ≠ some loc) →
      Transition.run step s₁ (.start loc now₂ scanID₂ false order₂ tree :: acts₂) = some s₂ →
      s₂.byLoc loc = some run₂ → run₂.swept = true →
      Transition.Along step (Unlocked loc) s₁
        (.start loc now₂ scanID₂ false order₂ tree :: acts₂) →
      NoOp loc s₁ s₂ (.start loc now₂ scanID₂ false order₂ tree :: acts₂) := by
  intro claim
  have first : Transition.run step (afterActions fileAdded (by decide)) (wholeScan 3 noFiles) =
      some (afterActions fileRemoved (by decide)) := by rfl
  have second : Transition.run step (afterActions fileRemoved (by decide)) (wholeScan 4 noFiles) =
      some (afterActions (fileRemoved ++ wholeScan 4 noFiles) (by decide)) := by rfl
  have noOp := claim _ _ _ 1 _ _ _ _ _ _ _ _ _ _ noFiles
    (afterActions_reachable fileAdded (by decide)) (by decide) (by decide) first
    (scanOfOne_found _ (by decide)) (by decide) (by decide) second
    (scanOfOne_found _ (by decide)) (by decide) (by decide)
  have quiet : ∀ p ∈ payloads 1 (afterActions fileRemoved (by decide)) (wholeScan 4 noFiles),
      p.Clean := noOp.quiet
  exact absurd quiet (by decide)

end Scanner

end Byom.Scan
