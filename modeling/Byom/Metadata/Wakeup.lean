import Byom.Metadata.Freshness

/-!
# No lost wakeup

The dispatcher sleeps until a token arrives, so a dir that becomes claimable needs
a wake. Three steps make one claimable, or drop its wake, in silence; a run loses
no wakeup exactly when these steps find another wake pending.
-/

namespace Byom.Metadata.Pipeline

open Storage Relational Sqlite Transition

variable {Import : Type} {importOf : List File → Import} {s s' : Pipeline Import} {w : Nat}
  {x y : Worker}

/-- The dispatcher is in `pump`, a token is buffered, or someone has yet to call
`Wake`: a sync, a retry timer, or the worker that is about to arm one. -/
def Awake (s : Pipeline Import) : Prop :=
  s.dispatcher ≠ .waiting ∨ s.token = true ∨ s.onDirty ≠ [] ∨ 0 < s.timers ∨
    .redirtied ∈ s.workers

instance (s : Pipeline Import) : Decidable s.Awake :=
  inferInstanceAs (Decidable (s.dispatcher ≠ .waiting ∨ s.token = true ∨ s.onDirty ≠ [] ∨
    0 < s.timers ∨ .redirtied ∈ s.workers))

def NoLostWakeup (s : Pipeline Import) : Prop :=
  (∃ d ∈ s.tables.dirs, ScanTables.claimable d = true) → s.Awake

instance (s : Pipeline Import) : Decidable s.NoLostWakeup :=
  inferInstanceAs (Decidable ((∃ d ∈ s.tables.dirs, ScanTables.claimable d = true) → s.Awake))

/-- The dirs that an action leaves claimable without a wake of its own: those whose
lock a scan resets, a released dir that is dirty again, and every claimable dir when
the release took too long for a retry. -/
def leavesClaimable (s : Pipeline Import) : Action → List DirRow
  | .beginScan loc _ _ =>
    s.tables.dirs.filter fun d => d.locationID = loc ∧ d.lockedGeneration.isSome
  | .releaseDir w =>
    match (s.workers[w]?).bind Worker.releasing with
    | none => []
    | some dir => s.tables.dirs.filter fun d =>
      ScanTables.lockedBy dir.id dir.lockedGeneration d && d.dirty
  | .skipRetry _ => s.tables.dirs.filter ScanTables.claimable
  | _ => []

/-- The state without the retry that an action gives up. -/
def withoutRetry (s : Pipeline Import) : Action → Pipeline Import
  | .skipRetry w => s.setWorker w .idle
  | _ => s

/-- What the action leaves claimable, another wake takes care of. -/
def Heard (s : Pipeline Import) (a : Action) : Prop :=
  s.leavesClaimable a = [] ∨ (s.withoutRetry a).Awake

instance (s : Pipeline Import) (a : Action) : Decidable (s.Heard a) :=
  inferInstanceAs (Decidable (_ = [] ∨ _))

/-! ### Frames -/

theorem mem_set_of_ne {z : Worker} (found : s.workers[w]? = some x) (other : z ≠ x)
    (hz : z ∈ s.workers) : z ∈ s.workers.set w y := by
  obtain ⟨inside, here⟩ := List.getElem?_eq_some_iff.mp found
  have before := List.getElem_cons_eraseIdx_perm inside
  have after := List.set_perm_cons_eraseIdx inside y
  rw [here] at before
  rw [after.mem_iff]
  rcases List.mem_cons.mp (before.mem_iff.mpr hz) with same | rest
  · exact absurd same other
  · exact List.mem_cons_of_mem _ rest

/-- A worker that is not waiting to arm a timer moves on. -/
theorem Awake.worker (awake : s.Awake) (found : s.workers[w]? = some x) (busy : x ≠ .redirtied)
    (dispatcher : s'.dispatcher = s.dispatcher) (token : s'.token = s.token)
    (onDirty : s'.onDirty = s.onDirty) (timers : s'.timers = s.timers)
    (workers : s'.workers = s.workers.set w y) : s'.Awake := by
  unfold Awake
  rw [dispatcher, token, onDirty, timers, workers]
  rcases awake with pumping | token | sync | timer | retry
  · exact .inl pumping
  · exact .inr (.inl token)
  · exact .inr (.inr (.inl sync))
  · exact .inr (.inr (.inr (.inl timer)))
  · exact .inr (.inr (.inr (.inr (mem_set_of_ne found (Ne.symm busy) retry))))

/-- No dir becomes claimable, and the wakes stay. -/
theorem NoLostWakeup.of_frame (good : s.NoLostWakeup)
    (claimable : ∀ d ∈ s'.tables.dirs, ScanTables.claimable d = true →
      ∃ d ∈ s.tables.dirs, ScanTables.claimable d = true)
    (awake : s.Awake → s'.Awake) : s'.NoLostWakeup := by
  rintro ⟨d, hd, ready⟩
  exact awake (good (claimable d hd ready))

theorem NoLostWakeup.of_dirs (good : s.NoLostWakeup) (dirs : s'.tables.dirs = s.tables.dirs)
    (awake : s.Awake → s'.Awake) : s'.NoLostWakeup := by
  refine good.of_frame ?_ awake
  rw [dirs]
  exact fun d hd ready => ⟨d, hd, ready⟩

/-- Where nothing new wakes the dispatcher, a dir that a write makes claimable must
find a wake pending. -/
theorem noLostWakeup_write_iff {p : DirRow → Bool} {set : DirRow → DirRow}
    (good : s.NoLostWakeup) (dirs : s'.tables.dirs = updateWhere p set s.tables.dirs)
    (awake : s'.Awake ↔ s.Awake) (freed : DirRow → Bool)
    (spec : ∀ d, p d = true → (ScanTables.claimable (set d) = true ↔ freed d = true))
    (inside : ∀ d, freed d = true → p d = true) :
    s'.NoLostWakeup ↔ s.tables.dirs.filter freed = [] ∨ s.Awake := by
  constructor
  · intro good'
    by_contra neither
    obtain ⟨some_, asleep⟩ := not_or.mp neither
    obtain ⟨d, hd⟩ := List.exists_mem_of_ne_nil _ some_
    obtain ⟨member, free⟩ := List.mem_filter.mp hd
    refine asleep (awake.mp (good' ⟨set d, ?_, (spec d (inside d free)).mpr free⟩))
    rw [dirs]
    exact mem_updateWhere.mpr ⟨d, member, by simp [inside d free]⟩
  · rintro (none_ | up)
    · refine good.of_frame ?_ awake.mpr
      intro d hd ready
      rw [dirs] at hd
      obtain ⟨old, hold, rfl⟩ := mem_updateWhere.mp hd
      by_cases hit : p old = true
      · rw [if_pos hit, spec old hit] at ready
        have listed : old ∈ s.tables.dirs.filter freed := List.mem_filter.mpr ⟨hold, ready⟩
        rw [none_] at listed
        cases listed
      · rw [if_neg hit] at ready
        exact ⟨old, hold, ready⟩
    · exact fun _ => awake.mpr up

/-! ### Steps -/

theorem step_workers_length {a : Action} (h : s.step importOf a = some s') :
    s'.workers.length = s.workers.length := by
  cases a with
  | beginScan loc now scanID =>
    obtain ⟨t, gen, _, rfl⟩ := beginScan_cases h
    rfl
  | syncDir newDirID newFileID payload =>
    obtain ⟨_, t, dirID, _, _, rfl⟩ := syncDir_cases h
    rfl
  | onDirty i =>
    obtain ⟨_, rfl⟩ := onDirty_cases h
    rfl
  | sweep loc =>
    obtain ⟨gen, rfl⟩ := sweep_cases h
    rfl
  | finishScan loc now progress scanErr =>
    obtain ⟨scanID, rfl⟩ := finishScan_cases h
    rfl
  | receiveToken =>
    obtain ⟨_, rfl⟩ := receiveToken_cases h
    rfl
  | dirtyDirs picked =>
    obtain ⟨_, _, rfl⟩ := dirtyDirs_cases h
    rfl
  | send =>
    obtain ⟨c, batch, _, rfl⟩ := send_cases h
    rfl
  | receive w =>
    obtain ⟨c, rest, _, _, rfl⟩ := receive_cases h
    exact List.length_set
  | fail w =>
    obtain ⟨dir, _, rfl⟩ := fail_cases h
    exact List.length_set
  | dirFiles w =>
    obtain ⟨dir, _, rfl⟩ := dirFiles_cases h
    exact List.length_set
  | importDir w =>
    obtain ⟨dir, files, _, rfl⟩ := importDir_cases h
    exact List.length_set
  | clearAttempts w =>
    obtain ⟨dir, _, rfl⟩ := clearAttempts_cases h
    exact List.length_set
  | recordFailure w =>
    obtain ⟨dir, next, attempts, _, _, rfl⟩ := recordFailure_cases h
    exact List.length_set
  | releaseDir w =>
    obtain ⟨x, dir, t, _, _, _, rfl⟩ := releaseDir_cases h
    exact List.length_set
  | releaseAndRedirty w =>
    obtain ⟨dir, t, _, _, rfl⟩ := releaseAndRedirty_cases h
    exact List.length_set
  | releaseError w =>
    obtain ⟨x, dir, _, _, rfl⟩ := releaseError_cases h
    exact List.length_set
  | armRetry w =>
    obtain ⟨_, rfl⟩ := armRetry_cases h
    exact List.length_set
  | skipRetry w =>
    obtain ⟨_, rfl⟩ := skipRetry_cases h
    exact List.length_set
  | timerFires =>
    obtain ⟨_, rfl⟩ := timerFires_cases h
    rfl

/-- The startup sweep and every later one stop at an empty queue only. -/
theorem noLostWakeup_dirtyDirs {picked : List UUID} (some_ : s.workers ≠ [])
    (picks : s.tables.Picks s.workers.length picked)
    (dirs : s'.tables.dirs = (s.tables.dirtyDirs picked).1.dirs)
    (dispatcher : s'.dispatcher = if (s.tables.dirtyDirs picked).2 = [] then .waiting
      else .feeding (s.tables.dirtyDirs picked).2) : s'.NoLostWakeup := by
  rintro ⟨d, hd, ready⟩
  by_cases none_ : (s.tables.dirtyDirs picked).2 = []
  · exfalso
    obtain ⟨_, inQueue, count⟩ := picks
    -- Nothing was claimed, so nothing was picked, so nothing was claimable.
    have nothing : picked = [] := by
      by_contra more
      obtain ⟨id, hid⟩ := List.exists_mem_of_ne_nil _ more
      have lost := List.filterMap_eq_nil_iff.mp none_ id hid
      obtain ⟨row, hrow, same⟩ := List.mem_map.mp (inQueue hid)
      have absent := lookup_eq_none_iff.mp (Option.map_eq_none_iff.mp lost)
      exact absent row (List.mem_filter.mp hrow).1 same
    subst nothing
    have workers := List.length_pos_of_ne_nil some_
    have empty : s.tables.dirs.filter ScanTables.claimable = [] := by
      apply List.length_eq_zero_iff.mp
      simp only [List.length_nil] at count
      omega
    have untouched : (s.tables.dirtyDirs []).1.dirs = s.tables.dirs := by
      simp [ScanTables.dirtyDirs, updateWhere]
    rw [dirs, untouched] at hd
    have listed := List.mem_filter.mpr ⟨hd, ready⟩
    rw [empty] at listed
    cases listed
  · left
    rw [dispatcher, if_neg none_]
    simp

theorem syncDir_claimable {newDirID dirID : UUID} {newFileID : Path → UUID}
    {p : Scan.SyncPayload} {t t' : ScanTables} (clean : p.dirty = false)
    (h : t.syncDir newDirID newFileID p = .ok (t', dirID)) {d : DirRow} (hd : d ∈ t'.dirs)
    (ready : ScanTables.claimable d = true) :
    ∃ d ∈ t.dirs, ScanTables.claimable d = true := by
  rw [ScanTables.syncDir_dirs h] at hd
  rcases mem_upsertOn hd with ⟨rfl, _⟩ | ⟨old, _⟩ | ⟨old, hold, _, rfl⟩
  · simp [ScanTables.claimable, ScanTables.newDir, clean] at ready
  · exact ⟨d, old, ready⟩
  · refine ⟨old, hold, ?_⟩
    simpa [ScanTables.claimable, ScanTables.resyncDir, clean] using ready

theorem step_noLostWakeup_iff {a : Action} (some_ : s.workers ≠ []) (good : s.NoLostWakeup)
    (h : s.step importOf a = some s') : s'.NoLostWakeup ↔ s.Heard a := by
  -- All actions but three leave nothing to be heard.
  have heard : s.leavesClaimable a = [] → s'.NoLostWakeup → (s'.NoLostWakeup ↔ s.Heard a) :=
    fun nothing good' => ⟨fun _ => .inl nothing, fun _ => good'⟩
  cases a with
  | beginScan loc now scanID =>
    obtain ⟨t, gen, began, rfl⟩ := beginScan_cases h
    obtain ⟨_, _, dirs, _⟩ := ScanTables.beginScan_spec began
    have awake : Awake { s with
        tables := t
        scanning := ⟨loc, scanID, gen⟩ :: s.scanning } ↔ s.Awake := Iff.rfl
    refine noLostWakeup_write_iff good dirs awake _ ?_ fun _ free => free
    intro d hit
    simp only [ScanTables.claimable, Option.isNone_none, Bool.and_true, hit]
  | syncDir newDirID newFileID payload =>
    obtain ⟨_, t, dirID, synced, _, rfl⟩ := syncDir_cases h
    refine heard rfl ?_
    cases dirty : payload.dirty with
    | true =>
      intro _
      exact .inr (.inr (.inl (by simp)))
    | false => exact good.of_frame (fun d hd ready => syncDir_claimable dirty synced hd ready) id
  | onDirty i =>
    obtain ⟨_, rfl⟩ := onDirty_cases h
    exact heard rfl fun _ => .inr (.inl rfl)
  | sweep loc =>
    obtain ⟨gen, rfl⟩ := sweep_cases h
    refine heard rfl (good.of_frame ?_ id)
    intro d hd ready
    obtain ⟨old, hold, rfl⟩ := mem_updateWhere.mp hd
    refine ⟨old, hold, ?_⟩
    split at ready
    · exact ready
    · exact ready
  | finishScan loc now progress scanErr =>
    obtain ⟨scanID, rfl⟩ := finishScan_cases h
    exact heard rfl (good.of_dirs rfl id)
  | receiveToken =>
    obtain ⟨_, rfl⟩ := receiveToken_cases h
    exact heard rfl fun _ => .inl (by simp)
  | dirtyDirs picked =>
    obtain ⟨_, picks, rfl⟩ := dirtyDirs_cases h
    exact heard rfl (noLostWakeup_dirtyDirs some_ picks rfl rfl)
  | send =>
    obtain ⟨c, batch, _, rfl⟩ := send_cases h
    refine heard rfl fun _ => .inl ?_
    simp only
    split <;> simp
  | receive w =>
    obtain ⟨c, rest, found, _, rfl⟩ := receive_cases h
    exact heard rfl (good.of_dirs rfl fun up => up.worker found (by simp) rfl rfl rfl rfl rfl)
  | fail w =>
    obtain ⟨dir, found | ⟨files, found⟩, rfl⟩ := fail_cases h
    · exact heard rfl (good.of_dirs rfl fun up => up.worker found (by simp) rfl rfl rfl rfl rfl)
    · exact heard rfl (good.of_dirs rfl fun up => up.worker found (by simp) rfl rfl rfl rfl rfl)
  | dirFiles w =>
    obtain ⟨dir, found, rfl⟩ := dirFiles_cases h
    exact heard rfl (good.of_dirs rfl fun up => up.worker found (by simp) rfl rfl rfl rfl rfl)
  | importDir w =>
    obtain ⟨dir, files, found, rfl⟩ := importDir_cases h
    exact heard rfl (good.of_dirs rfl fun up => up.worker found (by simp) rfl rfl rfl rfl rfl)
  | clearAttempts w =>
    obtain ⟨dir, found, rfl⟩ := clearAttempts_cases h
    exact heard rfl (good.of_dirs rfl fun up => up.worker found (by simp) rfl rfl rfl rfl rfl)
  | recordFailure w =>
    obtain ⟨dir, next, attempts, found, _, rfl⟩ := recordFailure_cases h
    exact heard rfl (good.of_dirs rfl fun up => up.worker found (by simp) rfl rfl rfl rfl rfl)
  | releaseDir w =>
    obtain ⟨x, dir, t, found, releasing, released, rfl⟩ := releaseDir_cases h
    obtain ⟨_, tables⟩ := ScanTables.releaseDir_spec released
    have dirs := congrArg ScanTables.dirs tables
    have busy : x ≠ .redirtied := by
      rcases releasing_cases releasing with rfl | rfl <;> simp
    have awake : Awake { s with workers := s.workers.set w .idle, tables := t } ↔ s.Awake := by
      refine ⟨?_, fun up => up.worker found busy rfl rfl rfl rfl rfl⟩
      rintro (pumping | token | sync | timer | retry)
      · exact .inl pumping
      · exact .inr (.inl token)
      · exact .inr (.inr (.inl sync))
      · exact .inr (.inr (.inr (.inl timer)))
      · rcases mem_setWorker found retry with same | rest
        · cases same
        · exact .inr (.inr (.inr (.inr ((List.eraseIdx_sublist ..).subset rest))))
    have nothing : s.leavesClaimable (.releaseDir w) = s.tables.dirs.filter fun d =>
        ScanTables.lockedBy dir.id dir.lockedGeneration d && d.dirty := by
      simp [leavesClaimable, found, releasing]
    unfold Heard
    rw [nothing]
    refine noLostWakeup_write_iff good dirs awake _ ?_ ?_
    · intro d hit
      simp [ScanTables.claimable, hit]
    · intro d free
      exact (Bool.and_eq_true_iff.mp free).1
  | releaseAndRedirty w =>
    obtain ⟨dir, t, found, _, rfl⟩ := releaseAndRedirty_cases h
    refine heard rfl fun _ => .inr (.inr (.inr (.inr ?_)))
    obtain ⟨inside, _⟩ := List.getElem?_eq_some_iff.mp found
    exact List.mem_set inside _
  | releaseError w =>
    obtain ⟨x, dir, found, had, rfl⟩ := releaseError_cases h
    have busy : x ≠ .redirtied := by
      rintro rfl
      cases had
    exact heard rfl (good.of_dirs rfl fun up => up.worker found busy rfl rfl rfl rfl rfl)
  | armRetry w =>
    obtain ⟨_, rfl⟩ := armRetry_cases h
    exact heard rfl fun _ => .inr (.inr (.inr (.inl (Nat.succ_pos _))))
  | skipRetry w =>
    obtain ⟨_, rfl⟩ := skipRetry_cases h
    constructor
    · intro good'
      by_contra neither
      obtain ⟨more, asleep⟩ := not_or.mp neither
      obtain ⟨d, hd⟩ := List.exists_mem_of_ne_nil _ more
      obtain ⟨member, ready⟩ := List.mem_filter.mp hd
      exact asleep (good' ⟨d, member, ready⟩)
    · rintro (nothing | up)
      · rintro ⟨d, hd, ready⟩
        have listed : d ∈ s.leavesClaimable (.skipRetry w) := List.mem_filter.mpr ⟨hd, ready⟩
        rw [nothing] at listed
        cases listed
      · exact fun _ => up
  | timerFires =>
    obtain ⟨_, rfl⟩ := timerFires_cases h
    exact heard rfl fun _ => .inr (.inl rfl)

/-- A run never loses a wakeup if and only if each step that leaves a dir claimable in
silence is taken while another wake is pending. -/
theorem no_lost_wakeup_iff (importOf : List File → Import) (t : ScanTables)
    (library : UUID → Import) {n : Nat} (some_ : 0 < n) (acts : List Action) :
    Along (step importOf) NoLostWakeup (start t library n) acts ↔
      StepsMeet (step importOf) Heard (start t library n) acts := by
  have workers : (start t library n).workers ≠ [] := by
    apply List.ne_nil_of_length_pos
    simpa [start] using some_
  have good : (start t library n).NoLostWakeup := fun _ => .inl (by simp [start])
  refine along_iff_stepsMeet (I := fun s => s.workers ≠ []) ?_ ?_ workers good
  · intro s a s' some_ _ h
    apply List.ne_nil_of_length_pos
    rw [step_workers_length h]
    exact List.length_pos_of_ne_nil some_
  · exact fun s a s' some_ good h => step_noLostWakeup_iff some_ good h

/-! ### A dir that changes while it is parsed -/

/-- Each wake arrives while the dispatcher can use it. -/
def parseTwice : List Action :=
  claimAndSend 0 ++ .dirtyDirs [] :: parseAndRelease 0 ++ scanOfChange ++ .receiveToken ::
    claimAndSend 1 ++ .dirtyDirs [] :: parseAndRelease 1 ++
      [.finishScan 1 9 ⟨0, 0, 0, 0⟩ none]

theorem parseTwice_heard : Along (step id) NoLostWakeup twoWorkers parseTwice :=
  (no_lost_wakeup_iff id oneDirty (fun _ => []) (by decide) parseTwice).mpr (by decide)

/-- The scan syncs the dir between its claim and its release. The token makes the
dispatcher look while the dir is locked, and nothing wakes it after the release. -/
def changedDuringParse : List Action :=
  scanOfChange.take 1 ++ claimAndSend 0 ++ .dirtyDirs [] :: .dirFiles 0 :: scanOfChange.drop 1 ++
    [.receiveToken, .dirtyDirs [], .importDir 0, .clearAttempts 0, .releaseDir 0,
      .finishScan 1 9 ⟨0, 0, 0, 0⟩ none]

theorem changedDuringParse_asleep :
    ¬ ∀ (t : ScanTables) (library : UUID → List File) (n : Nat) (acts : List Action),
      t.WellFormed → 0 < n → Along (step id) NoLostWakeup (start t library n) acts := by
  intro noLoss
  have run := noLoss oneDirty (fun _ => []) 2 changedDuringParse oneDirty_wellFormed (by decide)
  exact absurd run (by decide)

end Byom.Metadata.Pipeline
