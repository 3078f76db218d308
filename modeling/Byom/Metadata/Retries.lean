import Byom.Metadata.RetryTally

/-!
# The phases of a dir that is parsed again and again

From its first claim at a generation on, a dir is out with one claim, waits in the queue,
or is done with. `Phase` says what its row and the counts are in each case, and every
step keeps it or leads to the next phase.
-/

namespace Byom.Metadata

open Storage Relational Sqlite Transition

namespace PipelineRun

variable {Import : Type} {s s' : PipelineRun Import} {importOf : List File → Import}
  {w : Nat} {x y : Worker} {dirID : UUID} {gen : Int} {p p' : Pipeline Import} {T : Tally}
  {row row' : DirRow} {c : ClaimedDir}

/-- No worker has a claim on the dir at the generation. -/
def NoWorker (dirID : UUID) (gen : Int) (p : Pipeline Import) : Prop :=
  ∀ (w : Nat) (x : Worker) (c : ClaimedDir), p.workers[w]? = some x → x.claim = some c →
    ¬ c.On dirID gen

/-- No such claim is queued. -/
def NoneQueued (dirID : UUID) (gen : Int) (p : Pipeline Import) : Prop :=
  ∀ c ∈ queued p, ¬ c.On dirID gen

/-- Where the one claim at the generation is: queued (or lost), or with a worker. -/
inductive Place (dirID : UUID) (gen : Int) (p : Pipeline Import) (T : Tally) : Prop where
  | queued (free : NoWorker dirID gen p) (one : (queued p).countP (fun c => c.On dirID gen) ≤ 1)
      (stage : T.Open)
  | worker (w : Nat) (x : Worker) (c : ClaimedDir) (found : p.workers[w]? = some x)
      (claim : x.claim = some c) (own : c.On dirID gen)
      (only : ∀ (w' : Nat) (x' : Worker) (c' : ClaimedDir), p.workers[w']? = some x' →
        x'.claim = some c' → c'.On dirID gen → w' = w)
      (empty : NoneQueued dirID gen p) (stage : x.Stage T)

inductive Phase (dirID : UUID) (gen : Int) (p : Pipeline Import) (T : Tally) (row : DirRow) :
    Prop where
  | out (locked : row.lockedGeneration = some gen) (clean : row.dirty = false)
      (place : Place dirID gen p T)
  | waiting (unlocked : row.lockedGeneration = none) (dirty : row.dirty = true)
      (free : NoWorker dirID gen p) (empty : NoneQueued dirID gen p) (counts : T.Waiting)
  | ended (unlocked : row.lockedGeneration = none) (clean : row.dirty = false)
      (free : NoWorker dirID gen p) (empty : NoneQueued dirID gen p) (counts : T.Parsed ∨ T.Exhausted)

/-- The dir keeps its generation, and is in a phase. -/
def Retrying (dirID : UUID) (gen : Int) (s : PipelineRun Import) : Prop :=
  ∃ row ∈ s.pipeline.tables.dirs, row.id = dirID ∧ row.seenGeneration = gen ∧
    Phase dirID gen s.pipeline (s.tally dirID gen) row

/-! ### Steps that have nothing to do with the dir -/

/-- The same dir: the columns that phases read. -/
structure SameDir (row row' : DirRow) : Prop where
  id : row'.id = row.id
  seen : row'.seenGeneration = row.seenGeneration
  locked : row'.lockedGeneration = row.lockedGeneration
  dirty : row'.dirty = row.dirty

theorem SameDir.refl (row : DirRow) : SameDir row row := ⟨rfl, rfl, rfl, rfl⟩

theorem Phase.of_sameDir (phase : Phase dirID gen p T row) (same : SameDir row row') :
    Phase dirID gen p T row' := by
  cases phase with
  | out locked clean place =>
    exact .out (same.locked.trans locked) (same.dirty.trans clean) place
  | waiting unlocked dirty free empty counts =>
    exact .waiting (same.locked.trans unlocked) (same.dirty.trans dirty) free empty counts
  | ended unlocked clean free empty counts =>
    exact .ended (same.locked.trans unlocked) (same.dirty.trans clean) free empty counts

/-- The claims on the dir are where they were. -/
structure SameClaims (dirID : UUID) (gen : Int) (p p' : Pipeline Import) : Prop where
  forth : ∀ (w : Nat) (x : Worker) (c : ClaimedDir), p.workers[w]? = some x →
    x.claim = some c → c.On dirID gen → p'.workers[w]? = some x
  back : ∀ (w : Nat) (x : Worker) (c : ClaimedDir), p'.workers[w]? = some x →
    x.claim = some c → c.On dirID gen → ∃ x' : Worker, p.workers[w]? = some x' ∧ x'.claim = some c
  queue : (queued p').filter (fun c => c.On dirID gen) = (queued p).filter fun c => c.On dirID gen

theorem SameClaims.noWorker (same : SameClaims dirID gen p p') (free : NoWorker dirID gen p) :
    NoWorker dirID gen p' := by
  intro w x c found claim ofDir
  obtain ⟨x', found', claim'⟩ := same.back w x c found claim ofDir
  exact free w x' c found' claim' ofDir

theorem noneQueued_iff : NoneQueued dirID gen p ↔ (queued p).filter (fun c => c.On dirID gen) = [] := by
  simp [NoneQueued, List.filter_eq_nil_iff]

theorem SameClaims.noneQueued (same : SameClaims dirID gen p p') (empty : NoneQueued dirID gen p) :
    NoneQueued dirID gen p' := by
  rw [noneQueued_iff, same.queue]
  exact noneQueued_iff.mp empty

theorem Phase.of_sameClaims (phase : Phase dirID gen p T row) (same : SameClaims dirID gen p p') :
    Phase dirID gen p' T row := by
  cases phase with
  | out locked clean place =>
    apply Phase.out locked clean
    cases place with
    | queued free one stage =>
      refine .queued (same.noWorker free) ?_ stage
      rw [List.countP_eq_length_filter, same.queue, ← List.countP_eq_length_filter]
      exact one
    | worker w x c found claim own only empty stage =>
      refine .worker w x c (same.forth w x c found claim own) claim own ?_
        (same.noneQueued empty) stage
      intro w' x' c' found' claim' ofDir'
      obtain ⟨x'', found'', claim''⟩ := same.back w' x' c' found' claim' ofDir'
      exact only w' x'' c' found'' claim'' ofDir'
  | waiting unlocked dirty free empty counts =>
    exact .waiting unlocked dirty (same.noWorker free) (same.noneQueued empty) counts
  | ended unlocked clean free empty counts =>
    exact .ended unlocked clean (same.noWorker free) (same.noneQueued empty) counts

theorem SameClaims.of_eq (workers : p'.workers = p.workers)
    (queue : (queued p').filter (fun c => c.On dirID gen) =
      (queued p).filter fun c => c.On dirID gen) : SameClaims dirID gen p p' :=
  ⟨fun _ _ _ found _ _ => workers ▸ found, fun _ x _ found claim _ => ⟨x, workers ▸ found, claim⟩,
    queue⟩

/-- A worker that has no claim on the dir takes a step. -/
theorem SameClaims.of_set (found : p.workers[w]? = some x)
    (other : ∀ c, x.claim = some c → ¬ c.On dirID gen)
    (fewer : ∀ c, y.claim = some c → x.claim = some c)
    (workers : p'.workers = p.workers.set w y) (queue : queued p' = queued p) :
    SameClaims dirID gen p p' := by
  refine ⟨?_, ?_, by rw [queue]⟩
  · intro v z c at_ claim ofDir
    have apart : v ≠ w := by
      rintro rfl
      rw [found] at at_
      cases at_
      exact other c claim ofDir
    rw [workers, List.getElem?_set_ne apart.symm]
    exact at_
  · intro v z c at_ claim ofDir
    rw [workers] at at_
    rcases Transition.getElem?_set_cases at_ with ⟨rfl, rfl⟩ | ⟨_, old⟩
    · exact absurd ofDir (other c (fewer c claim))
    · exact ⟨z, old, claim⟩

/-- If the row is locked, it is so for the generation. -/
theorem Phase.locked (phase : Phase dirID gen p T row) : ∀ g ∈ row.lockedGeneration, g = gen := by
  intro g held
  cases phase with
  | out locked =>
    rw [locked] at held
    exact (Option.mem_some.mp held).symm
  | waiting unlocked =>
    rw [unlocked] at held
    cases held
  | ended unlocked =>
    rw [unlocked] at held
    cases held

/-- A step after which the row, the counts and the claims of the dir are the same. -/
theorem Retrying.frame (retrying : Retrying dirID gen s)
    (rows : ∀ row ∈ s.pipeline.tables.dirs, row.id = dirID →
      (∀ g ∈ row.lockedGeneration, g = gen) → ∃ row' ∈ s'.pipeline.tables.dirs, SameDir row row')
    (tally : s'.tally dirID gen = s.tally dirID gen)
    (claims : SameClaims dirID gen s.pipeline s'.pipeline) : Retrying dirID gen s' := by
  obtain ⟨row, hrow, id, seen, phase⟩ := retrying
  obtain ⟨row', hrow', same⟩ := rows row hrow id phase.locked
  refine ⟨row', hrow', same.id.trans id, same.seen.trans seen, ?_⟩
  rw [tally]
  exact (phase.of_sameClaims claims).of_sameDir same

theorem tally_of_eq (history : s'.history = s.history)
    (attempts : (s'.pipeline.attempts dirID).at gen = (s.pipeline.attempts dirID).at gen) :
    s'.tally dirID gen = s.tally dirID gen := by
  unfold tally
  rw [history, attempts]

theorem mem_updateWhere_of_miss {q : DirRow → Bool} {set : DirRow → DirRow} {rows : List DirRow}
    (hrow : row ∈ rows) (miss : q row = false) : row ∈ updateWhere q set rows :=
  mem_updateWhere.mpr ⟨row, hrow, by simp [miss]⟩

/-- What `recordFailure` counts, and where it leads. -/
theorem recordFailure_counts (h : p.recordFailure w = some p') :
    ∃ dir, p.workers[w]? = some (.failed dir) ∧
      p' = { p with
        workers := p.workers.set w
          (if maxParseAttempts ≤ (Pipeline.countFailure dir (p.attempts dir.id)).failures then
            .givingUp dir else .redirtying dir)
        attempts := Function.update p.attempts dir.id
          (Pipeline.countFailure dir (p.attempts dir.id)) } := by
  unfold Pipeline.recordFailure at h
  split at h
  · rename_i dir found
    cases h
    exact ⟨dir, found, rfl⟩
  · cases h

/-- What counts for another generation of the dir while some failures at this one are
counted: the count at this one is lost. -/
def losesCount (dirID : UUID) (gen : Int) (p : Pipeline Import) : Action → Prop
  | .clearAttempts w | .recordFailure w => 0 < (p.attempts dirID).at gen ∧
    ∃ x ∈ p.workers[w]?, ∃ c ∈ x.claim, c.id = dirID ∧ c.lockedGeneration ≠ gen
  | _ => False

/-- Clearing the counts, or counting a failure, of another dir or another generation. -/
theorem at_update_other {p : Pipeline Import} {counts : ParseAttempts} (other : ¬ c.On dirID gen)
    (loses : ¬ (0 < (p.attempts dirID).at gen ∧ c.id = dirID ∧ c.lockedGeneration ≠ gen))
    (elsewhere : c.lockedGeneration ≠ gen → counts.at gen = 0) :
    (Function.update p.attempts c.id counts dirID).at gen = (p.attempts dirID).at gen := by
  by_cases ofDir : c.id = dirID
  · have older : c.lockedGeneration ≠ gen := fun ofGen => other ⟨ofDir, ofGen⟩
    have none_ : (p.attempts dirID).at gen = 0 := by
      by_contra some_
      exact loses ⟨Nat.pos_of_ne_zero some_, ofDir, older⟩
    rw [none_, ← ofDir, Function.update_self]
    exact elsewhere older
  · rw [Function.update_of_ne (Ne.symm ofDir)]

/-- Only these two actions write the counts. -/
theorem step_attempts {a : Action} (h : p.step importOf a = some p')
    (silent : ∀ w, a ≠ .clearAttempts w ∧ a ≠ .recordFailure w) : p'.attempts = p.attempts := by
  cases acts : a.worker with
  | some w =>
    cases a with
    | clearAttempts v => exact absurd rfl (silent v).1
    | recordFailure v => exact absurd rfl (silent v).2
    | fail v =>
      obtain ⟨dir, _, rfl⟩ := Pipeline.fail_cases h
      rfl
    | dirFiles v =>
      obtain ⟨dir, _, rfl⟩ := Pipeline.dirFiles_cases h
      rfl
    | importDir v =>
      obtain ⟨dir, files, _, rfl⟩ := Pipeline.importDir_cases h
      rfl
    | releaseDir v =>
      obtain ⟨x, dir, t, _, _, _, rfl⟩ := Pipeline.releaseDir_cases h
      rfl
    | releaseAndRedirty v =>
      obtain ⟨dir, t, _, _, rfl⟩ := Pipeline.releaseAndRedirty_cases h
      rfl
    | releaseError v =>
      obtain ⟨x, dir, _, _, rfl⟩ := Pipeline.releaseError_cases h
      rfl
    | armRetry v =>
      obtain ⟨_, rfl⟩ := Pipeline.armRetry_cases h
      rfl
    | skipRetry v =>
      obtain ⟨_, rfl⟩ := Pipeline.skipRetry_cases h
      rfl
    | _ => cases acts
  | none =>
    by_cases aside : a.aside = true
    · exact (Pipeline.step_aside h aside).2.2
    · cases a with
      | dirtyDirs picked =>
        obtain ⟨_, _, rfl⟩ := Pipeline.dirtyDirs_cases h
        rfl
      | send =>
        obtain ⟨c, batch, _, rfl⟩ := Pipeline.send_cases h
        rfl
      | receive w =>
        obtain ⟨c, rest, _, _, rfl⟩ := Pipeline.receive_cases h
        rfl
      | _ => first | exact absurd rfl aside | cases acts

/-- A step for another claim that loses no count keeps the count of this one. -/
theorem step_at_other {a : Action} (h : p.step importOf a = some p') (acts : a.worker = some w)
    (found : p.workers[w]? = some x) (other : ∀ c, x.claim = some c → ¬ c.On dirID gen)
    (loses : ¬ losesCount dirID gen p a) :
    (p'.attempts dirID).at gen = (p.attempts dirID).at gen := by
  by_cases silent : ∀ w, a ≠ .clearAttempts w ∧ a ≠ .recordFailure w
  · rw [step_attempts h silent]
  · cases a with
    | clearAttempts v =>
      cases acts
      obtain ⟨dir, here, rfl⟩ := Pipeline.clearAttempts_cases h
      rw [found] at here
      cases here
      refine at_update_other (other dir rfl) ?_ fun _ => ?_
      · exact fun lost => loses ⟨lost.1, _, found, dir, rfl, lost.2⟩
      · simp [ParseAttempts.at]
    | recordFailure v =>
      cases acts
      obtain ⟨dir, here, rfl⟩ := recordFailure_counts h
      rw [found] at here
      cases here
      refine at_update_other (other dir rfl) ?_ fun older => ?_
      · exact fun lost => loses ⟨lost.1, _, found, dir, rfl, lost.2⟩
      · unfold ParseAttempts.at
        rw [countFailure_generation, if_neg older]
    | _ => simp at silent

/-- A step for another claim leaves the row alone, unless the row is locked for that claim. -/
theorem step_row_other {a : Action} (h : p.step importOf a = some p') (acts : a.worker = some w)
    (found : p.workers[w]? = some x) (other : ∀ c, x.claim = some c → ¬ c.On dirID gen)
    (hrow : row ∈ p.tables.dirs) (ofDir : row.id = dirID)
    (locked : ∀ g ∈ row.lockedGeneration, g = gen) : row ∈ p'.tables.dirs := by
  have unlocked : ∀ {c : ClaimedDir}, x.claim = some c →
      ScanTables.lockedBy c.id c.lockedGeneration row = false := by
    intro c claim
    by_contra hit
    simp only [ScanTables.lockedBy, Bool.not_eq_false, decide_eq_true_eq] at hit
    exact other c claim ⟨hit.1.symm.trans ofDir, locked _ hit.2⟩
  cases a with
  | releaseDir v =>
    cases acts
    obtain ⟨z, dir, t, here, releasing, released, rfl⟩ := Pipeline.releaseDir_cases h
    obtain ⟨_, rfl⟩ := ScanTables.releaseDir_spec released
    rw [found] at here
    cases here
    have claim : x.claim = some dir := by
      rcases Pipeline.releasing_cases releasing with rfl | rfl <;> rfl
    exact mem_updateWhere_of_miss hrow (unlocked claim)
  | releaseAndRedirty v =>
    cases acts
    obtain ⟨dir, t, here, released, rfl⟩ := Pipeline.releaseAndRedirty_cases h
    obtain ⟨_, rfl⟩ := ScanTables.releaseAndRedirty_spec released
    rw [found] at here
    cases here
    exact mem_updateWhere_of_miss hrow (unlocked rfl)
  | fail v =>
    obtain ⟨dir, _, rfl⟩ := Pipeline.fail_cases h
    exact hrow
  | dirFiles v =>
    obtain ⟨dir, _, rfl⟩ := Pipeline.dirFiles_cases h
    exact hrow
  | importDir v =>
    obtain ⟨dir, files, _, rfl⟩ := Pipeline.importDir_cases h
    exact hrow
  | clearAttempts v =>
    obtain ⟨dir, _, rfl⟩ := Pipeline.clearAttempts_cases h
    exact hrow
  | recordFailure v =>
    obtain ⟨dir, _, rfl⟩ := recordFailure_counts h
    exact hrow
  | releaseError v =>
    obtain ⟨z, dir, _, _, rfl⟩ := Pipeline.releaseError_cases h
    exact hrow
  | armRetry v =>
    obtain ⟨_, rfl⟩ := Pipeline.armRetry_cases h
    exact hrow
  | skipRetry v =>
    obtain ⟨_, rfl⟩ := Pipeline.skipRetry_cases h
    exact hrow
  | _ => cases acts

/-! ### Steps of the worker that has the claim -/

theorem Phase.holder (phase : Phase dirID gen p T row) (found : p.workers[w]? = some x)
    (claim : x.claim = some c) (own : c.On dirID gen) :
    row.lockedGeneration = some gen ∧ row.dirty = false ∧
      NoneQueued dirID gen p ∧ x.Stage T ∧ ∀ (w' : Nat) (x' : Worker) (c' : ClaimedDir),
        p.workers[w']? = some x' → x'.claim = some c' → c'.On dirID gen → w' = w := by
  cases phase with
  | out locked clean place =>
    cases place with
    | queued free => exact absurd own (free w x c found claim)
    | worker v z d at_ _ _ only empty stage =>
      obtain rfl := only w x c found claim own
      rw [found] at at_
      cases at_
      exact ⟨locked, clean, empty, stage, only⟩
  | waiting _ _ free => exact absurd own (free w x c found claim)
  | ended _ _ free => exact absurd own (free w x c found claim)

/-- It keeps the claim. -/
theorem Phase.advance {T' : Tally} (phase : Phase dirID gen p T row)
    (found : p.workers[w]? = some x) (claim : x.claim = some c) (own : c.On dirID gen)
    (workers : p'.workers = p.workers.set w y) (queue : queued p' = queued p)
    (keeps : y.claim = some c) (stage : y.Stage T') : Phase dirID gen p' T' row := by
  obtain ⟨locked, clean, empty, _, only⟩ := phase.holder found claim own
  have bound : w < p.workers.length := (List.getElem?_eq_some_iff.mp found).1
  refine .out locked clean (.worker w y c ?_ keeps own ?_ ?_ stage)
  · rw [workers, List.getElem?_set_self bound]
  · intro v z d at_ has own'
    rw [workers] at at_
    rcases Transition.getElem?_set_cases at_ with ⟨rfl, rfl⟩ | ⟨_, old⟩
    · rfl
    · exact only v z d old has own'
  · unfold NoneQueued
    rw [queue]
    exact empty

/-- It gives the claim up, and then nobody has one. -/
theorem Phase.leave (phase : Phase dirID gen p T row) (found : p.workers[w]? = some x)
    (claim : x.claim = some c) (own : c.On dirID gen)
    (workers : p'.workers = p.workers.set w y) (queue : queued p' = queued p)
    (gone : y.claim = none) : NoWorker dirID gen p' ∧ NoneQueued dirID gen p' := by
  obtain ⟨_, _, empty, _, only⟩ := phase.holder found claim own
  refine ⟨?_, ?_⟩
  · intro v z d at_ has own'
    rw [workers] at at_
    rcases Transition.getElem?_set_cases at_ with ⟨rfl, rfl⟩ | ⟨other, old⟩
    · rw [gone] at has
      cases has
    · exact other (only v z d old has own')
  · unfold NoneQueued
    rw [queue]
    exact empty

/-- The worker's attempt gets its outcome. -/
theorem Retrying.close (retrying : Retrying dirID gen s) (rec : s.Recorded)
    (found : s.pipeline.workers[w]? = some x) (claim : x.claim = some c) (own : c.On dirID gen)
    (undecided : ∀ o, x.Tells o → o = none) (open_ : ∀ T, x.Stage T → T.Open) {decided : Outcome}
    (workers : s'.pipeline.workers = s.pipeline.workers.set w y)
    (queue : queued s'.pipeline = queued s.pipeline)
    (history : s'.history = (s.close w decided).history)
    (attempts : s'.pipeline.attempts = s.pipeline.attempts)
    (dirs : s'.pipeline.tables.dirs = s.pipeline.tables.dirs) (keeps : y.claim = some c)
    (stage : ∀ T : Tally, T.Open → y.Stage (T.close decided)) : Retrying dirID gen s' := by
  obtain ⟨row, hrow, id, seen, phase⟩ := retrying
  obtain ⟨_, _, _, before, _⟩ := phase.holder found claim own
  obtain ⟨o, entry, tells⟩ := rec.working w x c found claim
  obtain rfl := undecided o tells
  have here : (⟨c, none⟩ : Attempt).of dirID gen = true := decide_eq_true own
  refine ⟨row, dirs ▸ hrow, id, seen, ?_⟩
  rw [tally_close entry here decided history (by rw [attempts])]
  exact phase.advance found claim own workers queue keeps (stage _ (open_ _ before))

theorem failing_of_open {T : Tally} (h : T.Open) {decided : Outcome}
    (failure : decided ≠ .succeeded) : (T.close decided).Failing := by
  have claims := h.claims
  have failures := h.failures
  have counted := h.counted
  constructor <;> simp only [Tally.close, failure, if_false]
  · exact h.successes
  · exact claims
  · exact failures
  · omega

theorem parsed_of_open {T : Tally} (h : T.Open) : (T.close .succeeded).Parsed := by
  have claims := h.claims
  have failures := h.failures
  constructor <;> simp only [Tally.close, if_true]
  · exact Nat.succ_pos _
  · omega

/-- The failure is recorded: the dir is given up on, or tried again. -/
theorem stage_recorded {T : Tally} (h : T.Failing) (dir : ClaimedDir) (enough : Bool)
    (decides : enough = true ↔ maxParseAttempts ≤ T.counted + 1) :
    (if enough then Worker.givingUp dir else Worker.redirtying dir).Stage
      { T with counted := T.counted + 1 } := by
  have claims := h.claims
  have failures := h.failures
  have counted := h.counted
  cases enough with
  | true =>
    have most := decides.mp rfl
    refine ⟨h.successes, claims, ?_⟩
    simp only
    omega
  | false =>
    have fewer : ¬ maxParseAttempts ≤ T.counted + 1 := fun most => by
      have := decides.mpr most
      cases this
    refine ⟨h.successes, claims, ?_, counted⟩
    simp only
    omega

theorem Retrying.recordFailure (retrying : Retrying dirID gen s) {dir : ClaimedDir}
    (found : s.pipeline.workers[w]? = some (.failed dir)) (own : dir.On dirID gen)
    (h : s.pipeline.recordFailure w = some p) : Retrying dirID gen { s with pipeline := p } := by
  obtain ⟨dir', here, rfl⟩ := recordFailure_counts h
  rw [found] at here
  cases here
  obtain ⟨row, hrow, id, seen, phase⟩ := retrying
  obtain ⟨_, _, _, before, _⟩ := phase.holder found rfl own
  obtain ⟨one, exact_⟩ := countFailure_at dir (s.pipeline.attempts dir.id)
  obtain ⟨ofDir, ofGen⟩ := own
  rw [ofDir, ofGen] at one exact_
  refine ⟨row, hrow, id, seen, ?_⟩
  have stage := stage_recorded before dir
    (decide (maxParseAttempts ≤ (Pipeline.countFailure dir (s.pipeline.attempts dir.id)).failures))
    (by rw [decide_eq_true_iff, ofDir, exact_, one]; rfl)
  have tally : PipelineRun.tally { s with pipeline := { s.pipeline with
      workers := s.pipeline.workers.set w
        (if maxParseAttempts ≤ (Pipeline.countFailure dir (s.pipeline.attempts dir.id)).failures
          then .givingUp dir else .redirtying dir)
      attempts := Function.update s.pipeline.attempts dir.id
        (Pipeline.countFailure dir (s.pipeline.attempts dir.id)) } } dirID gen =
      { s.tally dirID gen with counted := (s.tally dirID gen).counted + 1 } := by
    unfold PipelineRun.tally
    simp only [← ofDir, Function.update_self, Tally.mk.injEq, true_and]
    rw [ofDir]
    exact one
  rw [tally]
  refine phase.advance found rfl ⟨ofDir, ofGen⟩ rfl rfl ?_ ?_
  · split <;> rfl
  · simpa only [decide_eq_true_iff] using stage

theorem Retrying.clearAttempts (retrying : Retrying dirID gen s) {dir : ClaimedDir}
    (found : s.pipeline.workers[w]? = some (.imported dir)) (own : dir.On dirID gen)
    (h : s.pipeline.clearAttempts w = some p) : Retrying dirID gen { s with pipeline := p } := by
  obtain ⟨dir', here, rfl⟩ := Pipeline.clearAttempts_cases h
  rw [found] at here
  cases here
  obtain ⟨row, hrow, id, seen, phase⟩ := retrying
  obtain ⟨_, _, _, before, _⟩ := phase.holder found rfl own
  have parsed : (s.tally dirID gen).Parsed := before
  refine ⟨row, hrow, id, seen, ?_⟩
  exact phase.advance found rfl own rfl rfl rfl ⟨parsed.successes, parsed.claims⟩

/-- After its release call the dir is unlocked, and dirty if it is to be tried again. -/
theorem Retrying.release (retrying : Retrying dirID gen s)
    (found : s.pipeline.workers[w]? = some x) (claim : x.claim = some c) (own : c.On dirID gen)
    (set : DirRow → DirRow) (ident : ∀ r, (set r).id = r.id ∧
      (set r).seenGeneration = r.seenGeneration ∧ (set r).lockedGeneration = none)
    (workers : s'.pipeline.workers = s.pipeline.workers.set w y)
    (queue : queued s'.pipeline = queued s.pipeline) (gone : y.claim = none)
    (tally : s'.tally dirID gen = s.tally dirID gen)
    (dirs : s'.pipeline.tables.dirs =
      updateWhere (ScanTables.lockedBy c.id c.lockedGeneration) set s.pipeline.tables.dirs)
    (after : ∀ (T : Tally) (r : DirRow), x.Stage T → r.dirty = false →
      ((set r).dirty = true ∧ T.Waiting) ∨ ((set r).dirty = false ∧ (T.Parsed ∨ T.Exhausted))) :
    Retrying dirID gen s' := by
  obtain ⟨row, hrow, id, seen, phase⟩ := retrying
  obtain ⟨locked, clean, _, stage, _⟩ := phase.holder found claim own
  obtain ⟨free, empty⟩ := phase.leave found claim own workers queue gone
  have hit : ScanTables.lockedBy c.id c.lockedGeneration row = true := by
    simp [ScanTables.lockedBy, locked, own.2, id, own.1]
  obtain ⟨sameID, sameSeen, unlocked⟩ := ident row
  refine ⟨set row, ?_, sameID.trans id, sameSeen.trans seen, ?_⟩
  · rw [dirs]
    exact mem_updateWhere.mpr ⟨row, hrow, by rw [if_pos hit]⟩
  · rw [tally]
    rcases after _ row stage clean with ⟨dirty, counts⟩ | ⟨clean', counts⟩
    · exact .waiting unlocked dirty free empty counts
    · exact .ended unlocked clean' free empty counts

/-- A release call that fails for a claim on the dir at the generation. -/
def failsRelease (dirID : UUID) (gen : Int) (s : PipelineRun Import) : Action → Prop
  | .releaseError w => ∃ x ∈ s.pipeline.workers[w]?, ∃ c ∈ x.claim, c.On dirID gen
  | _ => False

theorem Retrying.worker (retrying : Retrying dirID gen s) (rec : s.Recorded) {a : Action}
    (taken : s.pipeline.step importOf a = some p) (acts : a.worker = some w)
    (succeeds : ¬ failsRelease dirID gen s a) (loses : ¬ losesCount dirID gen s.pipeline a) :
    Retrying dirID gen { s.note a with pipeline := p } := by
  obtain ⟨x, y, found, workers, queue, goes⟩ := Pipeline.step_worker taken acts
  by_cases holder : ∃ c, x.claim = some c ∧ c.On dirID gen
  · obtain ⟨c, claim, own⟩ := holder
    cases a with
    | fail v =>
      cases acts
      obtain ⟨dir, here | ⟨files, here⟩, rfl⟩ := Pipeline.fail_cases taken
      · rw [found] at here
        cases here
        exact retrying.close rec found claim own (fun _ => id) (fun _ => id) rfl rfl rfl rfl rfl
          claim fun _ open_ => failing_of_open open_ nofun
      · rw [found] at here
        cases here
        exact retrying.close rec found claim own (fun _ => id) (fun _ => id) rfl rfl rfl rfl rfl
          claim fun _ open_ => failing_of_open open_ nofun
    | dirFiles v =>
      cases acts
      obtain ⟨dir, here, rfl⟩ := Pipeline.dirFiles_cases taken
      rw [found] at here
      cases here
      obtain ⟨row, hrow, id, seen, phase⟩ := retrying
      obtain ⟨_, _, _, before, _⟩ := phase.holder found claim own
      exact ⟨row, hrow, id, seen, phase.advance found claim own rfl rfl claim before⟩
    | importDir v =>
      cases acts
      obtain ⟨dir, files, here, rfl⟩ := Pipeline.importDir_cases taken
      rw [found] at here
      cases here
      exact retrying.close rec found claim own (fun _ => id) (fun _ => id) rfl rfl rfl rfl rfl
        claim fun _ open_ => parsed_of_open open_
    | clearAttempts v =>
      cases acts
      obtain ⟨dir, here, _⟩ := Pipeline.clearAttempts_cases taken
      rw [found] at here
      cases here
      cases claim
      exact retrying.clearAttempts found own taken
    | recordFailure v =>
      cases acts
      obtain ⟨dir, here, _⟩ := recordFailure_counts taken
      rw [found] at here
      cases here
      cases claim
      exact retrying.recordFailure found own taken
    | releaseDir v =>
      cases acts
      obtain ⟨z, dir, t, here, releasing, released, rfl⟩ := Pipeline.releaseDir_cases taken
      obtain ⟨_, rfl⟩ := ScanTables.releaseDir_spec released
      rw [found] at here
      cases here
      have releases : x.claim = some dir := by
        rcases Pipeline.releasing_cases releasing with rfl | rfl <;> rfl
      refine retrying.release found releases ?_ (fun r => { r with lockedGeneration := none })
        (fun _ => ⟨rfl, rfl, rfl⟩) rfl rfl rfl rfl rfl ?_
      · rw [claim] at releases
        cases releases
        exact own
      · intro T r stage clean
        refine .inr ⟨clean, ?_⟩
        rcases Pipeline.releasing_cases releasing with rfl | rfl
        · exact .inl stage
        · exact .inr stage
    | releaseAndRedirty v =>
      cases acts
      obtain ⟨dir, t, here, released, rfl⟩ := Pipeline.releaseAndRedirty_cases taken
      obtain ⟨_, rfl⟩ := ScanTables.releaseAndRedirty_spec released
      rw [found] at here
      cases here
      cases claim
      exact retrying.release found rfl own
        (fun r => { r with lockedGeneration := none, dirty := true }) (fun _ => ⟨rfl, rfl, rfl⟩)
        rfl rfl rfl rfl rfl fun _ _ stage _ => .inl ⟨rfl, stage⟩
    | releaseError v =>
      cases acts
      exact absurd ⟨x, found, c, claim, own⟩ succeeds
    | armRetry v =>
      cases acts
      obtain ⟨here, _⟩ := Pipeline.armRetry_cases taken
      rw [found] at here
      cases here
      cases claim
    | skipRetry v =>
      cases acts
      obtain ⟨here, _⟩ := Pipeline.skipRetry_cases taken
      rw [found] at here
      cases here
      cases claim
    | _ => cases acts
  · have other : ∀ c, x.claim = some c → ¬ c.On dirID gen := fun c claim own =>
      holder ⟨c, claim, own⟩
    have attempts := step_at_other taken acts found other loses
    refine retrying.frame ?_ ?_ ?_
    · intro row hrow ofDir locked
      exact ⟨row, step_row_other taken acts found other hrow ofDir locked, .refl row⟩
    · cases decides : a.outcome with
      | none =>
        refine tally_of_eq ?_ attempts
        cases a <;> cases acts <;> first | rfl | cases decides
      | some decided =>
        obtain ⟨c, claim⟩ := Option.isSome_iff_exists.mp (goes.deciding (by rw [decides]; rfl))
        obtain ⟨o, entry, _⟩ := rec.working w x c found claim
        refine tally_close_other entry ?_ decided ?_ attempts
        · exact decide_eq_false (other c claim)
        · cases a <;> cases acts <;> cases decides <;> rfl
    · have same : SameClaims dirID gen s.pipeline p :=
        .of_set found other (fun c => goes.claim c) workers queue.queued
      exact same

/-- An idle worker gets a claim. -/
theorem Phase.receive (phase : Phase dirID gen p T row) (idle : p.workers[w]? = some .idle)
    (workers : p'.workers = p.workers.set w (.claimed c))
    (queue : queued p = c :: queued p') : Phase dirID gen p' T row := by
  have bound : w < p.workers.length := (List.getElem?_eq_some_iff.mp idle).1
  by_cases own : c.On dirID gen
  · have waiting : ¬ NoneQueued dirID gen p := fun empty => empty c (by simp [queue]) own
    cases phase with
    | out locked clean place =>
      cases place with
      | queued free one stage =>
        rw [queue] at one
        have rest : NoneQueued dirID gen p' := by
          simp only [List.countP_cons, own, decide_true, if_true] at one
          have none_ : (PipelineRun.queued p').countP (fun c => c.On dirID gen) = 0 := by omega
          intro d hd same
          have := List.countP_eq_zero.mp none_ d hd
          simp [same] at this
        refine .out locked clean (.worker w (.claimed c) c ?_ rfl own ?_ rest stage)
        · rw [workers, List.getElem?_set_self bound]
        · intro v z d at_ claim own'
          rw [workers] at at_
          rcases Transition.getElem?_set_cases at_ with ⟨rfl, rfl⟩ | ⟨_, old⟩
          · rfl
          · exact absurd own' (free v z d old claim)
      | worker v z d at_ claim own only empty stage => exact absurd empty waiting
    | waiting _ _ _ empty => exact absurd empty waiting
    | ended _ _ _ empty => exact absurd empty waiting
  · apply phase.of_sameClaims
    refine ⟨?_, ?_, ?_⟩
    · intro v z d at_ claim _
      have apart : v ≠ w := by
        rintro rfl
        rw [idle] at at_
        cases at_
        cases claim
      rw [workers, List.getElem?_set_ne apart.symm]
      exact at_
    · intro v z d at_ claim own'
      rw [workers] at at_
      rcases Transition.getElem?_set_cases at_ with ⟨rfl, rfl⟩ | ⟨_, old⟩
      · cases claim
        exact absurd own' own
      · exact ⟨z, old, claim⟩
    · rw [queue]
      simp [own]

/-- A claim that `DirtyDirs` takes is on a dir it picked, at the generation of its row. -/
theorem mem_dirtyDirs {t : ScanTables} {picked : List UUID}
    (dirIDs : UniqueOn DirRow.id t.dirs) (h : c ∈ (t.dirtyDirs picked).2) :
    c.id ∈ picked ∧ ∀ row ∈ t.dirs, row.id = c.id → c.lockedGeneration = row.seenGeneration := by
  obtain ⟨id, hid, found⟩ := List.mem_filterMap.mp h
  obtain ⟨d, lookup_, rfl⟩ := Option.map_eq_some_iff.mp found
  have key : d.id = id := key_of_lookup lookup_
  refine ⟨?_, ?_⟩
  · simp only [ScanTables.claim]
    rw [key]
    exact hid
  · intro row hrow same
    obtain rfl : row = d := dirIDs.eq_of_key hrow (mem_of_lookup lookup_) same
    rfl

/-- One claim for each dir that is picked. -/
theorem countP_dirtyDirs {t : ScanTables} {picked : List UUID} {limit : Nat} (wf : t.WellFormed)
    (picks : t.Picks limit picked) (hrow : row ∈ t.dirs) (ofDir : row.id = dirID)
    (seen : row.seenGeneration = gen) :
    (t.dirtyDirs picked).2.countP (fun c => c.On dirID gen) = if dirID ∈ picked then 1 else 0 := by
  obtain ⟨ids, _, _⟩ := Pipeline.dirtyDirs_claim wf picks
  have counts : (t.dirtyDirs picked).2.countP (fun c => c.On dirID gen) = picked.count dirID := by
    conv_rhs => rw [← ids]
    rw [List.count, List.countP_map]
    apply List.countP_congr
    intro c hc
    have ofGen := (mem_dirtyDirs wf.dirIDs hc).2 row hrow
    simp only [decide_eq_true_eq, Function.comp_apply, beq_iff_eq]
    refine ⟨fun own => own.1, fun same => ⟨same, ?_⟩⟩
    rw [ofGen (ofDir.trans same.symm), seen]
  rw [counts]
  by_cases hit : dirID ∈ picked
  · rw [if_pos hit, List.count_eq_one_of_mem picks.1 hit]
  · rw [if_neg hit, List.count_eq_zero_of_not_mem hit]

theorem Retrying.claim (retrying : Retrying dirID gen s) (wf : s.pipeline.tables.WellFormed)
    {picked : List UUID} {limit : Nat} (picks : s.pipeline.tables.Picks limit picked)
    {sent : List ClaimedDir} (part : sent.Sublist (s.pipeline.tables.dirtyDirs picked).2)
    (tables : s'.pipeline.tables = (s.pipeline.tables.dirtyDirs picked).1)
    (workers : s'.pipeline.workers = s.pipeline.workers)
    (queue : queued s'.pipeline = queued s.pipeline ++ sent)
    (attempts : s'.pipeline.attempts = s.pipeline.attempts)
    (history : s'.history = s.history ++ s.taken picked) : Retrying dirID gen s' := by
  have known := retrying
  obtain ⟨row, hrow, id, seen, phase⟩ := known
  have claimed := countP_dirtyDirs wf picks hrow id seen
  have tally : s'.tally dirID gen = _ := tally_append history (by rw [attempts])
  by_cases hit : dirID ∈ picked
  · rw [claimed, if_pos hit] at tally
    obtain ⟨_, _, free⟩ := Pipeline.dirtyDirs_claim wf picks
    obtain ⟨d, hd, same, dirty, unlocked⟩ := free dirID hit
    obtain rfl : d = row := wf.dirIDs.eq_of_key hd hrow (same.trans id.symm)
    cases phase with
    | out locked => simp [unlocked] at locked
    | ended _ clean => simp [dirty] at clean
    | waiting _ _ noWorker empty counts =>
      refine ⟨{ d with dirty := false, lockedGeneration := some d.seenGeneration }, ?_, id, seen, ?_⟩
      · rw [tables]
        exact mem_updateWhere.mpr ⟨d, hd, by simp [id, hit]⟩
      · refine .out (by simp [seen]) rfl (.queued ?_ ?_ ?_)
        · unfold NoWorker
          rw [workers]
          exact noWorker
        · have before : (queued s.pipeline).countP (fun c => c.On dirID gen) = 0 := by
            rw [List.countP_eq_length_filter, noneQueued_iff.mp empty]
            rfl
          have added : sent.countP (fun c => c.On dirID gen) ≤ 1 := by
            have bound := part.countP_le (p := fun c => decide (c.On dirID gen))
            rw [claimed, if_pos hit] at bound
            exact bound
          rw [queue, List.countP_append, before]
          omega
        · rw [tally]
          exact ⟨counts.successes, by rw [counts.claims], counts.failures, counts.counted⟩
  · rw [claimed, if_neg hit] at tally
    refine retrying.frame ?_ tally ?_
    · intro r hr ofDir _
      refine ⟨r, ?_, .refl r⟩
      rw [tables]
      exact mem_updateWhere_of_miss hr (by simp [ofDir, hit])
    · apply SameClaims.of_eq workers
      have others : sent.filter (fun c => c.On dirID gen) = [] := by
        apply List.filter_eq_nil_iff.mpr
        intro c hc own
        have listed := (mem_dirtyDirs wf.dirIDs (part.subset hc)).1
        rw [(of_decide_eq_true own).1] at listed
        exact hit listed
      rw [queue, List.filter_append, others, List.append_nil]

/-- The dir is not synced again, no `BeginScan` resets it, and the release calls of its
claims succeed. -/
def Undisturbed (dirID : UUID) (gen : Int) (s : PipelineRun Import) : RunAction → Prop
  | .act (.syncDir _ _ payload) =>
    ∀ row ∈ s.pipeline.tables.dirs, row.id = dirID →
      row.key ≠ (payload.locationID, payload.relPath)
  | .act (.beginScan loc _ _) =>
    ∀ row ∈ s.pipeline.tables.dirs, row.id = dirID → row.lockedGeneration.isSome →
      row.locationID ≠ loc
  | .act a => ¬ failsRelease dirID gen s a
  | _ => True

instance (dirID : UUID) (gen : Int) (s : PipelineRun Import) (a : Action) :
    Decidable (failsRelease dirID gen s a) := by
  cases a <;> unfold failsRelease <;> infer_instance

instance (dirID : UUID) (gen : Int) (s : PipelineRun Import) (a : RunAction) :
    Decidable (Undisturbed dirID gen s a) := by
  cases a with
  | act a => cases a <;> unfold Undisturbed <;> infer_instance
  | _ => exact isTrue trivial

/-- An action of the scans leaves an undisturbed dir alone. -/
theorem aside_rows {a : Action} (taken : s.pipeline.step importOf a = some p)
    (aside : a.aside = true) (undisturbed : Undisturbed dirID gen s (.act a))
    (hrow : row ∈ s.pipeline.tables.dirs) (ofDir : row.id = dirID) :
    ∃ row' ∈ p.tables.dirs, SameDir row row' := by
  cases a with
  | beginScan loc now scanID =>
    obtain ⟨t, gen, began, rfl⟩ := Pipeline.beginScan_cases taken
    have dirs := (ScanTables.beginScan_spec began).2.2.1
    refine ⟨row, ?_, .refl row⟩
    rw [dirs]
    apply mem_updateWhere_of_miss hrow
    have spared := undisturbed row hrow ofDir
    by_cases locked : row.lockedGeneration.isSome
    · simp [spared locked]
    · simp [locked]
  | syncDir newDirID newFileID payload =>
    obtain ⟨_, t, d, synced, _, rfl⟩ := Pipeline.syncDir_cases taken
    have dirs := ScanTables.syncDir_dirs synced
    have apart := undisturbed row hrow ofDir
    refine ⟨row, ?_, .refl row⟩
    rw [dirs]
    cases found : lookup DirRow.key (payload.locationID, payload.relPath)
        s.pipeline.tables.dirs with
    | some old =>
      rw [upsertOn_of_lookup (ScanTables.newDir newDirID payload) found]
      exact mem_updateWhere_of_miss hrow (decide_eq_false apart)
    | none =>
      rw [upsertOn_of_absent (ScanTables.newDir newDirID payload) found]
      exact List.mem_append_left _ hrow
  | onDirty i =>
    obtain ⟨_, rfl⟩ := Pipeline.onDirty_cases taken
    exact ⟨row, hrow, .refl row⟩
  | sweep loc =>
    obtain ⟨gen, rfl⟩ := Pipeline.sweep_cases taken
    refine ⟨if ScanTables.unseen loc gen row then { row with missing := true } else row,
      mem_updateWhere.mpr ⟨row, hrow, rfl⟩, ?_⟩
    split
    · exact ⟨rfl, rfl, rfl, rfl⟩
    · exact .refl row
  | finishScan loc now progress scanErr =>
    obtain ⟨scanID, rfl⟩ := Pipeline.finishScan_cases taken
    exact ⟨row, hrow, .refl row⟩
  | receiveToken =>
    obtain ⟨_, rfl⟩ := Pipeline.receiveToken_cases taken
    exact ⟨row, hrow, .refl row⟩
  | timerFires =>
    obtain ⟨_, rfl⟩ := Pipeline.timerFires_cases taken
    exact ⟨row, hrow, .refl row⟩
  | _ => cases aside

/-- A parse that fails because of the cancellation. -/
theorem Retrying.failCancelled (retrying : Retrying dirID gen s) (rec : s.Recorded)
    (h : s.failCancelled w = some s') : Retrying dirID gen s' := by
  obtain ⟨_, p, failed, rfl⟩ := failCancelled_cases h
  obtain ⟨dir, here, rfl⟩ := Pipeline.fail_cases failed
  obtain ⟨x, found, claim, undecided, open_⟩ : ∃ x, s.pipeline.workers[w]? = some x ∧
      x.claim = some dir ∧ (∀ o, x.Tells o → o = none) ∧ ∀ T, x.Stage T → T.Open := by
    rcases here with here | ⟨files, here⟩
    · exact ⟨_, here, rfl, fun _ => id, fun _ => id⟩
    · exact ⟨_, here, rfl, fun _ => id, fun _ => id⟩
  by_cases own : dir.On dirID gen
  · exact retrying.close rec found claim own undecided open_ rfl rfl rfl rfl rfl rfl
      fun _ open_ => failing_of_open open_ nofun
  · have other : ∀ c, x.claim = some c → ¬ c.On dirID gen := by
      intro c has own'
      rw [claim] at has
      cases has
      exact own own'
    obtain ⟨o, entry, _⟩ := rec.working w x dir found claim
    refine retrying.frame ?_ ?_ ?_
    · exact fun row hrow _ _ => ⟨row, hrow, .refl row⟩
    · exact tally_close_other entry (decide_eq_false own) .canceled rfl rfl
    · have fewer : ∀ c, (Worker.failed dir).claim = some c → x.claim = some c := by
        intro c has
        cases has
        exact claim
      exact .of_set found other fewer rfl rfl

/-- The count at the generation is not lost to a claim at another one. -/
def KeepsCount (dirID : UUID) (gen : Int) (s : PipelineRun Import) : RunAction → Prop
  | .act a => ¬ losesCount dirID gen s.pipeline a
  | _ => True

instance (dirID : UUID) (gen : Int) (p : Pipeline Import) (a : Action) :
    Decidable (losesCount dirID gen p a) := by
  cases a <;> unfold losesCount <;> infer_instance

instance (dirID : UUID) (gen : Int) (s : PipelineRun Import) (a : RunAction) :
    Decidable (KeepsCount dirID gen s a) := by
  cases a <;> unfold KeepsCount <;> infer_instance

theorem step_retrying {a : RunAction} (acc : s.Accounted) (retrying : Retrying dirID gen s)
    (undisturbed : Undisturbed dirID gen s a) (keeps : KeepsCount dirID gen s a)
    (h : s.step importOf a = some s') :
    Retrying dirID gen s' := by
  have same : ∀ {p : Pipeline Import}, p = s.pipeline → s'.pipeline = p → s'.history = s.history →
      Retrying dirID gen s' := by
    rintro p rfl pipeline history
    refine retrying.frame ?_ ?_ ?_
    · exact fun row hrow _ _ => ⟨row, pipeline ▸ hrow, .refl row⟩
    · exact tally_of_eq history (by rw [pipeline])
    · exact .of_eq (by rw [pipeline]) (by rw [pipeline])
  cases a with
  | cancel =>
    cases h
    exact same rfl rfl rfl
  | dispatcherReturns =>
    obtain ⟨_, rfl⟩ := dispatcherReturns_cases h
    exact same rfl rfl rfl
  | workerReturns w =>
    obtain ⟨_, rfl⟩ := workerReturns_cases h
    exact same rfl rfl rfl
  | claimLost picked =>
    obtain ⟨picks, rfl⟩ := claimLost_cases h
    exact retrying.claim acc.wellFormed picks (List.nil_sublist _) rfl rfl (by simp [queued]) rfl rfl
  | failCancelled w => exact retrying.failCancelled acc.recorded h
  | act a =>
    obtain ⟨_, p, taken, rfl⟩ := act_cases h
    cases acts : a.worker with
    | some w =>
      refine retrying.worker acc.recorded taken acts ?_ keeps
      cases a <;> first | exact undisturbed | exact id
    | none =>
      by_cases aside : a.aside = true
      · obtain ⟨workers, queue, attempts⟩ := Pipeline.step_aside taken aside
        refine retrying.frame ?_ ?_ ?_
        · exact fun row hrow ofDir _ => aside_rows taken aside undisturbed hrow ofDir
        · exact tally_of_eq (by rw [note_of_aside aside]) (by rw [attempts])
        · exact .of_eq workers (by rw [queue.queued])
      · cases a with
        | dirtyDirs picked =>
          obtain ⟨_, picks, _⟩ := Pipeline.dirtyDirs_cases taken
          obtain ⟨workers, queue⟩ := Pipeline.queued_dirtyDirs taken
          obtain ⟨_, _, rfl⟩ := Pipeline.dirtyDirs_cases taken
          exact retrying.claim acc.wellFormed picks (List.Sublist.refl _) rfl workers queue rfl rfl
        | send =>
          obtain ⟨workers, queue⟩ := Pipeline.queued_send taken
          obtain ⟨c, batch, _, rfl⟩ := Pipeline.send_cases taken
          refine retrying.frame ?_ rfl (.of_eq workers (by rw [queue]))
          exact fun row hrow _ _ => ⟨row, hrow, .refl row⟩
        | receive w =>
          obtain ⟨c, idle, workers, queue⟩ := Pipeline.queued_receive taken
          obtain ⟨row, hrow, id, seen, phase⟩ := retrying
          have received := phase.receive idle workers queue
          obtain ⟨d, rest, _, _, rfl⟩ := Pipeline.receive_cases taken
          exact ⟨row, hrow, id, seen, received⟩
        | _ => first | exact absurd rfl aside | cases acts

end PipelineRun

end Byom.Metadata
