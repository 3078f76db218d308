import Byom.Metadata.Freshness
import Byom.Metadata.Retries

/-!
# Bounded retries

The first claim of a dir at a generation finds no failure counted for it, and from then on
the phases bound what follows, as long as no claim of another generation makes the count
start over.
-/

namespace Byom.Metadata

open Storage Relational Sqlite Transition

/-- The worker that takes a step of its own. -/
def RunAction.worker : RunAction → Option Nat
  | .act a => a.worker
  | .failCancelled w => some w
  | _ => none

namespace PipelineRun

variable {Import : Type} {s s' : PipelineRun Import} {importOf : List File → Import}
  {w : Nat} {dirID : UUID} {gen : Int} {p p' : Pipeline Import}

/-! ### The first claim -/

theorem map_dir_note (s : PipelineRun Import) {a : Action} (claims : ∀ picked, a ≠ .dirtyDirs picked) :
    (s.note a).history.map Attempt.dir = s.history.map Attempt.dir := by
  cases a with
  | dirtyDirs picked => exact absurd rfl (claims picked)
  | importDir w => exact map_dir_close s w .succeeded
  | fail w => exact map_dir_close s w .failed
  | _ => rfl

theorem countP_of_map_dir (same : s'.history.map Attempt.dir = s.history.map Attempt.dir) :
    s'.history.countP (fun a => a.of dirID gen) = s.history.countP fun a => a.of dirID gen := by
  have dirs : ∀ l : List Attempt, l.countP (fun a => a.of dirID gen) =
      (l.map Attempt.dir).countP fun c => c.On dirID gen := by
    intro l
    rw [List.countP_map]
    rfl
  rw [dirs, dirs, same]

/-- What takes claims: a `DirtyDirs`, also one that returns an error. -/
theorem step_claims {a : RunAction} (h : s.step importOf a = some s') :
    s'.history.map Attempt.dir = s.history.map Attempt.dir ∨
      ∃ picked, (a = .act (.dirtyDirs picked) ∨ a = .claimLost picked) ∧
        s.pipeline.tables.Picks s.pipeline.workers.length picked ∧
        s'.history = s.history ++ s.taken picked := by
  cases a with
  | act a =>
    obtain ⟨_, p, taken, rfl⟩ := act_cases h
    by_cases claims : ∀ picked, a ≠ .dirtyDirs picked
    · exact .inl (map_dir_note s claims)
    · simp only [not_forall, not_not] at claims
      obtain ⟨picked, rfl⟩ := claims
      obtain ⟨_, picks, _⟩ := Pipeline.dirtyDirs_cases taken
      exact .inr ⟨picked, .inl rfl, picks, rfl⟩
  | claimLost picked =>
    obtain ⟨picks, rfl⟩ := claimLost_cases h
    exact .inr ⟨picked, .inr rfl, picks, rfl⟩
  | failCancelled w =>
    obtain ⟨_, p, _, rfl⟩ := failCancelled_cases h
    exact .inl (map_dir_close s w .canceled)
  | cancel =>
    cases h
    exact .inl rfl
  | dispatcherReturns =>
    obtain ⟨_, rfl⟩ := dispatcherReturns_cases h
    exact .inl rfl
  | workerReturns w =>
    obtain ⟨_, rfl⟩ := workerReturns_cases h
    exact .inl rfl

/-- No claim is forgotten. -/
theorem step_history {a : RunAction} (h : s.step importOf a = some s') :
    s.history.map Attempt.dir ⊆ s'.history.map Attempt.dir := by
  rcases step_claims h with same | ⟨picked, _, _, history⟩
  · rw [same]
    exact List.Subset.refl _
  · rw [history, List.map_append]
    exact List.subset_append_left _ _

/-- A count that is not zero is that of a claim. -/
def Counted (s : PipelineRun Import) : Prop :=
  ∀ dirID, (s.pipeline.attempts dirID).failures = 0 ∨ ∃ c ∈ s.history.map Attempt.dir,
    c.id = dirID ∧ c.lockedGeneration = (s.pipeline.attempts dirID).generation

theorem Counted.mono (counted : s.Counted) (attempts : s'.pipeline.attempts = s.pipeline.attempts)
    (history : s.history.map Attempt.dir ⊆ s'.history.map Attempt.dir) : s'.Counted := by
  intro dirID
  rw [attempts]
  exact (counted dirID).imp_right fun ⟨c, hc, own⟩ => ⟨c, history hc, own⟩

theorem step_counted {a : RunAction} (rec : s.Recorded) (counted : s.Counted)
    (h : s.step importOf a = some s') : s'.Counted := by
  have history := step_history h
  cases a with
  | act a =>
    obtain ⟨_, p, taken, rfl⟩ := act_cases h
    by_cases silent : ∀ w, a ≠ .clearAttempts w ∧ a ≠ .recordFailure w
    · exact counted.mono (step_attempts taken silent) history
    · cases a with
      | clearAttempts w =>
        obtain ⟨dir, _, rfl⟩ := Pipeline.clearAttempts_cases taken
        intro dirID
        by_cases own : dirID = dir.id
        · left
          simp [own]
        · simp only [own, ne_eq, not_false_eq_true, Function.update_of_ne]
          exact counted dirID
      | recordFailure w =>
        obtain ⟨dir, found, rfl⟩ := recordFailure_counts taken
        intro dirID
        by_cases own : dirID = dir.id
        · right
          subst own
          obtain ⟨o, entry, _⟩ := rec.working w _ dir found rfl
          refine ⟨dir, List.mem_map_of_mem (List.mem_of_getElem? entry), rfl, ?_⟩
          simp only [Function.update_self, Pipeline.countFailure]
          split
          · rfl
          · rename_i same
            exact (not_not.mp same).symm
        · simp only [own, ne_eq, not_false_eq_true, Function.update_of_ne]
          exact counted dirID
      | _ => simp at silent
  | claimLost picked =>
    obtain ⟨_, rfl⟩ := claimLost_cases h
    exact counted.mono rfl history
  | failCancelled w =>
    obtain ⟨_, p, failed, rfl⟩ := failCancelled_cases h
    obtain ⟨dir, _, rfl⟩ := Pipeline.fail_cases failed
    exact counted.mono rfl history
  | cancel =>
    cases h
    exact counted
  | dispatcherReturns =>
    obtain ⟨_, rfl⟩ := dispatcherReturns_cases h
    exact counted
  | workerReturns w =>
    obtain ⟨_, rfl⟩ := workerReturns_cases h
    exact counted

/-! ### From the first claim on -/

/-- What is claimed of a dir at a generation. When no claim on it is out and every
attempt has ended, it is unlocked, and dirty if none succeeded and some are left. -/
structure Retried (dirID : UUID) (gen : Int) (s : PipelineRun Import) : Prop where
  claims : (s.tally dirID gen).claims ≤ maxParseAttempts
  left : (∀ c ∈ s.pipeline.held, ¬ c.On dirID gen) →
    (∀ a ∈ s.history, a.of dirID gen = true → a.outcome ≠ none) →
      ∀ row ∈ s.pipeline.tables.dirs, row.id = dirID → row.lockedGeneration = none ∧
        (row.dirty = true ↔ (s.tally dirID gen).successes = 0 ∧
          (s.tally dirID gen).failures < maxParseAttempts)

/-- Claims that were not taken are held nowhere. -/
theorem free_of_first (rec : s.Recorded) (first : (s.tally dirID gen).claims = 0) :
    NoWorker dirID gen s.pipeline ∧ NoneQueued dirID gen s.pipeline := by
  have untaken : ∀ a ∈ s.history, ¬ a.dir.On dirID gen := by
    intro a ha own
    exact List.countP_eq_zero.mp first a ha (decide_eq_true own)
  refine ⟨?_, ?_⟩
  · intro w x c found claim
    obtain ⟨o, entry, _⟩ := rec.working w x c found claim
    exact untaken _ (List.mem_of_getElem? entry)
  · intro c hc
    have listed : some ⟨c, none⟩ ∈ s.pending.map fun i => s.history[i]? := by
      rw [rec.queue]
      exact List.mem_map_of_mem hc
    obtain ⟨i, _, entry⟩ := List.mem_map.mp listed
    exact untaken _ (List.mem_of_getElem? entry)

theorem free_of_unheld (unheld : ∀ c ∈ p.held, ¬ c.On dirID gen) :
    NoWorker dirID gen p ∧ NoneQueued dirID gen p := by
  refine ⟨?_, ?_⟩
  · intro w x c found claim
    apply unheld
    apply List.mem_append_right
    exact List.mem_filterMap.mpr ⟨x, List.mem_of_getElem? found, claim⟩
  · intro c hc
    apply unheld
    apply List.mem_append_left
    rcases List.mem_append.mp hc with queue | batch
    · exact List.mem_append_right _ queue
    · exact List.mem_append_left _ batch

theorem Retrying.retried (retrying : Retrying dirID gen s) (acc : s.Accounted) :
    Retried dirID gen s := by
  obtain ⟨row, hrow, id, seen, phase⟩ := retrying
  have unique : ∀ r ∈ s.pipeline.tables.dirs, r.id = dirID → r = row := fun r hr ofDir =>
    acc.wellFormed.dirIDs.eq_of_key hr hrow (ofDir.trans id.symm)
  cases phase with
  | out locked clean place =>
    refine ⟨?_, ?_⟩
    · cases place with
      | queued _ _ stage =>
        rw [stage.claims]
        exact stage.failures
      | worker w x c _ claim _ _ _ stage =>
        cases x with
        | idle => cases claim
        | redirtied => cases claim
        | claimed dir =>
          have open_ : (s.tally dirID gen).Open := stage
          rw [open_.claims]
          exact open_.failures
        | read dir files =>
          have open_ : (s.tally dirID gen).Open := stage
          rw [open_.claims]
          exact open_.failures
        | imported dir => exact Tally.Parsed.claims stage
        | cleared dir => exact Tally.Parsed.claims stage
        | failed dir =>
          have failing : (s.tally dirID gen).Failing := stage
          rw [failing.claims]
          exact failing.failures
        | givingUp dir =>
          have exhausted : (s.tally dirID gen).Exhausted := stage
          rw [exhausted.claims]
          exact exhausted.failures.le
        | redirtying dir =>
          have waiting : (s.tally dirID gen).Waiting := stage
          rw [waiting.claims]
          exact waiting.failures.le
    · intro unheld ended
      exfalso
      obtain ⟨free, empty⟩ := free_of_unheld unheld
      cases place with
      | queued _ _ stage =>
        have outcomes := tally_outcomes s dirID gen ended
        rw [stage.claims, stage.successes] at outcomes
        omega
      | worker w x c found claim own => exact free w x c found claim own
  | waiting unlocked dirty _ _ counts =>
    refine ⟨?_, ?_⟩
    · rw [counts.claims]
      exact counts.failures.le
    · intro _ _ r hr ofDir
      obtain rfl := unique r hr ofDir
      exact ⟨unlocked, fun _ => ⟨counts.successes, counts.failures⟩, fun _ => dirty⟩
  | ended unlocked clean _ _ counts =>
    refine ⟨?_, ?_⟩
    · rcases counts with parsed | exhausted
      · exact parsed.claims
      · rw [exhausted.claims]
        exact exhausted.failures.le
    · intro _ _ r hr ofDir
      obtain rfl := unique r hr ofDir
      refine ⟨unlocked, ?_, ?_⟩
      · intro dirty
        rw [clean] at dirty
        cases dirty
      · rintro ⟨none_, few⟩
        rcases counts with parsed | exhausted
        · have some_ := parsed.successes
          omega
        · have most := exhausted.failures
          omega

/-- A dir that is about to be claimed for the first time at its generation. -/
theorem retrying_of_first (acc : s.Accounted) (counted : s.Counted) {picked : List UUID}
    (first : (s.tally dirID gen).claims = 0)
    (picks : s.pipeline.tables.Picks s.pipeline.workers.length picked)
    (here : 0 < (s.history ++ s.taken picked).countP fun a => a.of dirID gen) :
    Retrying dirID gen s := by
  obtain ⟨free, empty⟩ := free_of_first acc.recorded first
  have untaken := List.countP_eq_zero.mp first
  obtain ⟨c, hc, own⟩ : ∃ c ∈ (s.pipeline.tables.dirtyDirs picked).2, c.On dirID gen := by
    obtain ⟨a, ha, own⟩ := List.countP_pos_iff.mp here
    rcases List.mem_append.mp ha with old | new
    · exact absurd own (untaken a old)
    · obtain ⟨c, hc, rfl⟩ := List.mem_map.mp new
      exact ⟨c, hc, of_decide_eq_true own⟩
  obtain ⟨listed, ofGen⟩ := mem_dirtyDirs acc.wellFormed.dirIDs hc
  obtain ⟨_, _, claimable⟩ := Pipeline.dirtyDirs_claim acc.wellFormed picks
  obtain ⟨row, hrow, id, dirty, unlocked⟩ := claimable c.id listed
  refine ⟨row, hrow, id.trans own.1, (ofGen row hrow id).symm.trans own.2, ?_⟩
  have none_ : ∀ q : Attempt → Bool, s.history.countP (fun a => a.of dirID gen && q a) = 0 := by
    intro q
    apply List.countP_eq_zero.mpr
    intro a ha both
    exact untaken a ha (Bool.and_eq_true_iff.mp both).1
  have failures : (s.tally dirID gen).failures = 0 := none_ _
  refine .waiting unlocked dirty free empty ⟨none_ _, first.trans failures.symm, ?_, ?_⟩
  · rw [failures]
    decide
  · rw [failures]
    show (s.pipeline.attempts dirID).at gen = 0
    unfold ParseAttempts.at
    split
    · rename_i same
      rcases counted dirID with zero | ⟨d, hd, ofDir, ofGen'⟩
      · exact zero
      · obtain ⟨a, ha, rfl⟩ := List.mem_map.mp hd
        exact absurd (decide_eq_true ⟨ofDir, ofGen'.trans same⟩) (untaken a ha)
    · rfl

/-- A step that is not of a worker with a claim on the dir leaves its count alone. -/
theorem step_count {a : RunAction} (h : s.step importOf a = some s')
    (other : ∀ w ∈ a.worker, ∀ x ∈ s.pipeline.workers[w]?, ∀ c ∈ x.claim, c.id ≠ dirID) :
    s'.pipeline.attempts dirID = s.pipeline.attempts dirID := by
  cases a with
  | act a =>
    obtain ⟨_, p, taken, rfl⟩ := act_cases h
    show p.attempts dirID = _
    by_cases silent : ∀ w, a ≠ .clearAttempts w ∧ a ≠ .recordFailure w
    · rw [step_attempts taken silent]
    · cases a with
      | clearAttempts w =>
        obtain ⟨dir, found, rfl⟩ := Pipeline.clearAttempts_cases taken
        have apart := other w rfl _ found dir rfl
        exact Function.update_of_ne (Ne.symm apart) _ _
      | recordFailure w =>
        obtain ⟨dir, found, rfl⟩ := recordFailure_counts taken
        have apart := other w rfl _ found dir rfl
        exact Function.update_of_ne (Ne.symm apart) _ _
      | _ => simp at silent
  | claimLost picked =>
    obtain ⟨_, rfl⟩ := claimLost_cases h
    rfl
  | failCancelled w =>
    obtain ⟨_, p, failed, rfl⟩ := failCancelled_cases h
    obtain ⟨dir, _, rfl⟩ := Pipeline.fail_cases failed
    rfl
  | cancel =>
    cases h
    rfl
  | dispatcherReturns =>
    obtain ⟨_, rfl⟩ := dispatcherReturns_cases h
    rfl
  | workerReturns w =>
    obtain ⟨_, rfl⟩ := workerReturns_cases h
    rfl

/-- From the first claim of a dir at a generation on, while no claim of another generation
makes its count start over: it is claimed `maxParseAttempts` times at most, each attempt
leaves it as it should, and what is done for other dirs does not change its count. -/
theorem retries_bounded (importOf : List File → Import) {t : ScanTables} (wf : t.WellFormed)
    (library : UUID → Import) (n : Nat) {as bs : List RunAction} {a : RunAction}
    {s s₁ : PipelineRun Import} {dirID : UUID} {gen : Int}
    (ran : run (step importOf) (start t library n) as = some s)
    (first : (s.tally dirID gen).claims = 0) (claims : s.step importOf a = some s₁)
    (here : 0 < (s₁.tally dirID gen).claims)
    (undisturbed : StepsMeet (step importOf)
      (fun u b => Undisturbed dirID gen u b ∧ KeepsCount dirID gen u b) s₁ bs) :
    Along (step importOf) (Retried dirID gen) s₁ bs ∧
      ∀ (u u' : PipelineRun Import) (b : RunAction), u.step importOf b = some u' →
        (∀ w ∈ b.worker, ∀ x ∈ u.pipeline.workers[w]?, ∀ c ∈ x.claim, c.id ≠ dirID) →
          u'.pipeline.attempts dirID = u.pipeline.attempts dirID := by
  have before : s.Accounted ∧ s.Counted := by
    apply invariant_of_run (I := fun u => u.Accounted ∧ u.Counted) _ _ ran
    · intro u b u' inv h
      exact ⟨step_accounted inv.1 h, step_counted inv.1.recorded inv.2 h⟩
    · exact ⟨start_accounted wf library n, fun _ => .inl rfl⟩
  have after : s₁.Accounted ∧ Retrying dirID gen s₁ := by
    refine ⟨step_accounted before.1 claims, ?_⟩
    rcases step_claims claims with same | ⟨picked, acts, picks, history⟩
    · have equal : (s₁.tally dirID gen).claims = (s.tally dirID gen).claims :=
        countP_of_map_dir same
      omega
    · have counted : 0 < (s.history ++ s.taken picked).countP fun a => a.of dirID gen :=
        history ▸ here
      have retrying := retrying_of_first before.1 before.2 first picks counted
      rcases acts with rfl | rfl
      · refine step_retrying before.1 retrying ?_ ?_ claims <;> exact id
      · refine step_retrying before.1 retrying ?_ ?_ claims <;> trivial
  refine ⟨?_, fun u u' b h other => step_count h other⟩
  apply along_of_stepsMeet (I := fun u => u.Accounted ∧ Retrying dirID gen u) _ _ after undisturbed
  · intro u b u' inv met h
    exact ⟨step_accounted inv.1 h, step_retrying inv.1 inv.2 met.1 met.2 h⟩
  · exact fun u inv => inv.2.retried inv.1

/-! ### A failure of an older claim -/

/-- The first claim of the dir has been taken. -/
def firstClaimed : PipelineRun (List File) :=
  (oneWorker.step id (.act (.dirtyDirs [10]))).get (by decide)

/-- Three attempts fail, and the dir is given up on. -/
def givenUp : List RunAction :=
  failedAttempt.tail ++ failedAttempt ++ (failedAttempt.take 5 ++ [.act (.releaseDir 0)])

theorem givenUp_bounded : Along (step id) (Retried 10 1) firstClaimed givenUp := by
  have none_ : run (step id) (start Pipeline.oneDirty (fun _ => []) 1) [] = some oneWorker := rfl
  have claims : oneWorker.step id (.act (.dirtyDirs [10])) = some firstClaimed :=
    (Option.some_get _).symm
  exact (retries_bounded id Pipeline.oneDirty_wellFormed (fun _ => []) 1 none_ (by decide) claims
    (by decide) (by decide)).1

/-- Worker 1 holds the dir when a scan finds it changed. -/
def claimedOlder : List RunAction :=
  (Pipeline.claimAndSend 1 ++ Pipeline.scanOfChange).map .act

theorem claimedOlder_isSome :
    (run (step id) (start Pipeline.oneDirty (fun _ => []) 2) claimedOlder).isSome := by decide

def heldOlder : PipelineRun (List File) :=
  (run (step id) (start Pipeline.oneDirty (fun _ => []) 2) claimedOlder).get claimedOlder_isSome

def claimedNewer : PipelineRun (List File) :=
  (heldOlder.step id (.act (.dirtyDirs [10]))).get (by decide)

/-- The failure of worker 1 is recorded after the second one at the new generation, and the
third one counts as the first. -/
def countedAnew : List RunAction :=
  failedAttempt.tail ++ failedAttempt ++ [.act (.fail 1), .act (.recordFailure 1)] ++
    failedAttempt ++ [.act (.dirtyDirs [10])]

theorem countedAnew_claimsAgain :
    ¬ ∀ (t : ScanTables) (library : UUID → List File) (n : Nat) (as bs : List RunAction)
      (a : RunAction) (s s₁ : PipelineRun (List File)) (dirID : UUID) (gen : Int),
      t.WellFormed → run (step id) (start t library n) as = some s →
      (s.tally dirID gen).claims = 0 → s.step id a = some s₁ →
      0 < (s₁.tally dirID gen).claims → StepsMeet (step id) (Undisturbed dirID gen) s₁ bs →
      Along (step id) (Retried dirID gen) s₁ bs := by
  intro bounded
  have held : run (step id) (start Pipeline.oneDirty (fun _ => []) 2) claimedOlder =
      some heldOlder := (Option.some_get _).symm
  have claims : heldOlder.step id (.act (.dirtyDirs [10])) = some claimedNewer :=
    (Option.some_get _).symm
  have along := bounded Pipeline.oneDirty (fun _ => []) 2 claimedOlder countedAnew _ heldOlder
    claimedNewer 10 2 Pipeline.oneDirty_wellFormed held (by decide) claims (by decide) (by decide)
  have reaches : (run (step id) claimedNewer countedAnew).map (fun s => (s.tally 10 2).claims) =
      some 4 := by decide
  obtain ⟨s, ran, four⟩ := Option.map_eq_some_iff.mp reaches
  have most := (along.last ran).claims
  rw [four] at most
  exact absurd most (by decide)

end PipelineRun

end Byom.Metadata
