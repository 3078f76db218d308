import Byom.Metadata.BoundedRetries

/-!
# Failures that are not the dir's own

The count that `recordFailure` keeps never passes the failures on record. So a dir that is
given up on has failed often enough for reasons of its own, if none of its failures at that
generation is due to the cancellation.
-/

namespace Byom.Metadata

open Storage Relational Sqlite Transition

namespace Worker

/-- The claim whose failure is still to be counted. -/
def failing : Worker → Option ClaimedDir
  | .failed dir => some dir
  | _ => none

/-- The claim that is given up on. -/
def abandoning : Worker → Option ClaimedDir
  | .givingUp dir => some dir
  | _ => none

/-- A failure at this generation of the dir is still to be counted. -/
def failsOn (dirID : UUID) (gen : Int) (x : Worker) : Bool :=
  x.failing.any fun dir => dir.On dirID gen

theorem failsOn_of_none {x : Worker} (none_ : x.failing = none) (dirID : UUID) (gen : Int) :
    x.failsOn dirID gen = false := by
  rw [failsOn, none_]
  rfl

theorem failsOn_failed (dir : ClaimedDir) (dirID : UUID) (gen : Int) :
    (Worker.failed dir).failsOn dirID gen = decide (dir.On dirID gen) := rfl

end Worker

/-- The action of the pipeline. -/
def RunAction.action : RunAction → Option Action
  | .act a => some a
  | _ => none

/-- The worker that counts a failure. -/
def RunAction.counts : RunAction → Option Nat
  | .act (.recordFailure w) => some w
  | _ => none

namespace Pipeline

variable {Import : Type} {s s' : Pipeline Import} {importOf : List File → Import} {w : Nat}

/-- The states from which a release call fails. -/
theorem releaseError_failing (h : s.releaseError w = some s') {x : Worker}
    (found : s.workers[w]? = some x) : x.failing = none := by
  unfold releaseError at h
  rw [found] at h
  cases x with
  | failed dir => cases h
  | _ => rfl

/-- A worker neither fails nor gives up but by failing and by counting it. -/
theorem step_quiet {a : Action} (h : s.step importOf a = some s')
    (quiet : ∀ w, a ≠ .fail w ∧ a ≠ .recordFailure w) : s'.workers = s.workers ∨
      ∃ w x y, s.workers[w]? = some x ∧ s'.workers = s.workers.set w y ∧ x.failing = none ∧
        y.failing = none ∧ y.abandoning = none := by
  by_cases aside : a.aside = true
  · exact .inl (step_aside h aside).1
  · cases a with
    | dirtyDirs picked => exact .inl (queued_dirtyDirs h).1
    | send => exact .inl (queued_send h).1
    | receive w =>
      obtain ⟨c, idle, workers, _⟩ := queued_receive h
      exact .inr ⟨w, _, _, idle, workers, rfl, rfl, rfl⟩
    | fail w => exact absurd rfl (quiet w).1
    | dirFiles w =>
      obtain ⟨dir, found, rfl⟩ := dirFiles_cases h
      exact .inr ⟨w, _, _, found, rfl, rfl, rfl, rfl⟩
    | importDir w =>
      obtain ⟨dir, files, found, rfl⟩ := importDir_cases h
      exact .inr ⟨w, _, _, found, rfl, rfl, rfl, rfl⟩
    | clearAttempts w =>
      obtain ⟨dir, found, rfl⟩ := clearAttempts_cases h
      exact .inr ⟨w, _, _, found, rfl, rfl, rfl, rfl⟩
    | recordFailure w => exact absurd rfl (quiet w).2
    | releaseDir w =>
      obtain ⟨x, dir, t, found, releasing, _, rfl⟩ := releaseDir_cases h
      rcases releasing_cases releasing with rfl | rfl
      · exact .inr ⟨w, _, _, found, rfl, rfl, rfl, rfl⟩
      · exact .inr ⟨w, _, _, found, rfl, rfl, rfl, rfl⟩
    | releaseAndRedirty w =>
      obtain ⟨dir, t, found, _, rfl⟩ := releaseAndRedirty_cases h
      exact .inr ⟨w, _, _, found, rfl, rfl, rfl, rfl⟩
    | releaseError w =>
      obtain ⟨x, dir, found, _, same⟩ := releaseError_cases h
      exact .inr ⟨w, _, _, found, by rw [same]; rfl, releaseError_failing h found, rfl, rfl⟩
    | armRetry w =>
      obtain ⟨found, rfl⟩ := armRetry_cases h
      exact .inr ⟨w, _, _, found, rfl, rfl, rfl, rfl⟩
    | skipRetry w =>
      obtain ⟨found, rfl⟩ := skipRetry_cases h
      exact .inr ⟨w, _, _, found, rfl, rfl, rfl, rfl⟩
    | _ => exact absurd rfl aside

end Pipeline

theorem countP_set_add {α : Type} {q : α → Bool} {l : List α} {i : Nat} {x : α}
    (found : l[i]? = some x) (y : α) :
    (l.set i y).countP q + (if q x then 1 else 0) = l.countP q + if q y then 1 else 0 := by
  obtain ⟨inside, rfl⟩ := List.getElem?_eq_some_iff.mp found
  have before := (List.getElem_cons_eraseIdx_perm inside).countP_eq q
  have after := (List.set_perm_cons_eraseIdx inside y).countP_eq q
  rw [List.countP_cons] at before after
  omega

/-- What comes later in a list without repeats has other keys. -/
theorem notMem_drop_of_nodup {α κ : Type} {key : α → κ} {l : List α} {i : Nat} {x : α}
    (apart : (l.map key).Nodup) (found : l[i]? = some x) :
    ∀ y ∈ l.drop (i + 1), key y ≠ key x := by
  intro y hy same
  obtain ⟨inside, rfl⟩ := List.getElem?_eq_some_iff.mp found
  rw [← List.take_append_drop i l, List.map_append, List.drop_eq_getElem_cons inside,
    List.map_cons] at apart
  have tail := (List.nodup_append.mp apart).2.1
  exact (List.nodup_cons.mp tail).1 (same ▸ List.mem_map_of_mem hy)

namespace PipelineRun

variable {Import : Type} {s s' : PipelineRun Import} {importOf : List File → Import}
  {w : Nat} {dirID : UUID} {gen : Int} {c : ClaimedDir}

/-! ### The record of a step -/

theorem countP_close {q : Attempt → Bool} (entry : s.history[s.serial w]? = some ⟨c, none⟩)
    (undecided : q ⟨c, none⟩ = false) (decided : Outcome) :
    (s.close w decided).history.countP q =
      s.history.countP q + if q ⟨c, some decided⟩ then 1 else 0 := by
  have changed := countP_modify (p := q) (f := fun a => { a with outcome := some decided }) entry
  simp only [undecided, Bool.false_eq_true, if_false, Nat.add_zero] at changed
  exact changed

/-- The record grows by claims without an outcome, or a claim gets its outcome. -/
theorem step_record {a : RunAction} (rec : s.Recorded) (h : s.step importOf a = some s') :
    s'.history = s.history ∨ (∃ picked, s'.history = s.history ++ s.taken picked) ∨
      ∃ w c o, s.history[s.serial w]? = some ⟨c, none⟩ ∧ s'.history = (s.close w o).history := by
  cases a with
  | act a =>
    obtain ⟨_, p, taken, rfl⟩ := act_cases h
    cases a with
    | dirtyDirs picked => exact .inr (.inl ⟨picked, rfl⟩)
    | importDir w =>
      obtain ⟨dir, files, found, _⟩ := Pipeline.importDir_cases taken
      obtain ⟨o, entry, rfl⟩ := rec.working w _ dir found rfl
      exact .inr (.inr ⟨w, dir, .succeeded, entry, rfl⟩)
    | fail w =>
      obtain ⟨c, _, entry, _⟩ := rec.entry_of_fail taken
      exact .inr (.inr ⟨w, c, .failed, entry, rfl⟩)
    | _ => exact .inl rfl
  | claimLost picked =>
    obtain ⟨_, rfl⟩ := claimLost_cases h
    exact .inr (.inl ⟨picked, rfl⟩)
  | failCancelled w =>
    obtain ⟨_, p, failed, rfl⟩ := failCancelled_cases h
    obtain ⟨c, _, entry, _⟩ := rec.entry_of_fail failed
    exact .inr (.inr ⟨w, c, .canceled, entry, rfl⟩)
  | cancel =>
    cases h
    exact .inl rfl
  | dispatcherReturns =>
    obtain ⟨_, rfl⟩ := dispatcherReturns_cases h
    exact .inl rfl
  | workerReturns w =>
    obtain ⟨_, rfl⟩ := workerReturns_cases h
    exact .inl rfl

/-- Outcomes stay on record. -/
theorem step_countP {a : RunAction} (rec : s.Recorded) (h : s.step importOf a = some s')
    {q : Attempt → Bool} (undecided : ∀ c, q ⟨c, none⟩ = false) :
    s.history.countP q ≤ s'.history.countP q := by
  rcases step_record rec h with same | ⟨picked, added⟩ | ⟨w, c, o, entry, closed⟩
  · rw [same]
  · rw [added, List.countP_append]
    exact Nat.le_add_right _ _
  · rw [closed, countP_close entry (undecided c)]
    exact Nat.le_add_right _ _

theorem step_realFailures {a : RunAction} (rec : s.Recorded) (h : s.step importOf a = some s') :
    s.realFailures dirID gen ≤ s'.realFailures dirID gen :=
  step_countP rec h fun _ => by simp

/-! ### The count and the record -/

/-- Failures that are on record and not counted yet. -/
def uncounted (dirID : UUID) (gen : Int) (s : PipelineRun Import) : Nat :=
  s.pipeline.workers.countP (Worker.failsOn dirID gen)

/-- What is counted, or still to be counted, is on record. -/
def CountsRecorded (s : PipelineRun Import) : Prop :=
  ∀ dirID gen, (s.pipeline.attempts dirID).at gen + s.uncounted dirID gen ≤
    (s.tally dirID gen).failures

theorem isFailure_undecided (dirID : UUID) (gen : Int) (c : ClaimedDir) :
    (Attempt.of dirID gen ⟨c, none⟩ && Attempt.isFailure ⟨c, none⟩) = false := by
  simp [Attempt.isFailure]

theorem CountsRecorded.frame (counts : s.CountsRecorded)
    (attempts : ∀ dirID gen, (s'.pipeline.attempts dirID).at gen ≤
      (s.pipeline.attempts dirID).at gen)
    (workers : ∀ dirID gen, s'.uncounted dirID gen = s.uncounted dirID gen)
    (history : ∀ dirID gen, (s.tally dirID gen).failures ≤ (s'.tally dirID gen).failures) :
    s'.CountsRecorded := by
  intro dirID gen
  rw [workers]
  exact (Nat.add_le_add_right (attempts dirID gen) _).trans
    ((counts dirID gen).trans (history dirID gen))

/-- A failure goes on record, and is to be counted. -/
theorem CountsRecorded.fail (counts : s.CountsRecorded) (rec : s.Recorded) {p : Pipeline Import}
    (failed : s.pipeline.fail w = some p) {o : Outcome} (due : o ≠ .succeeded) :
    CountsRecorded { s.close w o with pipeline := p } := by
  intro dirID gen
  have before := counts dirID gen
  obtain ⟨dir, x, entry, found, parsing, rfl⟩ := rec.entry_of_fail failed
  have none_ : x.failing = none := by
    rcases parsing with rfl | ⟨files, rfl⟩ <;> rfl
  have record := countP_close (q := fun a => a.of dirID gen && a.isFailure) entry
    (isFailure_undecided dirID gen dir) o
  have waiting := countP_set_add (q := Worker.failsOn dirID gen) found (.failed dir)
  have failure : Attempt.isFailure ⟨dir, some o⟩ = true := by
    cases o <;> simp_all [Attempt.isFailure]
  rw [Worker.failsOn_of_none none_, Worker.failsOn_failed] at waiting
  simp only [failure, Bool.and_true, Attempt.of] at record
  simp only [uncounted, tally, close, Bool.false_eq_true, if_false, Attempt.of]
    at before waiting record ⊢
  omega

/-- Counting a failure. -/
theorem CountsRecorded.recordFailure (counts : s.CountsRecorded) {p : Pipeline Import}
    (h : s.pipeline.recordFailure w = some p) : CountsRecorded { s with pipeline := p } := by
  obtain ⟨dir, found, rfl⟩ := recordFailure_counts h
  intro dirID gen
  have before := counts dirID gen
  have waiting := countP_set_add (q := Worker.failsOn dirID gen) found
    (if maxParseAttempts ≤ (Pipeline.countFailure dir (s.pipeline.attempts dir.id)).failures then
      .givingUp dir else .redirtying dir)
  have silent : (if maxParseAttempts ≤
      (Pipeline.countFailure dir (s.pipeline.attempts dir.id)).failures then
        Worker.givingUp dir else .redirtying dir).failing = none := by
    split <;> rfl
  rw [Worker.failsOn_of_none silent, Worker.failsOn_failed] at waiting
  simp only [uncounted, tally, Bool.false_eq_true, if_false, decide_eq_true_eq] at before waiting ⊢
  by_cases own : dir.On dirID gen
  · obtain ⟨rfl, rfl⟩ := own
    rw [if_pos (show dir.On dir.id dir.lockedGeneration from ⟨rfl, rfl⟩)] at waiting
    rw [Function.update_self, (countFailure_at dir _).1]
    omega
  · rw [if_neg own] at waiting
    have less : (Function.update s.pipeline.attempts dir.id
        (Pipeline.countFailure dir (s.pipeline.attempts dir.id)) dirID).at gen ≤
          (s.pipeline.attempts dirID).at gen := by
      by_cases ofDir : dir.id = dirID
      · have other : dir.lockedGeneration ≠ gen := fun ofGen => own ⟨ofDir, ofGen⟩
        rw [← ofDir, Function.update_self, ParseAttempts.at, countFailure_generation, if_neg other]
        exact Nat.zero_le _
      · rw [Function.update_of_ne (Ne.symm ofDir)]
    omega

theorem step_countsRecorded {a : RunAction} (rec : s.Recorded) (counts : s.CountsRecorded)
    (h : s.step importOf a = some s') : s'.CountsRecorded := by
  have history : ∀ dirID gen, (s.tally dirID gen).failures ≤ (s'.tally dirID gen).failures :=
    fun dirID gen => step_countP rec h (isFailure_undecided dirID gen)
  cases a with
  | act a =>
    by_cases quiet : ∀ w, a ≠ .fail w ∧ a ≠ .recordFailure w
    · obtain ⟨_, p, taken, rfl⟩ := act_cases h
      refine counts.frame ?_ ?_ history
      · intro dirID gen
        by_cases silent : ∀ w, a ≠ .clearAttempts w ∧ a ≠ .recordFailure w
        · rw [step_attempts taken silent]
        · cases a with
          | clearAttempts w =>
            obtain ⟨dir, _, rfl⟩ := Pipeline.clearAttempts_cases taken
            simp only [Function.update_apply]
            split
            · simp [ParseAttempts.at]
            · exact le_refl _
          | recordFailure w => exact absurd rfl (quiet w).2
          | _ => simp at silent
      · intro dirID gen
        rcases Pipeline.step_quiet taken quiet with same | ⟨w, x, y, found, set, before, after, _⟩
        · simp only [uncounted, same]
        · have waiting := countP_set_add (q := Worker.failsOn dirID gen) found y
          rw [Worker.failsOn_of_none before, Worker.failsOn_of_none after, ← set] at waiting
          exact waiting
    · obtain ⟨_, p, taken, rfl⟩ := act_cases h
      cases a with
      | fail w => exact counts.fail rec taken (by simp)
      | recordFailure w => exact counts.recordFailure taken
      | _ => simp at quiet
  | failCancelled w =>
    obtain ⟨_, p, failed, rfl⟩ := failCancelled_cases h
    exact counts.fail rec failed (by simp)
  | claimLost picked =>
    obtain ⟨_, rfl⟩ := claimLost_cases h
    exact counts.frame (fun _ _ => le_refl _) (fun _ _ => rfl) history
  | cancel =>
    cases h
    exact counts
  | dispatcherReturns =>
    obtain ⟨_, rfl⟩ := dispatcherReturns_cases h
    exact counts
  | workerReturns w =>
    obtain ⟨_, rfl⟩ := workerReturns_cases h
    exact counts

/-! ### Claims that are out -/

/-- The claim with this number is queued, or with a worker. -/
def Out (s : PipelineRun Import) (i : Nat) : Prop :=
  i ∈ s.pending ∨ ∃ w x, s.pipeline.workers[w]? = some x ∧ x.claim.isSome ∧ s.serial w = i

/-- No claim was taken on a dir while an earlier one is out. -/
def Latest (s : PipelineRun Import) : Prop :=
  ∀ i a, s.Out i → s.history[i]? = some a → s.IsLatest i a.dir.id

theorem held_of_out (rec : s.Recorded) {i : Nat} (out : s.Out i) :
    ∃ a, s.history[i]? = some a ∧ a.dir ∈ s.pipeline.held := by
  rcases out with queued_ | ⟨w, x, found, claim, rfl⟩
  · have entry : s.history[i]? ∈ (queued s.pipeline).map fun c => some (⟨c, none⟩ : Attempt) := by
      rw [← rec.queue]
      exact List.mem_map_of_mem queued_
    obtain ⟨c, hc, found⟩ := List.mem_map.mp entry
    refine ⟨⟨c, none⟩, found.symm, ?_⟩
    simp only [queued, List.mem_append] at hc
    simp only [Pipeline.held, List.mem_append]
    exact .inl hc.symm
  · obtain ⟨c, own⟩ := Option.isSome_iff_exists.mp claim
    obtain ⟨o, entry, _⟩ := rec.working w x c found own
    exact ⟨⟨c, o⟩, entry, Pipeline.mem_held found own⟩

theorem Out.of_same {i : Nat} (out : s'.Out i) (workers : s'.pipeline.workers = s.pipeline.workers)
    (pending : s'.pending = s.pending) (serial : s'.serial = s.serial) : s.Out i := by
  unfold Out at out
  rw [workers, pending, serial] at out
  exact out

/-- A worker goes on with its claim or gives it up. -/
theorem Out.of_goes {i : Nat} (out : s'.Out i) {x y : Worker} {o : Option Outcome}
    (found : s.pipeline.workers[w]? = some x) (goes : x.Goes y o)
    (workers : s'.pipeline.workers = s.pipeline.workers.set w y)
    (pending : s'.pending = s.pending) (serial : s'.serial = s.serial) : s.Out i := by
  rcases out with queued_ | ⟨v, z, at_, claim, own⟩
  · exact .inl (pending ▸ queued_)
  · rw [workers] at at_
    rw [serial] at own
    rcases getElem?_set_cases at_ with ⟨rfl, rfl⟩ | ⟨_, old⟩
    · obtain ⟨c, hc⟩ := Option.isSome_iff_exists.mp claim
      exact .inr ⟨v, x, found, by rw [goes.claim c hc]; rfl, own⟩
    · exact .inr ⟨v, z, old, claim, own⟩

/-- A claim that is out was out before, or is new. -/
theorem step_out {a : RunAction} (rec : s.Recorded) (h : s.step importOf a = some s') {i : Nat}
    (out : s'.Out i) : s.Out i ∨ s.history.length ≤ i := by
  cases a with
  | act a =>
    obtain ⟨_, p, taken, rfl⟩ := act_cases h
    cases acts : a.worker with
    | some w =>
      obtain ⟨x, y, found, workers, _, goes⟩ := Pipeline.step_worker taken acts
      refine .inl (out.of_goes found goes workers ?_ ?_)
      · cases a <;> cases acts <;> rfl
      · cases a <;> cases acts <;> rfl
    | none =>
      by_cases aside : a.aside = true
      · rw [note_of_aside aside] at out
        exact .inl (out.of_same (Pipeline.step_aside taken aside).1 rfl rfl)
      · cases a with
        | dirtyDirs picked =>
          rcases out with queued_ | working
          · rcases List.mem_append.mp queued_ with old | new
            · exact .inl (.inl old)
            · exact .inr (List.mem_range'_1.mp new).1
          · rw [(Pipeline.queued_dirtyDirs taken).1] at working
            exact .inl (.inr working)
        | send => exact .inl (out.of_same (Pipeline.queued_send taken).1 rfl rfl)
        | receive w =>
          obtain ⟨c, idle, workers, queue⟩ := Pipeline.queued_receive taken
          left
          rcases out with queued_ | ⟨v, z, at_, claim, own⟩
          · exact .inl (List.mem_of_mem_tail queued_)
          · rw [workers] at at_
            rcases getElem?_set_cases at_ with ⟨rfl, rfl⟩ | ⟨apart, old⟩
            · have numbers := congrArg List.length rec.queue
              rw [queue] at numbers
              simp only [note, Function.update_self] at own
              cases order : s.pending with
              | nil => simp [order] at numbers
              | cons first rest =>
                rw [order] at own
                exact .inl (by rw [order, ← own]; exact List.mem_cons_self)
            · simp only [note, Function.update_of_ne apart] at own
              exact .inr ⟨v, z, old, claim, own⟩
        | _ => first | exact absurd rfl aside | cases acts
  | claimLost picked =>
    obtain ⟨_, rfl⟩ := claimLost_cases h
    exact .inl (out.of_same rfl rfl rfl)
  | failCancelled w =>
    obtain ⟨_, p, failed, rfl⟩ := failCancelled_cases h
    have taken : s.pipeline.step importOf (.fail w) = some p := failed
    obtain ⟨x, y, found, workers, _, goes⟩ := Pipeline.step_worker taken rfl
    exact .inl (out.of_goes found goes workers rfl rfl)
  | cancel =>
    cases h
    exact .inl out
  | dispatcherReturns =>
    obtain ⟨_, rfl⟩ := dispatcherReturns_cases h
    exact .inl out
  | workerReturns w =>
    obtain ⟨_, rfl⟩ := workerReturns_cases h
    exact .inl out

/-- No claim is taken. -/
theorem Latest.of_dirs (latest : s.Latest)
    (dirs : s'.history.map Attempt.dir = s.history.map Attempt.dir)
    (outs : ∀ i, s'.Out i → s.Out i ∨ s.history.length ≤ i) : s'.Latest := by
  intro i a' out at_
  have entry := congrArg (fun l => l[i]?) dirs
  simp only [List.getElem?_map, at_, Option.map_some] at entry
  obtain ⟨old, found, same⟩ := Option.map_eq_some_iff.mp entry.symm
  have was : s.Out i := by
    refine (outs i out).resolve_right fun new => ?_
    rw [List.getElem?_eq_none_iff.mpr new] at found
    cases found
  rw [← same]
  unfold IsLatest
  rw [dirs]
  exact latest i old was found

/-- What is claimed was not out, since what is out is locked. -/
theorem Latest.of_taken (latest : s.Latest) (rec : s.Recorded) (claims : s.pipeline.Claims)
    {picked : List UUID} (picks : s.pipeline.tables.Picks s.pipeline.workers.length picked)
    (history : s'.history = s.history ++ s.taken picked)
    (outs : ∀ i, s'.Out i → s.Out i ∨ s.history.length ≤ i) : s'.Latest := by
  intro i a' out at_
  obtain ⟨ids, _, _⟩ := Pipeline.dirtyDirs_claim claims.wellFormed picks
  have taken_ : (s.taken picked).map Attempt.dir = (s.pipeline.tables.dirtyDirs picked).2 := by
    rw [taken, List.map_map]
    exact List.map_id _
  unfold IsLatest
  rw [history] at at_
  rw [history, List.map_append, taken_, List.drop_append, List.length_map]
  rcases outs i out with was | new
  · obtain ⟨old, found, held⟩ := held_of_out rec was
    have inside := (List.getElem?_eq_some_iff.mp found).1
    rw [List.getElem?_append_left inside, found] at at_
    cases at_
    intro c hc same
    rcases List.mem_append.mp hc with before | added
    · exact latest i a' was found c before same
    · apply claims.fresh picks a'.dir held
      rw [← same, ← ids]
      exact List.mem_map_of_mem (List.mem_of_mem_drop added)
  · rw [List.getElem?_append_right new] at at_
    have own : ((s.pipeline.tables.dirtyDirs picked).2)[i - s.history.length]? = some a'.dir := by
      rw [← taken_, List.getElem?_map, at_]
      rfl
    have none_ : (s.history.map Attempt.dir).drop (i + 1) = [] :=
      List.drop_eq_nil_of_le (by rw [List.length_map]; omega)
    have behind : i + 1 - s.history.length = i - s.history.length + 1 := by omega
    rw [none_, List.nil_append, behind]
    have apart := picks.1
    rw [← ids] at apart
    exact notMem_drop_of_nodup apart own

theorem step_latest {a : RunAction} (rec : s.Recorded) (claims : s.pipeline.Claims)
    (latest : s.Latest) (h : s.step importOf a = some s') : s'.Latest := by
  have outs : ∀ i, s'.Out i → s.Out i ∨ s.history.length ≤ i := fun _ out => step_out rec h out
  rcases step_claims h with dirs | ⟨picked, _, picks, history⟩
  · exact latest.of_dirs dirs outs
  · exact latest.of_taken rec claims picks history outs

/-! ### What keeps the work -/

/-- A scan begins while no claim on its location is out, and a failure is counted as the last
one only if no failure of its dir at that generation is due to the cancellation. -/
def CountsTruly (s : PipelineRun Import) (a : RunAction) : Prop :=
  (∀ b ∈ a.action, s.pipeline.BeginsUnheld b) ∧
    ∀ w ∈ a.counts, ∀ x ∈ s.pipeline.workers[w]?, ∀ dir ∈ x.failing,
      maxParseAttempts ≤ (s.pipeline.attempts dir.id).at dir.lockedGeneration + 1 →
        ∀ at_ ∈ s.history, at_.dir.On dir.id dir.lockedGeneration → at_.outcome ≠ some .canceled

instance (s : PipelineRun Import) (a : RunAction) : Decidable (s.CountsTruly a) :=
  inferInstanceAs (Decidable ((∀ b ∈ a.action, _) ∧ ∀ w ∈ a.counts, ∀ x ∈ s.pipeline.workers[w]?,
    ∀ dir ∈ x.failing, _))

structure Guarded (s : PipelineRun Import) : Prop where
  accounted : s.Accounted
  claims : s.pipeline.Claims
  counts : s.CountsRecorded
  latest : s.Latest
  exhausted : ∀ (w : Nat) (dir : ClaimedDir), s.pipeline.workers[w]? = some (.givingUp dir) →
    maxParseAttempts ≤ s.realFailures dir.id dir.lockedGeneration

theorem step_pipelineClaims {a : RunAction} (claims : s.pipeline.Claims)
    (unheld : ∀ b ∈ a.action, s.pipeline.BeginsUnheld b) (h : s.step importOf a = some s') :
    s'.pipeline.Claims := by
  cases a with
  | act b =>
    obtain ⟨_, p, taken, rfl⟩ := act_cases h
    exact Pipeline.step_claims claims (unheld b rfl) taken
  | claimLost picked =>
    obtain ⟨picks, rfl⟩ := claimLost_cases h
    exact claims.lose picks
  | failCancelled w =>
    obtain ⟨_, p, failed, rfl⟩ := failCancelled_cases h
    have taken : s.pipeline.step importOf (.fail w) = some p := failed
    refine Pipeline.step_claims claims (fun c hc resets_ => ?_) taken
    cases resets_
  | cancel =>
    cases h
    exact claims
  | dispatcherReturns =>
    obtain ⟨_, rfl⟩ := dispatcherReturns_cases h
    exact claims
  | workerReturns w =>
    obtain ⟨_, rfl⟩ := workerReturns_cases h
    exact claims

/-- If no failure is due to the cancellation, all on record are real. -/
theorem realFailures_eq
    (real : ∀ a ∈ s.history, a.dir.On dirID gen → a.outcome ≠ some .canceled) :
    s.realFailures dirID gen = (s.tally dirID gen).failures := by
  refine List.countP_congr fun a ha => ?_
  simp only [Attempt.of, Attempt.isFailure, Bool.and_eq_true, decide_eq_true_eq]
  constructor
  · exact fun failed => ⟨⟨failed.1, failed.2.1⟩, .inl failed.2.2⟩
  · exact fun failed => ⟨failed.1.1, failed.1.2, failed.2.resolve_right (real a ha failed.1)⟩

/-- The worker gives up now, or it did before. -/
theorem step_givingUp {a : RunAction} (h : s.step importOf a = some s') {dir : ClaimedDir}
    (givesUp : s'.pipeline.workers[w]? = some (.givingUp dir)) :
    s.pipeline.workers[w]? = some (.givingUp dir) ∨
      a = .act (.recordFailure w) ∧ s.pipeline.workers[w]? = some (.failed dir) ∧
        maxParseAttempts ≤ (Pipeline.countFailure dir (s.pipeline.attempts dir.id)).failures := by
  have failed : ∀ {v : Nat} {p : Pipeline Import}, s.pipeline.fail v = some p →
      p.workers[w]? = some (.givingUp dir) → s.pipeline.workers[w]? = some (.givingUp dir) := by
    intro v p failed givesUp
    obtain ⟨c, _, rfl⟩ := Pipeline.fail_cases failed
    rcases getElem?_set_cases givesUp with ⟨_, wrong⟩ | ⟨_, old⟩
    · cases wrong
    · exact old
  cases a with
  | act a =>
    obtain ⟨_, p, taken, rfl⟩ := act_cases h
    by_cases quiet : ∀ w, a ≠ .fail w ∧ a ≠ .recordFailure w
    · left
      rcases Pipeline.step_quiet taken quiet with same | ⟨v, x, y, found, set, _, _, calm⟩
      · rwa [same] at givesUp
      · rw [set] at givesUp
        rcases getElem?_set_cases givesUp with ⟨_, wrong⟩ | ⟨_, old⟩
        · rw [← wrong] at calm
          cases calm
        · exact old
    · cases a with
      | fail v => exact .inl (failed taken givesUp)
      | recordFailure v =>
        obtain ⟨c, found, rfl⟩ := recordFailure_counts taken
        rcases getElem?_set_cases givesUp with ⟨rfl, next⟩ | ⟨_, old⟩
        · split at next
          · rename_i enough
            cases next
            exact .inr ⟨rfl, found, enough⟩
          · cases next
        · exact .inl old
      | _ => simp at quiet
  | failCancelled v =>
    obtain ⟨_, p, canceled, rfl⟩ := failCancelled_cases h
    exact .inl (failed canceled givesUp)
  | claimLost picked =>
    obtain ⟨_, rfl⟩ := claimLost_cases h
    exact .inl givesUp
  | cancel =>
    cases h
    exact .inl givesUp
  | dispatcherReturns =>
    obtain ⟨_, rfl⟩ := dispatcherReturns_cases h
    exact .inl givesUp
  | workerReturns v =>
    obtain ⟨_, rfl⟩ := workerReturns_cases h
    exact .inl givesUp

/-- A worker gives up after as many real failures: what it has counted is on record. -/
theorem Guarded.exhausted_of_count (guarded : s.Guarded) {dir : ClaimedDir}
    (truly : s.CountsTruly (.act (.recordFailure w)))
    (found : s.pipeline.workers[w]? = some (.failed dir))
    (enough : maxParseAttempts ≤
      (Pipeline.countFailure dir (s.pipeline.attempts dir.id)).failures) :
    maxParseAttempts ≤ s.realFailures dir.id dir.lockedGeneration := by
  obtain ⟨counted, same⟩ := countFailure_at dir (s.pipeline.attempts dir.id)
  rw [same, counted] at enough
  rw [realFailures_eq (truly.2 w rfl _ found dir rfl enough)]
  have recorded := guarded.counts dir.id dir.lockedGeneration
  have waiting : 0 < s.uncounted dir.id dir.lockedGeneration := by
    refine List.countP_pos_iff.mpr ⟨_, List.mem_of_getElem? found, ?_⟩
    rw [Worker.failsOn_failed]
    exact decide_eq_true ⟨rfl, rfl⟩
  omega

theorem start_guarded {t : ScanTables} (wf : t.WellFormed) (library : UUID → Import) (n : Nat) :
    (start t library n).Guarded := by
  have idle : ∀ x ∈ (start t library n).pipeline.workers, x = .idle :=
    fun x hx => List.eq_of_mem_replicate hx
  refine ⟨start_accounted wf library n, Pipeline.start_claims wf library n, ?_, ?_, ?_⟩
  · intro dirID gen
    have none_ : (start t library n).uncounted dirID gen = 0 := by
      refine List.countP_eq_zero.mpr fun x hx => ?_
      rw [idle x hx]
      exact Bool.false_ne_true
    have uncharged : ((start t library n).pipeline.attempts dirID).at gen = 0 := by
      exact ite_self 0
    rw [none_, uncharged]
    exact Nat.zero_le _
  · intro i a _ at_
    cases at_
  · intro w dir found
    cases idle _ (List.mem_of_getElem? found)

theorem step_guarded {a : RunAction} (guarded : s.Guarded) (truly : s.CountsTruly a)
    (h : s.step importOf a = some s') : s'.Guarded where
  accounted := step_accounted guarded.accounted h
  claims := step_pipelineClaims guarded.claims truly.1 h
  counts := step_countsRecorded guarded.accounted.recorded guarded.counts h
  latest := step_latest guarded.accounted.recorded guarded.claims guarded.latest h
  exhausted w dir givesUp := by
    refine le_trans ?_ (step_realFailures guarded.accounted.recorded h)
    rcases step_givingUp h givesUp with before | ⟨rfl, found, enough⟩
    · exact guarded.exhausted w dir before
    · exact guarded.exhausted_of_count truly found enough

/-- A release is of the latest claim on its dir. -/
theorem Guarded.releasesSafely (guarded : s.Guarded) (a : RunAction) : s.ReleasesSafely a := by
  intro w _ x found dir releasing
  have claim : x.claim = some dir := by
    rcases Pipeline.releasing_cases releasing with rfl | rfl <;> rfl
  obtain ⟨o, entry, _⟩ := guarded.accounted.recorded.working w x dir found claim
  refine .inr ⟨?_, ?_⟩
  · exact guarded.latest _ _ (.inr ⟨w, x, found, by rw [claim]; rfl, rfl⟩) entry
  · rintro rfl
    exact guarded.exhausted w dir found

/-- While scans begin beside no claim and no dir is given up on over a cancellation, a pipeline
that stops drops no work. -/
theorem shutdown_keeps_work (importOf : List File → Import) {t : ScanTables} (wf : t.WellFormed)
    (library : UUID → Import) (n : Nat) {as : List RunAction}
    (truly : StepsMeet (step importOf) CountsTruly (start t library n) as) :
    Along (step importOf) ShutdownKeeps (start t library n) as := by
  refine along_of_stepsMeet (I := fun s => s.Guarded ∧ s.Kept) ?_ ?_ ?_ truly
  · intro s a s' ⟨guarded, kept⟩ met h
    exact ⟨step_guarded guarded met h,
      step_kept guarded.accounted kept (guarded.releasesSafely a) h⟩
  · exact fun s ⟨_, kept⟩ _ _ => kept
  · refine ⟨start_guarded wf library n, ?_⟩
    intro row _ i a at_
    cases at_

/-! ### A claim that fails because the context is cancelled -/

/-- The context is cancelled during another parse of the dir. -/
def cancelledAttempt (release : Action) : List RunAction :=
  [.act (.dirtyDirs [10]), .act .send, .act (.receive 0), .cancel, .failCancelled 0,
    .act (.recordFailure 0), .act release]

/-- The cancellation counts as the second failure. -/
def cancelledSecond : List RunAction :=
  failedAttempt ++ cancelledAttempt (.releaseAndRedirty 0) ++
    [.act (.skipRetry 0), .workerReturns 0, .dispatcherReturns]

theorem cancelledSecond_keepsWork : Along (step id) ShutdownKeeps oneWorker cancelledSecond ∧
    (run (step id) oneWorker cancelledSecond).any (fun s => s.cancelled ∧ s.Stopped) = true :=
  ⟨shutdown_keeps_work id Pipeline.oneDirty_wellFormed (fun _ => []) 1 (by decide), by decide⟩

/-- The cancellation counts as the third failure, and the dir is given up on. -/
theorem cancelledThird_dropsWork :
    ¬ ∀ (t : ScanTables) (library : UUID → List File) (n : Nat) (as : List RunAction),
      t.WellFormed → Along (step id) ShutdownKeeps (start t library n) as := by
  intro keeps
  have along := keeps Pipeline.oneDirty (fun _ => []) 1
    (failedAttempt ++ failedAttempt ++ cancelledAttempt (.releaseDir 0) ++ [.workerReturns 0])
    Pipeline.oneDirty_wellFormed
  have reaches : (run (step id) oneWorker
      (failedAttempt ++ failedAttempt ++ cancelledAttempt (.releaseDir 0) ++
        [.workerReturns 0])).map (fun s => (s.cancelled, decide s.Stopped,
          s.pipeline.tables.dirs, s.history)) =
      some (true, true, [⟨10, 1, ["Album"], 1, false, false, none⟩],
        [⟨⟨10, ["Album"], 1, 1⟩, some .failed⟩, ⟨⟨10, ["Album"], 1, 1⟩, some .failed⟩,
          ⟨⟨10, ["Album"], 1, 1⟩, some .canceled⟩]) := by decide
  obtain ⟨s, ran, facts⟩ := Option.map_eq_some_iff.mp reaches
  simp only [Prod.mk.injEq, decide_eq_true_eq] at facts
  obtain ⟨cancelled, stopped, dirs, history⟩ := facts
  have kept : s.Kept := along.last ran cancelled stopped
  have waits := kept ⟨10, 1, ["Album"], 1, false, false, none⟩ (by simp [dirs]) 2
    ⟨⟨10, ["Album"], 1, 1⟩, some .canceled⟩ (by simp [history]) rfl
    (by simp [IsLatest, history]) (by decide) (by simp [realFailures, history, maxParseAttempts])
  exact absurd waits (by decide)

end PipelineRun

end Byom.Metadata
