import Byom.Scan.SyncGroup

/-!
# The drain barrier

`g.Wait` returns nil only after every walked dir the merger emitted was committed
by one `SyncDir`, so nothing the walk saw is swept as missing. Along the way,
`Walking` says what is left of the walk at every point of it.
-/

namespace Byom.Scan

open Storage Relational Concurrency

namespace Sync

/-- The merger has seen what the walk is done with. -/
structure Walking (tree : Tree) (s : Sync) : Prop where
  ahead : (s.steps.filterMap WalkStep.result).foldl (mergeStep s.order)
    ⟨s.group.offered, s.pending⟩ = walk s.order tree
  through : s.group.producer = .closing none ∨ s.group.producer = .returned none → s.steps = []

/-- `sync` has called `Sweep` only after a wait without an error, and only then does
it return nil. -/
structure Inv (tree : Tree) (s : Sync) : Prop where
  sound : s.group.Sound
  staffed : s.group.workers ≠ []
  room : 0 < s.group.capacity
  walking : s.Walking tree
  called : s.sweepCalled = true → s.group.waited = some none
  uncalled : s.sweepCalled = false → s.stage = .waiting ∨ ∃ e, s.stage = .returned (some e)
  after : s.sweepCalled = true → (∃ executed, s.stage = .sweeping executed) ∨
    s.stage = .returned none
  swept : s.swept = true → s.sweepCalled = true ∧ s.stage = .returned none

variable {s s' : Sync} {a : SyncAction} {tree : Tree}

theorem start_inv (order : MapOrder) (tree : Tree) (pool : WorkerPool) (cancelled : Bool) :
    (start order tree pool cancelled).Inv tree := by
  refine ⟨WorkGroup.start_sound .., ?_, pool.workerCount_pos, ⟨?_, ?_⟩, ?_, ?_, ?_, ?_⟩
  · have := pool.workerCount_pos
    simp [start, WorkGroup.start, Nat.ne_of_gt this]
  · simp only [start, WorkGroup.start, walkSteps_results]
    exact (walk_eq_foldl order tree).symm
  · simp [start, WorkGroup.start]
  all_goals simp [start]

theorem merged_of_isDisc {res : WalkResult} (disc : isDisc res.dir = true) :
    s.merged res = (s.pending.filter (fun old => old.dir ≠ res.dir) ++ [res], none) := by
  simp [merged, DiscMerger.process, disc]
  rfl

theorem merged_of_ordinary {res : WalkResult} (ordinary : ¬ isDisc res.dir = true) :
    s.merged res = (s.pending.filter fun disc => disc.dir.dir ≠ res.dir,
      some (DiscMerger.merge res (DiscMerger.folded s.order res.dir s.pending))) := by
  simp [merged, DiscMerger.process, ordinary]
  rfl

/-- The merger's map and output, after it is handed one more result. -/
theorem mergeStep_eq_merged (s : Sync) (res : WalkResult) (emitted : List WalkResult) :
    mergeStep s.order ⟨emitted, s.pending⟩ res =
      ⟨emitted ++ (s.merged res).2.toList, (s.merged res).1⟩ := by
  by_cases disc : isDisc res.dir = true
  · simp [mergeStep, merged_of_isDisc disc, disc]
  · simp [mergeStep, merged_of_ordinary disc, disc]

/-- Only an offer adds to what is offered. -/
theorem offered_of_group {g g' : WorkGroup WalkResult SyncProgress ScanError}
    {ev : Event WalkResult SyncProgress ScanError} (quiet : ∀ item, ev ≠ .offer item)
    (h : g.step ev = some g') : g'.offered = g.offered := by
  cases WorkGroup.moves_of_step h with
  | offer item producing => exact absurd rfl (quiet item)
  | _ => rfl

theorem plainEvent_ne_offer {ev : Event WalkResult SyncProgress ScanError}
    (event : plainEvent a = some ev) (item : WalkResult) : ev ≠ .offer item := by
  rintro rfl
  cases a <;> simp_all [plainEvent]

/-- The walk is only over without an error when nothing of it is left. -/
theorem Walking.group (walking : s.Walking tree) {g : WorkGroup WalkResult SyncProgress ScanError}
    {ev : Event WalkResult SyncProgress ScanError} {progress : Progress}
    (quiet : ∀ item, ev ≠ .offer item) (atEnd : ev = .produced none → s.steps = [])
    (h : s.group.step ev = some g) :
    Walking tree { s with group := g, progress := progress } := by
  refine ⟨?_, ?_⟩
  · simp only [offered_of_group quiet h]
    exact walking.ahead
  · intro ended
    have through := walking.through
    cases WorkGroup.moves_of_step h with
    | offer item producing => exact absurd rfl (quiet item)
    | produced err producing =>
      rcases ended with closing | returned
      · cases closing
        exact atEnd rfl
      · cases returned
    | closed err closing =>
      rcases ended with closing' | returned
      · cases closing'
      · cases returned
        exact through (.inl closing)
    | giveUp err item sending done =>
      rcases ended with closing | returned
      · cases closing
      · cases returned
    | send item sending room =>
      rcases ended with closing | returned
      · cases closing
      · cases returned
    | _ => exact through ended

theorem Inv.group (inv : s.Inv tree) {g : WorkGroup WalkResult SyncProgress ScanError}
    {ev : Event WalkResult SyncProgress ScanError} (h : s.group.step ev = some g)
    {steps : List WalkStep} {pending : List WalkResult} {progress : Progress}
    (walking : Walking tree
      { s with group := g, steps := steps, pending := pending, progress := progress }) :
    Inv tree { s with group := g, steps := steps, pending := pending, progress := progress } := by
  obtain ⟨capacity, workers⟩ := WorkGroup.step_sizes h
  refine ⟨WorkGroup.step_sound inv.sound h, ?_, ?_, walking, ?_, inv.uncalled, inv.after,
    inv.swept⟩
  · apply List.ne_nil_of_length_pos
    show 0 < g.workers.length
    rw [workers]
    exact List.length_pos_iff.mpr inv.staffed
  · show 0 < g.capacity
    rw [capacity]
    exact inv.room
  · intro called
    have waited := inv.called called
    obtain rfl := WorkGroup.cancel_of_waited waited h
    cases h
    exact waited

theorem Inv.onward (inv : s.Inv tree) {stage : Stage} {progress : Progress} {called swept : Bool}
    (calls : called = true → s.group.waited = some none)
    (uncalled : called = false → stage = .waiting ∨ ∃ e, stage = .returned (some e))
    (after : called = true → (∃ executed, stage = .sweeping executed) ∨ stage = .returned none)
    (done : swept = true → called = true ∧ stage = .returned none) :
    Inv tree
      { s with stage := stage, progress := progress, sweepCalled := called, swept := swept } :=
  { inv with
    walking := ⟨inv.walking.ahead, inv.walking.through⟩
    called := calls
    uncalled := uncalled
    after := after
    swept := done }

/-- `Sweep` only runs when it has been called. -/
theorem Inv.called_of_sweeping (inv : s.Inv tree) {executed : Bool}
    (sweeping : s.stage = .sweeping executed) : s.sweepCalled = true := by
  by_contra uncalled
  simpa [sweeping] using inv.uncalled (by simpa using uncalled)

theorem step_inv (inv : s.Inv tree) (h : s.step a = some s') : s'.Inv tree := by
  have walking := inv.walking
  cases moves_of_step h with
  | plain a event moved =>
    refine inv.group moved (walking.group (plainEvent_ne_offer event) ?_ moved)
    rintro rfl
    cases a <;> simp_all [plainEvent]
  | read dir rest next producing =>
    refine { inv with walking := ⟨?_, ?_⟩ }
    · have ahead := walking.ahead
      rw [next] at ahead
      exact ahead
    · simp [producing]
  | hold res rest next merged producing =>
    refine { inv with walking := ⟨?_, ?_⟩ }
    · have ahead := walking.ahead
      simp only [next, List.filterMap_cons, WalkStep.result, List.foldl_cons, mergeStep_eq_merged,
        merged] at ahead
      simpa using ahead
    · simp [producing]
  | emit res rest next merged moved =>
    refine inv.group moved ⟨?_, ?_⟩
    · have ahead := walking.ahead
      simp only [next, List.filterMap_cons, WalkStep.result, List.foldl_cons, mergeStep_eq_merged,
        merged] at ahead
      cases WorkGroup.moves_of_step moved
      simpa using ahead
    · cases WorkGroup.moves_of_step moved
      simp
  | walked next moved => exact inv.group moved (walking.group (by simp) (fun _ => next) moved)
  | load i known found active moved =>
    exact inv.group moved (walking.group (by simp) (by simp) moved)
  | write i found active moved => exact inv.group moved (walking.group (by simp) (by simp) moved)
  | commit i found moved => exact inv.group moved (walking.group (by simp) (by simp) moved)
  | waitNil waiting waited =>
    refine inv.onward (fun _ => waited) (by simp) (fun _ => .inl ⟨false, rfl⟩) ?_
    intro swept
    simpa [waiting] using (inv.swept swept).2
  | waitErr err waiting waited =>
    refine inv.onward inv.called (fun _ => .inr ⟨err, rfl⟩) ?_ ?_
    · intro called
      simpa [waiting] using inv.after called
    · intro swept
      simpa [waiting] using (inv.swept swept).2
  | execSweep sweeping active =>
    have called := inv.called_of_sweeping sweeping
    refine inv.onward inv.called (by simp [called]) (fun _ => .inl ⟨true, rfl⟩) ?_
    intro swept
    simpa [sweeping] using (inv.swept swept).2
  | commitSweep dirs files sweeping =>
    have called := inv.called_of_sweeping sweeping
    exact inv.onward inv.called (by simp [called]) (fun _ => .inr rfl) fun _ => ⟨called, rfl⟩
  | failSweep err executed sweeping =>
    have called := inv.called_of_sweeping sweeping
    exact inv.onward inv.called (by simp [called]) (fun _ => .inr rfl) fun _ => ⟨called, rfl⟩

/-- The walk is over without an error, and each result that the merger emitted was
committed by one `SyncDir`. -/
structure Drained (s : Sync) : Prop where
  walked : s.group.producer = .returned none
  committed : ∀ res ∈ s.group.offered, s.group.finished.count res = 1

theorem Inv.drained (inv : s.Inv tree) (called : s.sweepCalled = true) :
    s.Drained ∧ s.group.offered = (walk s.order tree).emitted := by
  obtain ⟨walked, same⟩ := inv.sound.drained inv.staffed (inv.called called)
  have all : s.group.offered = (walk s.order tree).emitted := by
    have ahead := inv.walking.ahead
    rw [inv.walking.through (.inr walked)] at ahead
    exact congrArg Walk.emitted ahead
  refine ⟨⟨walked, ?_⟩, all⟩
  intro res hres
  have once : s.group.offered.Nodup := by
    rw [all]
    exact (emitted_dir_unique s.order tree).of_map
  rw [same.count_eq, List.count_eq_one_of_mem once hres]

def progressWork : SyncProgress → Nat
  | .taken => 2
  | .loaded _ => 1
  | .writing _ => 0

def stageWork : Stage → Nat
  | .waiting => 3
  | .sweeping executed => if executed then 1 else 2
  | .returned _ => 0

/-- A bound on the steps until `sync` has returned. -/
def work (s : Sync) : Nat :=
  s.group.work 2 progressWork + 6 * s.steps.length + stageWork s.stage

theorem group_work {g g' : WorkGroup WalkResult SyncProgress ScanError}
    {ev : Event WalkResult SyncProgress ScanError} (h : g.step ev = some g')
    (quiet : ∀ item, ev ≠ .offer item) (going : ev ≠ .cancel)
    (taken : ∀ i here, ev = .receive i here → here = .taken)
    (advances : ∀ i here item old, ev = .advance i here →
      g.workers[i]? = some (.working item old) → progressWork here < progressWork old) :
    g'.work 2 progressWork < g.work 2 progressWork := by
  have cheap : ∀ i here, ev = .receive i here → progressWork here ≤ 2 := by
    intro i here receive
    rw [taken i here receive]
    exact Nat.le_refl 2
  rcases WorkGroup.step_work 2 progressWork h cheap advances with
    ⟨cancel, _⟩ | ⟨item, offer, _⟩ | less
  · exact absurd cancel going
  · exact absurd offer (quiet item)
  · exact less

theorem step_work (h : s.step a = some s') :
    s'.work + (if a ≠ .cancel then 1 else 0) ≤ s.work := by
  cases moves_of_step h with
  | plain a event moved =>
    by_cases stops : a = .cancel
    · subst stops
      cases event
      cases WorkGroup.moves_of_step moved
      exact Nat.le_refl _
    · have less := group_work moved (plainEvent_ne_offer event) ?_ ?_ ?_
      · simp only [work, ne_eq, stops, not_false_eq_true, if_true]
        omega
      · rintro rfl
        cases a <;> simp_all [plainEvent]
      · rintro i here rfl
        cases a <;> simp_all [plainEvent]
      · rintro i here item old rfl
        cases a <;> simp_all [plainEvent]
  | read dir rest next producing =>
    simp only [work, next, List.length_cons]
    simp only [ne_eq, reduceCtorEq, not_false_eq_true, if_true]
    omega
  | hold res rest next merged producing =>
    simp only [work, next, List.length_cons]
    simp only [ne_eq, reduceCtorEq, not_false_eq_true, if_true]
    omega
  | emit res rest next merged moved =>
    rcases WorkGroup.step_work 2 progressWork moved (by simp) (by simp) with
      ⟨cancel, _⟩ | ⟨item, _, more⟩ | less
    · cases cancel
    all_goals
      simp only [work, next, List.length_cons]
      simp only [ne_eq, reduceCtorEq, not_false_eq_true, if_true]
      omega
  | walked next moved =>
    have less := group_work moved (by simp) (by simp) (by simp) (by simp)
    simp only [work, ne_eq, reduceCtorEq, not_false_eq_true, if_true]
    omega
  | load i known found active moved =>
    have less := group_work moved (by simp) (by simp) (by simp) ?_
    · simp only [work, ne_eq, reduceCtorEq, not_false_eq_true, if_true]
      omega
    · intro j here item old advance found'
      cases advance
      rw [found] at found'
      cases found'
      exact Nat.lt_succ_self 1
  | write i found active moved =>
    have less := group_work moved (by simp) (by simp) (by simp) ?_
    · simp only [work, ne_eq, reduceCtorEq, not_false_eq_true, if_true]
      omega
    · intro j here item old advance found'
      cases advance
      rw [found] at found'
      cases found'
      exact Nat.zero_lt_one
  | commit i found moved =>
    have less := group_work moved (by simp) (by simp) (by simp) (by simp)
    simp only [work, ne_eq, reduceCtorEq, not_false_eq_true, if_true]
    omega
  | waitNil waiting waited => simp [work, waiting, stageWork]
  | waitErr err waiting waited => simp [work, waiting, stageWork]
  | execSweep sweeping active => simp [work, sweeping, stageWork]
  | commitSweep dirs files sweeping => simp [work, sweeping, stageWork]
  | failSweep err executed sweeping => cases executed <;> simp [work, sweeping, stageWork]

theorem onGroup_isSome {ev : Event WalkResult SyncProgress ScanError}
    (can : (s.group.step ev).isSome) : ∃ s', s.onGroup ev = some s' := by
  obtain ⟨g, moved⟩ := Option.isSome_iff_exists.mp can
  exact ⟨{ s with group := g }, by simp [onGroup, moved]⟩

/-- The walking goroutine is never stuck before the select in `emit`. -/
theorem exists_walk (producing : s.group.producer = .producing) :
    ∃ a s', a ≠ .cancel ∧ s.step a = some s' := by
  cases next : s.steps with
  | nil =>
    refine ⟨.walked, ?_⟩
    simp [step, walked, next, onGroup, WorkGroup.step, producing]
  | cons call rest =>
    cases call with
    | readDir dir =>
      refine ⟨.readDir none, ?_⟩
      simp [step, readDir, next, producing]
    | process res =>
      refine ⟨.process, ?_⟩
      cases merged : s.merged res with
      | mk pending emitted =>
        cases emitted with
        | none => simp [step, process, next, merged, producing]
        | some emitted => simp [step, process, next, merged, onGroup, WorkGroup.step, producing]

/-- Until `sync` has returned, one of its goroutines can take a step. -/
theorem Inv.exists_action (inv : s.Inv tree) (going : ∀ err, s.stage ≠ .returned err) :
    ∃ a s', a ≠ .cancel ∧ s.step a = some s' := by
  cases stage : s.stage with
  | returned err => exact absurd stage (going err)
  | sweeping executed => exact ⟨.failSweep .canceled, _, by simp, by simp only [step, stage]; rfl⟩
  | waiting =>
    cases waited : s.group.waited with
    | some err =>
      cases err with
      | none => exact ⟨.wait, _, by simp, by simp only [step, wait, stage, waited]; rfl⟩
      | some err => exact ⟨.wait, _, by simp, by simp only [step, wait, stage, waited]; rfl⟩
    | none =>
      rcases inv.sound.canProceed inv.staffed inv.room waited .taken .canceled with
        producing | ⟨i, item, here, found⟩ | can | can | can | ⟨i, can | can⟩
      · exact exists_walk producing
      -- A call of the store returns, with an error if nothing else.
      · refine ⟨.fail i .canceled, ?_⟩
        simp [step, onGroup, WorkGroup.step, found]
      · obtain ⟨s', moved⟩ := onGroup_isSome can
        exact ⟨.send, s', by simp, moved⟩
      · obtain ⟨s', moved⟩ := onGroup_isSome can
        exact ⟨.giveUp, s', by simp, moved⟩
      · obtain ⟨s', moved⟩ := onGroup_isSome can
        exact ⟨.closed, s', by simp, moved⟩
      · obtain ⟨s', moved⟩ := onGroup_isSome can
        exact ⟨.receive i, s', by simp, moved⟩
      · obtain ⟨s', moved⟩ := onGroup_isSome can
        exact ⟨.drain i, s', by simp, moved⟩

theorem run_inv {order : MapOrder} {pool : WorkerPool} {cancelled : Bool} {acts : List SyncAction}
    (ran : Transition.run step (start order tree pool cancelled) acts = some s) :
    s.Inv tree ∧ s.order = order := by
  refine Transition.invariant_of_run (I := fun s => s.Inv tree ∧ s.order = order) ?_
    ⟨start_inv order tree pool cancelled, rfl⟩ ran
  rintro s a s' ⟨inv, same⟩ h
  refine ⟨step_inv inv h, ?_⟩
  rw [← same]
  cases moves_of_step h <;> rfl

/-- `Sweep` is only called when the group drained, `sync` returns an error otherwise,
and every run of its goroutines comes to its end. -/
theorem sync_drainBarrier (order : MapOrder) (tree : Tree) (pool : WorkerPool) (cancelled : Bool)
    {acts : List SyncAction}
    (ran : Transition.run step (start order tree pool cancelled) acts = some s) :
    (s.sweepCalled = true → s.Drained ∧ s.group.offered = (walk order tree).emitted) ∧
      (∀ err, s.stage = .returned err → ¬ s.Drained → s.sweepCalled = false ∧ err ≠ none) ∧
      acts.countP (fun a => a ≠ .cancel) ≤ (start order tree pool cancelled).work ∧
      ((∀ a, a ≠ .cancel → s.step a = none) → ∃ err, s.stage = .returned err) := by
  obtain ⟨inv, rfl⟩ := run_inv ran
  refine ⟨inv.drained, ?_, ?_, ?_⟩
  · intro err returned notDrained
    have uncalled : s.sweepCalled = false := by
      by_contra called
      exact notDrained (inv.drained (by simpa using called)).1
    refine ⟨uncalled, ?_⟩
    rcases inv.uncalled uncalled with waiting | ⟨e, failed⟩
    · rw [returned] at waiting
      cases waiting
    · rw [returned] at failed
      cases failed
      simp
  · have bound := Transition.countP_le_of_run (I := fun _ => True)
      (fun a => decide (a ≠ SyncAction.cancel)) work (fun _ _ _ _ _ => trivial)
      (fun _ _ _ _ h => by simpa using step_work h) trivial ran
    omega
  · intro stuck
    by_contra going
    obtain ⟨a, s', real, moved⟩ := inv.exists_action fun err returned => going ⟨err, returned⟩
    rw [stuck a real] at moved
    cases moved

/-- A root with one folder in it. -/
def oneFolder : Tree := ⟨.dir "a" .nil .nil, by decide⟩

/-- Two workers sync the two dirs side by side, and the sweep is called. -/
def sideBySide : List SyncAction :=
  [.readDir none, .readDir none, .process, .send, .receive 1, .process, .send, .receive 0,
    .load 0 [], .load 1 [], .walked, .write 0, .closed, .write 1, .commit 1, .drain 1, .commit 0,
    .drain 0, .wait]

theorem sideBySide_drains :
    ∃ s, Transition.run step (start .insertion oneFolder ⟨2, 8, by decide⟩ false) sideBySide =
      some s ∧ s.sweepCalled = true ∧ s.Drained := by
  have reaches : (Transition.run step (start .insertion oneFolder ⟨2, 8, by decide⟩ false)
      sideBySide).map sweepCalled = some true := by decide
  obtain ⟨s, ran, called⟩ := Option.map_eq_some_iff.mp reaches
  exact ⟨s, ran, called, ((sync_drainBarrier _ _ _ _ ran).1 called).1⟩

end Sync

end Byom.Scan
