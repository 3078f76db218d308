import Byom.Scan.Scanner

/-!
# What each action of a scan can do

One lemma for each action that can be refused: when it is enabled, and the state
it leads to. `step_successor` reads off what becomes of the scan of one location.
-/

namespace Byom.Scan

open Storage Relational Sqlite

/-- The location whose scan acts. -/
def Action.scanOf : Action → Option UUID
  | .start loc _ _ _ _ _ => some loc
  | .load loc _ => some loc
  | .commit loc _ _ _ => some loc
  | .sweep loc => some loc
  | .finish loc _ _ => some loc
  | _ => none

/-- The location a new scan starts for. -/
def Action.starts : Action → Option UUID
  | .start loc _ _ _ _ _ => some loc
  | _ => none

/-- What stays the same about a scan while it goes on. -/
structure SameScan (a b : ScanRun) : Prop where
  scanID : b.scanID = a.scanID
  gen : b.gen = a.gen
  force : b.force = a.force
  walked : b.walked = a.walked
  begun : b.begun = a.begun

theorem SameScan.refl (run : ScanRun) : SameScan run run := ⟨rfl, rfl, rfl, rfl, rfl⟩

theorem SameScan.trans {a b c : ScanRun} (first : SameScan a b) (second : SameScan b c) :
    SameScan a c :=
  ⟨second.scanID.trans first.scanID, second.gen.trans first.gen, second.force.trans first.force,
    second.walked.trans first.walked, second.begun.trans first.begun⟩

namespace Scanner

variable {s s' : Scanner} {loc : UUID} {run : ScanRun}

theorem active_eq_some_iff :
    s.active loc = some run ↔ s.byLoc loc = some run ∧ run.inFlight = true :=
  Option.filter_eq_some_iff

theorem active_some (h : s.active loc = some run) : s.byLoc loc = some run :=
  (active_eq_some_iff.mp h).1

theorem drained_iff : run.drained = true ↔ run.queue = [] ∧ run.loaded = [] := by
  simp [ScanRun.drained]

@[simp] theorem setRun_tables (s : Scanner) (loc : UUID) (t : ScanTables) (run : ScanRun) :
    (s.setRun loc t run).tables = t := rfl

theorem setRun_byLoc (s : Scanner) (loc loc' : UUID) (t : ScanTables) (run : ScanRun) :
    (s.setRun loc t run).byLoc loc' = if loc' = loc then some run else s.byLoc loc' := by
  simp [setRun, Function.update_apply]

theorem start_cases {now : Int} {scanID : UUID} {force : Bool} {order : MapOrder} {tree : Tree}
    (h : s.start loc now scanID force order tree = some s') :
    s.active loc = none ∧ ∃ t gen, s.tables.beginScan now scanID loc = .ok (t, gen) ∧
      s' = s.setRun loc t ⟨scanID, gen, force, (walk order tree).emitted,
        (walk order tree).emitted, [], [], false, true, ⟨0, 0, 0, 0⟩, s.tables⟩ := by
  unfold start at h
  split at h
  · cases h
  · rename_i idle
    refine ⟨by simpa using idle, ?_⟩
    cases began : s.tables.beginScan now scanID loc with
    | error e => simp [began] at h
    | ok result =>
      obtain ⟨t, gen⟩ := result
      simp only [began, Option.some.injEq] at h
      exact ⟨t, gen, rfl, h.symm⟩

theorem load_cases {i : Nat} (h : s.load loc i = some s') :
    ∃ run res, s.active loc = some run ∧ run.queue[i]? = some res ∧
      s' = s.setRun loc s.tables { run with
        queue := run.queue.eraseIdx i
        loaded := (res, knownIn loc res.dir s.tables) :: run.loaded } := by
  obtain ⟨run, active, rest⟩ := Option.bind_eq_some_iff.mp h
  obtain ⟨res, taken, done⟩ := Option.bind_eq_some_iff.mp rest
  cases done
  exact ⟨run, res, active, taken, rfl⟩

/-- The counters of a scan after a commit. -/
def committedProgress (res : WalkResult) (known : List File) (p : Progress) : Progress :=
  { p with
    dirsSeen := p.dirsSeen + 1
    filesSeen := p.filesSeen + res.files.length
    filesMissing := p.filesMissing + (computeChangeset known res).2.1.length }

/-- The counters after the sweep of a generation. -/
def sweptProgress (loc : UUID) (gen : Int) (t : ScanTables) (p : Progress) : Progress :=
  { p with
    dirsMissing := p.dirsMissing + (t.sweep loc gen).2.1
    filesMissing := p.filesMissing + (t.sweep loc gen).2.2 }

theorem commit_cases {i : Nat} {newDirID : UUID} {newFileID : Path → UUID}
    (h : s.commit loc i newDirID newFileID = some s') :
    ∃ run res known t d, s.active loc = some run ∧ run.loaded[i]? = some (res, known) ∧
      s.tables.syncDir newDirID newFileID (syncPayload loc run.gen run.force known res) =
        .ok (t, d) ∧
      s' = s.setRun loc t { run with
        loaded := run.loaded.eraseIdx i
        synced := res :: run.synced
        progress := committedProgress res known run.progress } := by
  obtain ⟨run, active, rest⟩ := Option.bind_eq_some_iff.mp h
  obtain ⟨⟨res, known⟩, taken, done⟩ := Option.bind_eq_some_iff.mp rest
  simp only at done
  cases synced : s.tables.syncDir newDirID newFileID
      (syncPayload loc run.gen run.force known res) with
  | error e => simp [synced] at done
  | ok result =>
    obtain ⟨t, d⟩ := result
    simp only [synced, Option.pure_def, Option.some.injEq] at done
    exact ⟨run, res, known, t, d, active, taken, synced, done.symm⟩

theorem sweep_cases (h : s.sweep loc = some s') :
    ∃ run, s.active loc = some run ∧ run.drained = true ∧ run.swept = false ∧
      s' = s.setRun loc (s.tables.sweep loc run.gen).1 { run with
        swept := true
        progress := sweptProgress loc run.gen s.tables run.progress } := by
  obtain ⟨run, active, done⟩ := Option.bind_eq_some_iff.mp h
  split at done
  · rename_i ready
    cases done
    simp only [Bool.and_eq_true, Bool.not_eq_true'] at ready
    exact ⟨run, active, ready.1, ready.2, rfl⟩
  · cases done

theorem finish_cases {now : Int} {scanErr : Option ScanError}
    (h : s.finish loc now scanErr = some s') :
    ∃ run, s.active loc = some run ∧ (scanErr.isSome ∨ run.drained = true) ∧
      s' = s.setRun loc (s.tables.finishScan now run.scanID run.progress scanErr)
        { run with inFlight := false } := by
  obtain ⟨run, active, done⟩ := Option.bind_eq_some_iff.mp h
  split at done
  · rename_i ended
    cases done
    exact ⟨run, active, by simpa using ended, rfl⟩
  · cases done

theorem withTables_cases {result : Except SqlError ScanTables}
    (h : s.withTables result = some s') : ∃ t, result = .ok t ∧ s' = { s with tables := t } := by
  cases result with
  | error e => cases h
  | ok t =>
    cases h
    exact ⟨t, rfl, rfl⟩

theorem dirtyDirs_cases {limit : Nat} {picked : List UUID}
    (h : s.step (.dirtyDirs limit picked) = some s') :
    s.tables.Picks limit picked ∧ s' = { s with tables := (s.tables.dirtyDirs picked).1 } := by
  simp only [step] at h
  split at h
  · rename_i picks
    cases h
    exact ⟨picks, rfl⟩
  · cases h

/-! ### The scan of one location -/

/-- The payload that a commit hands to `SyncDir`. -/
def payloadAt (s : Scanner) (loc : UUID) (i : Nat) : Option SyncPayload := do
  let run ← s.active loc
  let (res, known) ← run.loaded[i]?
  return syncPayload loc run.gen run.force known res

/-- The payload of an action of the scan of `loc`, if it has one. -/
def payloadOf (loc : UUID) (s : Scanner) : Action → Option SyncPayload
  | .commit loc' i _ _ => if loc' = loc then s.payloadAt loc i else none
  | _ => none

/-- The payloads that the scan of `loc` commits in a run. -/
def payloads (loc : UUID) : Scanner → List Action → List SyncPayload
  | _, [] => []
  | s, a :: as =>
    match s.step a with
    | none => []
    | some s' => (payloadOf loc s a).toList ++ payloads loc s' as

/-- Only a start replaces the scan of a location, and only a commit syncs a dir of it. -/
theorem step_successor (a : Action) (other : a.starts ≠ some loc) (h : s.step a = some s')
    (found : s'.byLoc loc = some run) : ∃ old, s.byLoc loc = some old ∧ SameScan old run ∧
      (run.synced = old.synced ∧ payloadOf loc s a = none ∨
        ∃ res known, s.active loc = some old ∧ (res, known) ∈ old.loaded ∧
          run.synced = res :: old.synced ∧
          payloadOf loc s a = some (syncPayload loc old.gen old.force known res)) := by
  have kept : ∀ loc' t old new, s.active loc' = some old →
      (s.setRun loc' t new).byLoc loc = some run → SameScan old new → new.synced = old.synced →
      payloadOf loc s a = none → ∃ old, s.byLoc loc = some old ∧ SameScan old run ∧
        (run.synced = old.synced ∧ payloadOf loc s a = none ∨
          ∃ res known, s.active loc = some old ∧ (res, known) ∈ old.loaded ∧
            run.synced = res :: old.synced ∧
            payloadOf loc s a = some (syncPayload loc old.gen old.force known res)) := by
    intro loc' t old new active at_ same synced silent
    rw [setRun_byLoc] at at_
    by_cases here : loc = loc'
    · subst here
      rw [if_pos rfl, Option.some.injEq] at at_
      subst at_
      exact ⟨old, active_some active, same, .inl ⟨synced, silent⟩⟩
    · rw [if_neg here] at at_
      exact ⟨run, at_, .refl run, .inl ⟨rfl, silent⟩⟩
  cases a with
  | insertLocation id uri =>
    obtain ⟨t, _, rfl⟩ := withTables_cases h
    exact ⟨run, found, .refl run, .inl ⟨rfl, rfl⟩⟩
  | start loc' now scanID force order tree =>
    obtain ⟨_, t, gen, _, rfl⟩ := start_cases h
    have apart : loc ≠ loc' := fun same => other (by rw [Action.starts, same])
    rw [setRun_byLoc, if_neg apart] at found
    exact ⟨run, found, .refl run, .inl ⟨rfl, rfl⟩⟩
  | load loc' i =>
    obtain ⟨old, res, active, _, rfl⟩ := load_cases h
    refine kept loc' _ old _ active found ?_ rfl rfl
    exact ⟨rfl, rfl, rfl, rfl, rfl⟩
  | commit loc' i newDirID newFileID =>
    obtain ⟨old, res, known, t, d, active, taken, _, rfl⟩ := commit_cases h
    by_cases here : loc' = loc
    · subst here
      rw [setRun_byLoc, if_pos rfl, Option.some.injEq] at found
      subst found
      refine ⟨old, active_some active, ⟨rfl, rfl, rfl, rfl, rfl⟩, .inr ⟨res, known, active, ?_⟩⟩
      refine ⟨List.mem_of_getElem? taken, rfl, ?_⟩
      simp [payloadOf, payloadAt, active, taken]
    · rw [setRun_byLoc, if_neg (Ne.symm here)] at found
      exact ⟨run, found, .refl run, .inl ⟨rfl, by simp [payloadOf, here]⟩⟩
  | sweep loc' =>
    obtain ⟨old, active, _, _, rfl⟩ := sweep_cases h
    refine kept loc' _ old _ active found ?_ rfl rfl
    exact ⟨rfl, rfl, rfl, rfl, rfl⟩
  | finish loc' now scanErr =>
    obtain ⟨old, active, _, rfl⟩ := finish_cases h
    refine kept loc' _ old _ active found ?_ rfl rfl
    exact ⟨rfl, rfl, rfl, rfl, rfl⟩
  | crash =>
    cases h
    cases found
  | recover now =>
    cases h
    exact ⟨run, found, .refl run, .inl ⟨rfl, rfl⟩⟩
  | dirtyDirs limit picked =>
    obtain ⟨_, rfl⟩ := dirtyDirs_cases h
    exact ⟨run, found, .refl run, .inl ⟨rfl, rfl⟩⟩
  | releaseDir dirID lockedGen =>
    obtain ⟨t, _, rfl⟩ := withTables_cases h
    exact ⟨run, found, .refl run, .inl ⟨rfl, rfl⟩⟩
  | releaseAndRedirty dirID lockedGen =>
    obtain ⟨t, _, rfl⟩ := withTables_cases h
    exact ⟨run, found, .refl run, .inl ⟨rfl, rfl⟩⟩

theorem run_sameScan {acts : List Action} (once : ∀ a ∈ acts, a.starts ≠ some loc)
    (ran : Transition.run step s acts = some s') (found : s'.byLoc loc = some run) :
    ∃ old, s.byLoc loc = some old ∧ SameScan old run := by
  induction acts generalizing s with
  | nil =>
    cases ran
    exact ⟨run, found, .refl run⟩
  | cons a acts ih =>
    obtain ⟨first, rest⟩ := List.forall_mem_cons.mp once
    obtain ⟨s₁, stepped, ran⟩ := Option.bind_eq_some_iff.mp ran
    obtain ⟨mid, at_, later⟩ := ih rest ran
    obtain ⟨old, here, earlier, _⟩ := step_successor a first stepped at_
    exact ⟨old, here, earlier.trans later⟩

end Scanner

end Byom.Scan
