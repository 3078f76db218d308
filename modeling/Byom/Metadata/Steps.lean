import Byom.Metadata.Pipeline

/-!
# What each action of the pipeline can do

One lemma for each action that can be refused: when it is enabled, and the state
it leads to.
-/

namespace Byom.Metadata.Pipeline

open Storage Relational Sqlite

variable {Import : Type} {s s' : Pipeline Import} {w : Nat}

theorem beginScan_cases {loc : UUID} {now : Int} {scanID : UUID}
    (h : s.beginScan loc now scanID = some s') :
    ∃ t gen, s.tables.beginScan now scanID loc = .ok (t, gen) ∧
      s' = { s with
        tables := t
        scanning := ⟨loc, scanID, gen⟩ :: s.scanning } := by
  unfold beginScan at h
  split at h
  · cases h
  · cases began : s.tables.beginScan now scanID loc with
    | error e => simp [began] at h
    | ok result =>
      obtain ⟨t, gen⟩ := result
      simp only [began, Option.some.injEq] at h
      exact ⟨t, gen, rfl, h.symm⟩

theorem syncDir_cases {newDirID : UUID} {newFileID : Path → UUID} {p : Scan.SyncPayload}
    (h : s.syncDir newDirID newFileID p = some s') :
    s.tables.MissingInside p ∧ ∃ t dirID,
      s.tables.syncDir newDirID newFileID p = .ok (t, dirID) ∧
      (p.dirty = true ∨ t.files = s.tables.files) ∧
      s' = { s with
        tables := t
        onDirty := if p.dirty then p.locationID :: s.onDirty else s.onDirty
        failedSince :=
          if t.rowsOf dirID = s.tables.rowsOf dirID then s.failedSince
          else Function.update s.failedSince dirID false } := by
  unfold syncDir at h
  split at h
  · rename_i allowed
    refine ⟨allowed.2, ?_⟩
    cases synced : s.tables.syncDir newDirID newFileID p with
    | error e => simp [synced] at h
    | ok result =>
      obtain ⟨t, dirID⟩ := result
      simp only [synced] at h
      split at h
      · rename_i truthful
        cases h
        exact ⟨t, dirID, rfl, truthful, rfl⟩
      · cases h
  · cases h

theorem sweep_cases {loc : UUID} (h : s.sweep loc = some s') :
    ∃ gen, s' = { s with tables := (s.tables.sweep loc gen).1 } := by
  obtain ⟨run, _, rest⟩ := Option.bind_eq_some_iff.mp h
  split at rest
  · cases rest
  · cases rest
    exact ⟨run.gen, rfl⟩

theorem finishScan_cases {loc : UUID} {now : Int} {progress : Scan.Progress}
    {scanErr : Option Scan.ScanError} (h : s.finishScan loc now progress scanErr = some s') :
    ∃ scanID, s' = { s with
      tables := s.tables.finishScan now scanID progress scanErr
      scanning := s.scanning.filter fun r => r.locationID ≠ loc } := by
  obtain ⟨run, _, rest⟩ := Option.bind_eq_some_iff.mp h
  split at rest
  · cases rest
  · cases rest
    exact ⟨run.scanID, rfl⟩

theorem dirtyDirs_cases {picked : List UUID} (h : s.dirtyDirs picked = some s') :
    s.dispatcher = .pumping ∧ s.tables.Picks s.workers.length picked ∧
      s' = { s with
        tables := (s.tables.dirtyDirs picked).1
        dispatcher := if (s.tables.dirtyDirs picked).2 = [] then .waiting
          else .feeding (s.tables.dirtyDirs picked).2 } := by
  unfold dirtyDirs at h
  split at h
  · rename_i allowed
    cases h
    exact ⟨allowed.1, allowed.2, rfl⟩
  · cases h

theorem send_cases (h : s.send = some s') :
    ∃ c batch, s.dispatcher = .feeding (c :: batch) ∧
      s' = { s with
        toParse := s.toParse ++ [c]
        dispatcher := if batch = [] then .pumping else .feeding batch } := by
  unfold send at h
  cases place : s.dispatcher with
  | pumping => simp [place] at h
  | waiting => simp [place] at h
  | feeding batch =>
    cases batch with
    | nil => simp [place] at h
    | cons c batch =>
      simp only [place] at h
      split at h
      · cases h
        exact ⟨c, batch, rfl, rfl⟩
      · cases h

theorem receive_cases (h : s.receive w = some s') :
    ∃ c rest, s.workers[w]? = some .idle ∧ s.toParse = c :: rest ∧
      s' = { s with workers := s.workers.set w (.claimed c), toParse := rest } := by
  unfold receive at h
  split at h
  · rename_i c rest at_ queue
    cases h
    exact ⟨c, rest, at_, queue, rfl⟩
  · cases h

theorem fail_cases (h : s.fail w = some s') :
    ∃ dir, (s.workers[w]? = some (.claimed dir) ∨ ∃ files, s.workers[w]? = some (.read dir files)) ∧
      s' = { s with
        workers := s.workers.set w (.failed dir)
        failedSince := Function.update s.failedSince dir.id true } := by
  unfold fail at h
  simp only at h
  split at h
  · rename_i dir at_
    cases h
    exact ⟨dir, .inl at_, rfl⟩
  · rename_i dir files at_
    cases h
    exact ⟨dir, .inr ⟨files, at_⟩, rfl⟩
  · cases h

theorem dirFiles_cases (h : s.dirFiles w = some s') :
    ∃ dir, s.workers[w]? = some (.claimed dir) ∧
      s' = s.setWorker w (.read dir (s.tables.dirFiles dir.id)) := by
  unfold dirFiles at h
  split at h
  · rename_i dir at_
    cases h
    exact ⟨dir, at_, rfl⟩
  · cases h

theorem importDir_cases {importOf : List File → Import} (h : s.importDir importOf w = some s') :
    ∃ dir files, s.workers[w]? = some (.read dir files) ∧
      s' = { s with
        workers := s.workers.set w (.imported dir)
        library := Function.update s.library dir.id (importOf files) } := by
  unfold importDir at h
  split at h
  · rename_i dir files at_
    cases h
    exact ⟨dir, files, at_, rfl⟩
  · cases h

theorem clearAttempts_cases (h : s.clearAttempts w = some s') :
    ∃ dir, s.workers[w]? = some (.imported dir) ∧
      s' = { s with
        workers := s.workers.set w (.cleared dir)
        attempts := Function.update s.attempts dir.id ⟨0, 0⟩ } := by
  unfold clearAttempts at h
  split at h
  · rename_i dir at_
    cases h
    exact ⟨dir, at_, rfl⟩
  · cases h

theorem recordFailure_cases (h : s.recordFailure w = some s') :
    ∃ dir next attempts, s.workers[w]? = some (.failed dir) ∧
      (next = .givingUp dir ∨ next = .redirtying dir) ∧
      s' = { s with workers := s.workers.set w next, attempts } := by
  unfold recordFailure at h
  split at h
  · rename_i dir at_
    cases h
    refine ⟨dir, _, _, at_, ?_, rfl⟩
    split
    · exact .inl rfl
    · exact .inr rfl
  · cases h

theorem releaseDir_cases (h : s.releaseDir w = some s') :
    ∃ x dir t, s.workers[w]? = some x ∧ x.releasing = some dir ∧
      s.tables.releaseDir dir.id dir.lockedGeneration = .ok t ∧
      s' = { s with workers := s.workers.set w .idle, tables := t } := by
  obtain ⟨x, at_, rest⟩ := Option.bind_eq_some_iff.mp h
  obtain ⟨dir, releasing, rest⟩ := Option.bind_eq_some_iff.mp rest
  cases released : s.tables.releaseDir dir.id dir.lockedGeneration with
  | error e => simp [released] at rest
  | ok t =>
    simp only [released, Option.pure_def, Option.some.injEq] at rest
    exact ⟨x, dir, t, at_, releasing, released, rest.symm⟩

theorem releasing_cases {x : Worker} {dir : ClaimedDir} (h : x.releasing = some dir) :
    x = .cleared dir ∨ x = .givingUp dir := by
  cases x <;> simp_all [Worker.releasing]

theorem releaseAndRedirty_cases (h : s.releaseAndRedirty w = some s') :
    ∃ dir t, s.workers[w]? = some (.redirtying dir) ∧
      s.tables.releaseAndRedirty dir.id dir.lockedGeneration = .ok t ∧
      s' = { s with workers := s.workers.set w .redirtied, tables := t } := by
  unfold releaseAndRedirty at h
  split at h
  · rename_i dir at_
    cases released : s.tables.releaseAndRedirty dir.id dir.lockedGeneration with
    | error e => simp [released] at h
    | ok t =>
      simp only [released, Option.some.injEq] at h
      exact ⟨dir, t, at_, released, h.symm⟩
  · cases h

theorem releaseError_cases (h : s.releaseError w = some s') :
    ∃ x dir, s.workers[w]? = some x ∧ x.claim = some dir ∧ s' = s.setWorker w .idle := by
  unfold releaseError at h
  split at h
  · rename_i dir at_
    cases h
    exact ⟨_, dir, at_, rfl, rfl⟩
  · rename_i dir at_
    cases h
    exact ⟨_, dir, at_, rfl, rfl⟩
  · rename_i dir at_
    cases h
    exact ⟨_, dir, at_, rfl, rfl⟩
  · cases h

theorem armRetry_cases (h : s.armRetry w = some s') :
    s.workers[w]? = some .redirtied ∧
      s' = { s with workers := s.workers.set w .idle, timers := s.timers + 1 } := by
  unfold armRetry at h
  split at h
  · rename_i at_
    cases h
    exact ⟨at_, rfl⟩
  · cases h

theorem skipRetry_cases (h : s.skipRetry w = some s') :
    s.workers[w]? = some .redirtied ∧ s' = s.setWorker w .idle := by
  unfold skipRetry at h
  split at h
  · rename_i at_
    cases h
    exact ⟨at_, rfl⟩
  · cases h

theorem onDirty_cases {importOf : List File → Import} {i : Nat}
    (h : s.step importOf (.onDirty i) = some s') :
    i < s.onDirty.length ∧
      s' = { s with onDirty := s.onDirty.eraseIdx i, token := true } := by
  simp only [step] at h
  split at h
  · rename_i listed
    cases h
    exact ⟨listed, rfl⟩
  · cases h

theorem receiveToken_cases {importOf : List File → Import}
    (h : s.step importOf .receiveToken = some s') :
    (s.dispatcher = .waiting ∧ s.token = true) ∧
      s' = { s with dispatcher := .pumping, token := false } := by
  simp only [step] at h
  split at h
  · rename_i ready
    cases h
    exact ⟨ready, rfl⟩
  · cases h

theorem timerFires_cases {importOf : List File → Import}
    (h : s.step importOf .timerFires = some s') :
    0 < s.timers ∧ s' = { s with timers := s.timers - 1, token := true } := by
  simp only [step] at h
  split at h
  · rename_i armed
    cases h
    exact ⟨armed, rfl⟩
  · cases h

end Byom.Metadata.Pipeline
