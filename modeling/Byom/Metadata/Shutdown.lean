import Byom.Metadata.Claims
import Byom.Metadata.Ingest
import Byom.Metadata.RunRecord

/-!
# What is left of the claims when the pipeline stops

A dir whose claim came to nothing must stay dirty or locked, or nothing parses it again.
Only `ReleaseDir` can leave a dir clean and unlocked, so what matters is which claims it is
called for.
-/

namespace Byom.Metadata

open Storage Relational Sqlite Transition

/-- The row is in the parse queue, or locked so that the next `BeginScan` puts it there. -/
def Waits (row : DirRow) : Prop := row.dirty = true ∨ row.lockedGeneration.isSome = true

instance : DecidablePred Waits := fun _ => inferInstanceAs (Decidable (_ ∨ _))

/-- The worker that calls `ReleaseDir`. -/
def RunAction.releases : RunAction → Option Nat
  | .act (.releaseDir w) => some w
  | _ => none

namespace PipelineRun

variable {Import : Type} {s s' : PipelineRun Import} {importOf : List File → Import}
  {w : Nat} {row : DirRow}

/-- No work is dropped: a dir still waits if its latest claim did not end in success, unless
it failed `maxParseAttempts` times at that generation for another reason than the
cancellation. -/
def Kept (s : PipelineRun Import) : Prop :=
  ∀ row ∈ s.pipeline.tables.dirs, ∀ i a, s.history[i]? = some a → a.dir.id = row.id →
    s.IsLatest i row.id → a.outcome ≠ some .succeeded →
      s.realFailures row.id a.dir.lockedGeneration < maxParseAttempts → Waits row

/-- The property once the context is cancelled and all workers have stopped. -/
def ShutdownKeeps (s : PipelineRun Import) : Prop := s.cancelled = true → s.Stopped → s.Kept

/-- `ReleaseDir` is called for the latest claim of its dir, and after a failure only if
enough failures were real; otherwise it finds the dir dirty. -/
def ReleasesSafely (s : PipelineRun Import) (a : RunAction) : Prop :=
  ∀ w ∈ a.releases, ∀ x ∈ s.pipeline.workers[w]?, ∀ dir ∈ x.releasing,
    (∃ row ∈ s.pipeline.tables.dirs, row.id = dir.id ∧ row.dirty = true) ∨
      s.IsLatest (s.serial w) dir.id ∧ (x = .givingUp dir →
        maxParseAttempts ≤ s.realFailures dir.id dir.lockedGeneration)

instance (s : PipelineRun Import) (a : RunAction) : Decidable (s.ReleasesSafely a) :=
  inferInstanceAs (Decidable (∀ w ∈ a.releases, ∀ x ∈ s.pipeline.workers[w]?,
    ∀ dir ∈ x.releasing, _ ∨ _ ∧ _))

/-! ### Numbers of claims -/

theorem isLatest_unique {i j : Nat} {a b : Attempt} {d : UUID} (hi : s.history[i]? = some a)
    (hj : s.history[j]? = some b) (ofA : a.dir.id = d) (ofB : b.dir.id = d)
    (first : s.IsLatest i d) (second : s.IsLatest j d) : i = j := by
  have notBefore : ∀ {i j : Nat} {b : Attempt}, s.history[j]? = some b → b.dir.id = d →
      s.IsLatest i d → ¬ i < j := by
    intro i j b hj ofB latest before
    refine latest b.dir ?_ ofB
    refine List.mem_of_getElem? (i := j - (i + 1)) ?_
    rw [List.getElem?_drop, List.getElem?_map, Nat.add_sub_cancel' before, hj]
    rfl
  have := notBefore hj ofB first
  have := notBefore hi ofA second
  omega

theorem countP_modify {α : Type} {p : α → Bool} {f : α → α} {l : List α} {i : Nat} {x : α}
    (found : l[i]? = some x) :
    (l.modify i f).countP p + (if p x then 1 else 0) = l.countP p + if p (f x) then 1 else 0 := by
  induction l generalizing i with
  | nil => cases found
  | cons y l ih =>
    cases i with
    | zero =>
      cases found
      simp only [List.modify_zero_cons, List.countP_cons]
      omega
    | succ i =>
      simp only [List.modify_succ_cons, List.countP_cons]
      have rest := ih (i := i) (by simpa using found)
      omega

theorem countP_le_modify {α : Type} {p : α → Bool} {f : α → α} {l : List α} {i : Nat}
    (keeps : ∀ x, l[i]? = some x → p x = true → p (f x) = true) :
    l.countP p ≤ (l.modify i f).countP p := by
  cases found : l[i]? with
  | none => rw [List.modify_eq_self (List.getElem?_eq_none_iff.mp found)]
  | some x =>
    have changed := countP_modify (p := p) (f := f) found
    have kept := keeps x found
    by_cases hit : p x = true
    · simp only [hit, kept hit, if_true] at changed
      omega
    · simp only [hit, Bool.false_eq_true, if_false] at changed
      omega

theorem map_dir_close (s : PipelineRun Import) (w : Nat) (o : Outcome) :
    (s.close w o).history.map Attempt.dir = s.history.map Attempt.dir := by
  apply List.ext_getElem?
  intro i
  simp only [close, List.getElem?_map, List.getElem?_modify]
  cases s.history[i]? with
  | none => rfl
  | some a =>
    by_cases here : s.serial w = i <;> simp [here]

/-- Whether a claim is the latest depends on the dirs of the claims alone. -/
theorem IsLatest.of_map {i : Nat} {d : UUID} (latest : s'.IsLatest i d)
    (dirs : s'.history.map Attempt.dir = s.history.map Attempt.dir) : s.IsLatest i d := by
  unfold IsLatest
  rw [← dirs]
  exact latest

/-! ### Steps that keep what waits -/

/-- The rows of the claimed dirs wait if they waited before. -/
theorem Kept.frame (kept : s.Kept) (history : s'.history = s.history)
    (rows : ∀ row' ∈ s'.pipeline.tables.dirs,
      (∃ row ∈ s.pipeline.tables.dirs, row.id = row'.id ∧ (Waits row → Waits row')) ∨
        ∀ a ∈ s.history, a.dir.id ≠ row'.id) : s'.Kept := by
  intro row' hrow' i a at_ own latest unsuccessful few
  rw [history] at at_
  rcases rows row' hrow' with ⟨row, hrow, same, waits⟩ | unclaimed
  · have before : s.IsLatest i row'.id := latest.of_map (by rw [history])
    unfold realFailures at few
    rw [history] at few
    rw [← same] at before few own
    exact waits (kept row hrow i a at_ own before unsuccessful few)
  · exact absurd own (unclaimed a (List.mem_of_getElem? at_))

theorem Kept.updateWhere (kept : s.Kept) (history : s'.history = s.history)
    {p : DirRow → Bool} {set : DirRow → DirRow}
    (dirs : s'.pipeline.tables.dirs = updateWhere p set s.pipeline.tables.dirs)
    (ident : ∀ d, (set d).id = d.id) (waits : ∀ d, Waits d → Waits (set d)) : s'.Kept := by
  refine kept.frame history ?_
  intro row' hrow'
  rw [dirs] at hrow'
  obtain ⟨row, hrow, rfl⟩ := mem_updateWhere.mp hrow'
  refine .inl ⟨row, hrow, ?_, ?_⟩
  · split
    · exact (ident row).symm
    · rfl
  · split
    · exact waits row
    · exact id

/-- A claim gets its outcome. -/
theorem Kept.close (kept : s.Kept) {c : ClaimedDir} (open_ : s.history[s.serial w]? = some ⟨c, none⟩)
    {o : Outcome} (history : s'.history = (s.close w o).history)
    (dirs : s'.pipeline.tables.dirs = s.pipeline.tables.dirs) : s'.Kept := by
  intro row hrow i a at_ own latest unsuccessful few
  rw [dirs] at hrow
  have before : s.IsLatest i row.id := latest.of_map (by rw [history, map_dir_close])
  have fewer : s.realFailures row.id a.dir.lockedGeneration ≤
      s'.realFailures row.id a.dir.lockedGeneration := by
    unfold realFailures
    rw [history]
    apply countP_le_modify
    intro b hb hit
    rw [open_] at hb
    cases hb
    simp at hit
  rw [history] at at_
  by_cases here : s.serial w = i
  · subst here
    simp only [PipelineRun.close, List.getElem?_modify_eq, open_, Option.map_eq_map,
      Option.map_some, Option.some.injEq] at at_
    subst at_
    refine kept row hrow _ _ open_ own before ?_ (lt_of_le_of_lt fewer few)
    intro succeeded
    cases succeeded
  · simp only [PipelineRun.close, List.getElem?_modify_ne _ _ here] at at_
    exact kept row hrow i a at_ own before unsuccessful (lt_of_le_of_lt fewer few)

/-- The claims that `DirtyDirs` takes leave their dirs locked. -/
theorem Kept.claim (kept : s.Kept) {picked : List UUID}
    (history : s'.history = s.history ++ s.taken picked)
    (dirs : s'.pipeline.tables.dirs = (s.pipeline.tables.dirtyDirs picked).1.dirs) : s'.Kept := by
  intro row' hrow' i a at_ own latest unsuccessful few
  rw [dirs] at hrow'
  obtain ⟨row, hrow, rfl⟩ := mem_updateWhere.mp hrow'
  by_cases hit : row.id ∈ picked
  · right
    simp [hit]
  · simp only [hit, decide_false, Bool.false_eq_true, if_false] at own latest few ⊢
    have others : ∀ b ∈ s.taken picked, b.dir.id ≠ row.id := by
      intro b hb same
      obtain ⟨c, hc, rfl⟩ := List.mem_map.mp hb
      obtain ⟨id, hid, found⟩ := List.mem_filterMap.mp hc
      obtain ⟨d, row', rfl⟩ := Option.map_eq_some_iff.mp found
      have key : d.id = id := key_of_lookup row'
      apply hit
      rw [← same]
      simp only [ScanTables.claim]
      rw [key]
      exact hid
    have bound : i < s.history.length := by
      by_contra past
      rw [history, List.getElem?_append_right (Nat.le_of_not_lt past)] at at_
      exact others a (List.mem_of_getElem? at_) own
    rw [history, List.getElem?_append_left bound] at at_
    refine kept row hrow i a at_ own ?_ unsuccessful ?_
    · intro c hc
      apply latest
      rw [history, List.map_append, List.drop_append]
      exact List.mem_append_left _ hc
    · refine lt_of_le_of_lt ?_ few
      unfold realFailures
      rw [history, List.countP_append]
      exact Nat.le_add_right _ _

/-- A release that is safe. -/
theorem Kept.release (kept : s.Kept) (rec : s.Recorded)
    (dirIDs : UniqueOn DirRow.id s.pipeline.tables.dirs)
    (safe : s.ReleasesSafely (.act (.releaseDir w))) {p : Pipeline Import}
    (h : s.pipeline.releaseDir w = some p) : Kept { s with pipeline := p } := by
  obtain ⟨x, dir, t, found, releasing, released, rfl⟩ := Pipeline.releaseDir_cases h
  obtain ⟨_, rfl⟩ := ScanTables.releaseDir_spec released
  have claims : x.claim = some dir := by
    rcases Pipeline.releasing_cases releasing with rfl | rfl <;> rfl
  obtain ⟨o, entry, tells⟩ := rec.working w x dir found claims
  intro row' hrow' i a at_ own latest unsuccessful few
  obtain ⟨row, hrow, rfl⟩ := mem_updateWhere.mp hrow'
  have same : row.id = a.dir.id := by
    rw [own]
    split <;> rfl
  have ident : ∀ d : DirRow, (if ScanTables.lockedBy dir.id dir.lockedGeneration row = true then
      { row with lockedGeneration := none } else row).id = row.id := by
    intro _
    split <;> rfl
  rw [ident row] at own latest few
  have waits : Waits row := kept row hrow i a at_ own latest unsuccessful few
  by_cases hit : ScanTables.lockedBy dir.id dir.lockedGeneration row = true
  · rw [if_pos hit]
    obtain ⟨ofDir, _⟩ := Pipeline.lockedBy_iff.mp hit
    rcases safe w rfl x found dir releasing with ⟨dirtyRow, hdirty, sameID, dirty⟩ | ⟨last, real⟩
    · obtain rfl : dirtyRow = row := dirIDs.eq_of_key hdirty hrow (sameID.trans ofDir.symm)
      exact .inl dirty
    · rw [← ofDir] at last
      have this_ : s.serial w = i := isLatest_unique entry at_ ofDir.symm same.symm last latest
      subst this_
      rw [entry] at at_
      cases at_
      rcases Pipeline.releasing_cases releasing with rfl | rfl
      · exact absurd tells unsuccessful
      · have enough := real rfl
        rw [ofDir] at few
        unfold realFailures at few enough
        exact absurd enough (Nat.not_le_of_lt few)
  · rw [if_neg hit]
    exact waits

/-! ### What holds in every run -/

structure Accounted (s : PipelineRun Import) : Prop where
  wellFormed : s.pipeline.tables.WellFormed
  recorded : s.Recorded
  known : ∀ c ∈ s.history.map Attempt.dir, c.id ∈ s.pipeline.tables.dirs.map DirRow.id

theorem start_accounted {t : ScanTables} (wf : t.WellFormed) (library : UUID → Import) (n : Nat) :
    (start t library n).Accounted :=
  ⟨wf, start_recorded t library n, nofun⟩

theorem taken_known (s : PipelineRun Import) (picked : List UUID) :
    ∀ c ∈ (s.taken picked).map Attempt.dir, c.id ∈ s.pipeline.tables.dirs.map DirRow.id := by
  intro c hc
  obtain ⟨a, ha, rfl⟩ := List.mem_map.mp hc
  obtain ⟨claim, listed, rfl⟩ := List.mem_map.mp ha
  obtain ⟨id, _, found⟩ := List.mem_filterMap.mp listed
  obtain ⟨d, row, rfl⟩ := Option.map_eq_some_iff.mp found
  exact List.mem_map_of_mem (mem_of_lookup row)

/-- The dirs of the claims after a step: those before, and those the step takes. -/
theorem step_dirs {a : RunAction} (h : s.step importOf a = some s') :
    s.pipeline.tables.Extends s'.pipeline.tables ∧
      ∀ c ∈ s'.history.map Attempt.dir, c ∈ s.history.map Attempt.dir ∨
        c.id ∈ s.pipeline.tables.dirs.map DirRow.id := by
  cases a with
  | act a =>
    obtain ⟨_, p, taken, rfl⟩ := act_cases h
    refine ⟨Pipeline.step_extends taken, ?_⟩
    intro c hc
    cases a with
    | dirtyDirs picked =>
      simp only [note, List.map_append, List.mem_append] at hc
      exact hc.imp_right (taken_known s picked c)
    | importDir w =>
      exact .inl (map_dir_close s w _ ▸ hc)
    | fail w =>
      exact .inl (map_dir_close s w _ ▸ hc)
    | _ => exact .inl hc
  | claimLost picked =>
    obtain ⟨_, rfl⟩ := claimLost_cases h
    refine ⟨.of_sameRows (ScanTables.dirtyDirs_sameRows picked _)
      (ScanTables.dirtyDirs_wellFormed picked), ?_⟩
    intro c hc
    simp only [List.map_append, List.mem_append] at hc
    exact hc.imp_right (taken_known s picked c)
  | failCancelled w =>
    obtain ⟨_, p, failed, rfl⟩ := failCancelled_cases h
    have taken : s.pipeline.step importOf (.fail w) = some p := failed
    exact ⟨Pipeline.step_extends taken, fun c hc => .inl (map_dir_close s w _ ▸ hc)⟩
  | cancel =>
    cases h
    exact ⟨.refl _, fun _ => .inl⟩
  | dispatcherReturns =>
    obtain ⟨_, rfl⟩ := dispatcherReturns_cases h
    exact ⟨.refl _, fun _ => .inl⟩
  | workerReturns w =>
    obtain ⟨_, rfl⟩ := workerReturns_cases h
    exact ⟨.refl _, fun _ => .inl⟩

theorem step_accounted {a : RunAction} (acc : s.Accounted) (h : s.step importOf a = some s') :
    s'.Accounted := by
  obtain ⟨extends_, dirs⟩ := step_dirs h
  refine ⟨extends_.wellFormed acc.wellFormed, step_recorded acc.recorded h, ?_⟩
  intro c hc
  rcases dirs c hc with before | new
  · exact extends_.dirs (acc.known c before)
  · exact extends_.dirs new

/-- A dir that is synced stays dirty or locked, and a new one was never claimed. -/
theorem Kept.syncDir (kept : s.Kept)
    (known : ∀ c ∈ s.history.map Attempt.dir, c.id ∈ s.pipeline.tables.dirs.map DirRow.id)
    (history : s'.history = s.history) {newDirID d : UUID} {newFileID : Path → UUID}
    {p : Scan.SyncPayload}
    (h : s.pipeline.tables.syncDir newDirID newFileID p = .ok (s'.pipeline.tables, d)) :
    s'.Kept := by
  have dirs := ScanTables.syncDir_dirs h
  cases found : lookup DirRow.key (p.locationID, p.relPath) s.pipeline.tables.dirs with
  | some row =>
    rw [upsertOn_of_lookup (ScanTables.newDir newDirID p) found] at dirs
    apply kept.updateWhere history dirs fun _ => rfl
    intro d waits
    rcases waits with dirty | locked
    · exact .inl (by simp [ScanTables.resyncDir, dirty])
    · exact .inr locked
  | none =>
    rw [upsertOn_of_absent (ScanTables.newDir newDirID p) found] at dirs
    obtain ⟨u, first, _⟩ := ScanTables.syncDir_spec h
    obtain ⟨_, ⟨row, here, _⟩ | ⟨_, _, fresh, _⟩⟩ := ScanTables.upsertDir_spec first
    · rw [found] at here
      cases here
    · apply kept.frame history
      intro row hrow
      rw [dirs] at hrow
      rcases List.mem_append.mp hrow with old | new
      · exact .inl ⟨row, old, rfl, id⟩
      · right
        intro a ha same
        obtain ⟨row', hrow', sameID⟩ := List.mem_map.mp (known a.dir (List.mem_map_of_mem ha))
        rw [List.mem_singleton.mp new] at same
        exact fresh row' hrow' (sameID.trans same)

/-- Only `ReleaseDir` can leave a claimed dir clean and unlocked. -/
theorem step_kept {a : RunAction} (acc : s.Accounted) (kept : s.Kept)
    (safe : s.ReleasesSafely a) (h : s.step importOf a = some s') : s'.Kept := by
  have same : ∀ {p : Pipeline Import}, p.tables.dirs = s.pipeline.tables.dirs →
      Kept { s with pipeline := p } := by
    intro p dirs
    refine kept.frame ?_ ?_
    · rfl
    · exact fun row hrow => .inl ⟨row, dirs ▸ hrow, rfl, id⟩
  cases a with
  | cancel =>
    cases h
    exact same rfl
  | dispatcherReturns =>
    obtain ⟨_, rfl⟩ := dispatcherReturns_cases h
    exact same rfl
  | workerReturns w =>
    obtain ⟨_, rfl⟩ := workerReturns_cases h
    exact same rfl
  | claimLost picked =>
    obtain ⟨_, rfl⟩ := claimLost_cases h
    exact kept.claim rfl rfl
  | failCancelled w =>
    obtain ⟨_, p, failed, rfl⟩ := failCancelled_cases h
    obtain ⟨dir, x, entry, _, _, rfl⟩ := acc.recorded.entry_of_fail failed
    exact kept.close entry rfl rfl
  | act a =>
    obtain ⟨_, p, taken, rfl⟩ := act_cases h
    cases a with
    | beginScan loc now scanID =>
      obtain ⟨t, gen, began, rfl⟩ := Pipeline.beginScan_cases taken
      have dirs := (ScanTables.beginScan_spec began).2.2.1
      exact kept.updateWhere rfl dirs (fun _ => rfl) fun _ _ => .inl rfl
    | syncDir newDirID newFileID payload =>
      obtain ⟨_, t, dirID, synced, _, rfl⟩ := Pipeline.syncDir_cases taken
      exact kept.syncDir acc.known rfl synced
    | onDirty i =>
      obtain ⟨_, rfl⟩ := Pipeline.onDirty_cases taken
      exact same rfl
    | sweep loc =>
      obtain ⟨gen, rfl⟩ := Pipeline.sweep_cases taken
      exact kept.updateWhere rfl rfl (fun _ => rfl) fun _ => id
    | finishScan loc now progress scanErr =>
      obtain ⟨scanID, rfl⟩ := Pipeline.finishScan_cases taken
      exact same rfl
    | receiveToken =>
      obtain ⟨_, rfl⟩ := Pipeline.receiveToken_cases taken
      exact same rfl
    | dirtyDirs picked =>
      obtain ⟨_, _, rfl⟩ := Pipeline.dirtyDirs_cases taken
      exact kept.claim rfl rfl
    | send =>
      obtain ⟨c, batch, _, rfl⟩ := Pipeline.send_cases taken
      exact same rfl
    | receive w =>
      obtain ⟨c, rest, _, _, rfl⟩ := Pipeline.receive_cases taken
      exact kept.frame rfl fun row hrow => .inl ⟨row, hrow, rfl, id⟩
    | fail w =>
      obtain ⟨dir, x, entry, _, _, rfl⟩ := acc.recorded.entry_of_fail taken
      exact kept.close entry rfl rfl
    | dirFiles w =>
      obtain ⟨dir, _, rfl⟩ := Pipeline.dirFiles_cases taken
      exact same rfl
    | importDir w =>
      obtain ⟨dir, files, here, rfl⟩ := Pipeline.importDir_cases taken
      obtain ⟨o, entry, rfl⟩ := acc.recorded.working w _ dir here rfl
      exact kept.close entry rfl rfl
    | clearAttempts w =>
      obtain ⟨dir, _, rfl⟩ := Pipeline.clearAttempts_cases taken
      exact same rfl
    | recordFailure w =>
      obtain ⟨dir, next, attempts, _, _, rfl⟩ := Pipeline.recordFailure_cases taken
      exact same rfl
    | releaseDir w => exact kept.release acc.recorded acc.wellFormed.dirIDs safe taken
    | releaseAndRedirty w =>
      obtain ⟨dir, t, _, released, rfl⟩ := Pipeline.releaseAndRedirty_cases taken
      obtain ⟨_, rfl⟩ := ScanTables.releaseAndRedirty_spec released
      exact kept.updateWhere rfl rfl (fun _ => rfl) fun _ _ => .inl rfl
    | releaseError w =>
      obtain ⟨x, dir, _, _, rfl⟩ := Pipeline.releaseError_cases taken
      exact same rfl
    | armRetry w =>
      obtain ⟨_, rfl⟩ := Pipeline.armRetry_cases taken
      exact same rfl
    | skipRetry w =>
      obtain ⟨_, rfl⟩ := Pipeline.skipRetry_cases taken
      exact same rfl
    | timerFires =>
      obtain ⟨_, rfl⟩ := Pipeline.timerFires_cases taken
      exact same rfl

/-- One worker, and a dirty dir. -/
def oneWorker : PipelineRun (List File) := start Pipeline.oneDirty (fun _ => []) 1

/-- The dir is claimed, and its parse fails for a reason of its own. -/
def failedAttempt : List RunAction :=
  [.act (.dirtyDirs [10]), .act .send, .act (.receive 0), .act (.fail 0), .act (.recordFailure 0),
    .act (.releaseAndRedirty 0), .act (.armRetry 0)]

end PipelineRun

end Byom.Metadata
