import Byom.Metadata.Steps
import Byom.Transition.Leases

/-!
# Parse claims

Every claim that is out is a lease on its dir, backed by the `locked_generation`
that `DirtyDirs` set. Only `BeginScan` takes a lock from under a claim.
-/

namespace Byom.Metadata.Pipeline

open Storage Relational Sqlite Transition

variable {Import : Type} {s s' : Pipeline Import} {t t' : ScanTables} {c : ClaimedDir} {w : Nat}

/-- The row of the claimed dir is locked with the generation of the claim. -/
def LockedFor (t : ScanTables) (c : ClaimedDir) : Prop :=
  ∃ d ∈ t.dirs, d.id = c.id ∧ d.locationID = c.locationID ∧
    d.lockedGeneration = some c.lockedGeneration

/-- No dir is held twice. -/
def Exclusive (s : Pipeline Import) : Prop := (s.held.map ClaimedDir.id).Nodup

instance : DecidablePred (Exclusive : Pipeline Import → Prop) := fun s =>
  inferInstanceAs (Decidable (s.held.map ClaimedDir.id).Nodup)

/-- The location whose locks an action resets. -/
def resets : Action → Option UUID
  | .beginScan loc _ _ => some loc
  | _ => none

/-- A scan begins while no claim on a dir of its location is out. -/
def BeginsUnheld (s : Pipeline Import) (a : Action) : Prop :=
  ∀ c ∈ s.held, resets a ≠ some c.locationID

instance (s : Pipeline Import) (a : Action) : Decidable (BeginsUnheld s a) :=
  inferInstanceAs (Decidable (∀ c ∈ s.held, _))

structure Claims (s : Pipeline Import) : Prop where
  wellFormed : s.tables.WellFormed
  leases : Leases ClaimedDir.id (LockedFor s.tables) s.held

/-! ### What is held -/

theorem held_setWorker {x : Worker} (found : s.workers[w]? = some x) (y : Worker) :
    (x.claim.toList ++ (s.setWorker w y).held).Perm (y.claim.toList ++ s.held) := by
  have slots := filterMap_set_perm Worker.claim found y
  have swap : ∀ u v rest : List ClaimedDir, (u ++ (v ++ rest)).Perm (v ++ (u ++ rest)) := by
    intro u v rest
    rw [← List.append_assoc, ← List.append_assoc]
    exact List.perm_append_comm.append_right rest
  unfold held setWorker
  exact ((swap _ _ _).trans (slots.append_left _)).trans (swap _ _ _)

theorem held_keep {x y : Worker} (found : s.workers[w]? = some x) (same : y.claim = x.claim) :
    (s.setWorker w y).held.Perm s.held := by
  have moved := held_setWorker found y
  rw [same] at moved
  exact (List.perm_append_left_iff _).mp moved

theorem held_drop {x y : Worker} (found : s.workers[w]? = some x) (had : x.claim = some c)
    (gone : y.claim = none) : s.held.Perm (c :: (s.setWorker w y).held) := by
  have moved := held_setWorker found y
  rw [had, gone] at moved
  exact moved.symm

/-- The queue head moves to an idle worker. -/
theorem held_receive {rest : List ClaimedDir} (found : s.workers[w]? = some .idle)
    (queue : s.toParse = c :: rest) :
    ({ s with workers := s.workers.set w (.claimed c), toParse := rest } :
      Pipeline Import).held.Perm s.held := by
  have slots := filterMap_set_perm Worker.claim found (.claimed c)
  simp only [Worker.claim, Option.toList_none, Option.toList_some, List.nil_append] at slots
  unfold held
  simp only [queue, List.append_assoc]
  refine List.Perm.append_left _ ?_
  refine (slots.append_left rest).trans ?_
  simp

/-- The head of the batch moves to the end of the queue. -/
theorem held_send {batch : List ClaimedDir} (place : s.dispatcher = .feeding (c :: batch)) :
    ({ s with
      toParse := s.toParse ++ [c]
      dispatcher := if batch = [] then .pumping else .feeding batch } : Pipeline Import).held.Perm
      s.held := by
  unfold held
  simp only [place]
  have rest : (if batch = [] then Dispatcher.pumping else .feeding batch).batch = batch := by
    by_cases last : batch = [] <;> simp [last, Dispatcher.batch]
  rw [rest, Dispatcher.batch]
  refine List.Perm.append_right _ ?_
  rw [← List.append_assoc]
  exact List.perm_append_comm.trans (by simp)

/-! ### Locks across statements -/

theorem LockedFor.updateWhere (locked : LockedFor t c) {p : DirRow → Bool}
    {set : DirRow → DirRow} (dirs : t'.dirs = updateWhere p set t.dirs)
    (ident : ∀ d, ScanTables.dirIdent (set d) = ScanTables.dirIdent d)
    (lock : ∀ d ∈ t.dirs, d.id = c.id → d.locationID = c.locationID → p d = true →
      (set d).lockedGeneration = d.lockedGeneration) : LockedFor t' c := by
  obtain ⟨d, hd, id, loc, gen⟩ := locked
  have sameID : (set d).id = d.id := congrArg Prod.fst (ident d)
  have sameLoc : (set d).locationID = d.locationID := congrArg (fun i => i.2.1) (ident d)
  refine ⟨if p d then set d else d, ?_, ?_⟩
  · rw [dirs]
    exact mem_updateWhere.mpr ⟨d, hd, rfl⟩
  · by_cases hit : p d = true
    · rw [if_pos hit, sameID, sameLoc, lock d hd id loc hit]
      exact ⟨id, loc, gen⟩
    · rw [if_neg hit]
      exact ⟨id, loc, gen⟩

theorem LockedFor.syncDir (locked : LockedFor t c) {newDirID d : UUID}
    {newFileID : Path → UUID} {p : Scan.SyncPayload}
    (h : t.syncDir newDirID newFileID p = .ok (t', d)) : LockedFor t' c := by
  have dirs := ScanTables.syncDir_dirs h
  cases found : lookup DirRow.key (p.locationID, p.relPath) t.dirs with
  | some row =>
    rw [upsertOn_of_lookup (ScanTables.newDir newDirID p) found] at dirs
    exact locked.updateWhere dirs (fun _ => rfl) fun _ _ _ _ _ => rfl
  | none =>
    rw [upsertOn_of_absent (ScanTables.newDir newDirID p) found] at dirs
    obtain ⟨row, hrow, rest⟩ := locked
    exact ⟨row, dirs ▸ List.mem_append_left _ hrow, rest⟩

/-- The dirs `DirtyDirs` claims were unlocked, and are locked for their claims. -/
theorem dirtyDirs_claim {picked : List UUID} {limit : Nat} (wf : t.WellFormed)
    (picks : t.Picks limit picked) :
    (t.dirtyDirs picked).2.map ClaimedDir.id = picked ∧
      (∀ b ∈ (t.dirtyDirs picked).2, LockedFor (t.dirtyDirs picked).1 b) ∧
      ∀ id ∈ picked, ∃ d ∈ t.dirs, d.id = id ∧ d.dirty = true ∧ d.lockedGeneration = none := by
  obtain ⟨_, inQueue, _⟩ := picks
  have free : ∀ id ∈ picked, ∃ d ∈ t.dirs, d.id = id ∧ d.dirty = true ∧
      d.lockedGeneration = none := by
    intro id hid
    obtain ⟨d, hd, same⟩ := List.mem_map.mp (inQueue hid)
    obtain ⟨member, claimable⟩ := List.mem_filter.mp hd
    exact ⟨d, member, same, by simpa [ScanTables.claimable] using claimable⟩
  refine ⟨?_, ?_, free⟩
  · unfold ScanTables.dirtyDirs
    simp only [List.map_filterMap]
    have all : ∀ id ∈ picked, ((lookup DirRow.id id t.dirs).map ScanTables.claim).map
        ClaimedDir.id = some id := by
      intro id hid
      obtain ⟨d, hd, rfl, _⟩ := free id hid
      rw [wf.dirIDs.lookup_of_mem hd]
      rfl
    rw [List.filterMap_congr all, List.filterMap_some]
  · intro b hb
    obtain ⟨id, hid, found⟩ := List.mem_filterMap.mp hb
    obtain ⟨d, row, rfl⟩ := Option.map_eq_some_iff.mp found
    have here : d.id = id := key_of_lookup row
    refine ⟨{ d with dirty := false, lockedGeneration := some d.seenGeneration }, ?_, rfl, rfl, rfl⟩
    refine mem_updateWhere.mpr ⟨d, mem_of_lookup row, ?_⟩
    simp [here, hid]

/-! ### The invariant -/

theorem start_claims (wf : t.WellFormed) (library : UUID → Import) (n : Nat) :
    (start t library n).Claims := by
  have none_ : (start t library n).held = [] := by
    unfold held start
    simp only [List.append_nil]
    apply List.filterMap_eq_nil_iff.mpr
    intro x hx
    rw [List.eq_of_mem_replicate hx]
    rfl
  refine ⟨wf, ?_, ?_⟩
  · simp [none_]
  · simp [none_]

/-- Actions that take no lock and move claims at most. -/
theorem Claims.frame (claims : s.Claims) (wf : s'.tables.WellFormed)
    (same : s'.held.Perm s.held)
    (keeps : ∀ c ∈ s.held, LockedFor s.tables c → LockedFor s'.tables c) : s'.Claims :=
  ⟨wf, (claims.leases.imp keeps).perm same⟩

theorem Claims.worker {x y : Worker} (claims : s.Claims) (found : s.workers[w]? = some x)
    (same : y.claim = x.claim) : (s.setWorker w y).Claims :=
  claims.frame claims.wellFormed (held_keep found same) fun _ _ locked => locked

/-- A release may unlock the dir of its own claim. -/
theorem Claims.release {x y : Worker} (claims : s.Claims) (found : s.workers[w]? = some x)
    (had : x.claim = some c) (gone : y.claim = none) (wf : t'.WellFormed)
    (keeps : ∀ d ∈ (s.setWorker w y).held, d.id ≠ c.id → LockedFor s.tables d → LockedFor t' d) :
    Claims { s with workers := s.workers.set w y, tables := t' } := by
  have out := claims.leases.perm (held_drop found had gone).symm
  exact ⟨wf, out.giveBack keeps⟩

/-- What is held is not claimed again. -/
theorem Claims.fresh (claims : s.Claims) {picked : List UUID} {limit : Nat}
    (picks : s.tables.Picks limit picked) : ∀ c ∈ s.held, c.id ∉ picked := by
  intro c hc listed
  obtain ⟨d, hd, same, _, unlocked⟩ := (dirtyDirs_claim claims.wellFormed picks).2.2 c.id listed
  obtain ⟨row, hrow, id, _, locked⟩ := claims.leases.backed c hc
  obtain rfl := claims.wellFormed.dirIDs.eq_of_key hd hrow (same.trans id.symm)
  rw [unlocked] at locked
  cases locked

theorem LockedFor.dirtyDirs (locked : LockedFor t c) {picked : List UUID} (fresh : c.id ∉ picked) :
    LockedFor (t.dirtyDirs picked).1 c := by
  refine locked.updateWhere rfl (fun _ => rfl) ?_
  intro d _ id _ hit
  simp only [decide_eq_true_eq] at hit
  exact absurd (id ▸ hit) fresh

/-- A `DirtyDirs` whose claims are lost. -/
theorem Claims.lose (claims : s.Claims) {picked : List UUID} {limit : Nat}
    (picks : s.tables.Picks limit picked) :
    Claims { s with tables := (s.tables.dirtyDirs picked).1 } :=
  claims.frame (ScanTables.dirtyDirs_wellFormed picked claims.wellFormed) (.refl _)
    fun c hc locked => locked.dirtyDirs (claims.fresh picks c hc)

theorem lockedBy_iff {dirID : UUID} {gen : Int} {d : DirRow} :
    ScanTables.lockedBy dirID gen d = true ↔ d.id = dirID ∧ d.lockedGeneration = some gen := by
  simp [ScanTables.lockedBy]

theorem step_claims {importOf : List File → Import} {a : Action} (claims : s.Claims)
    (unheld : BeginsUnheld s a) (h : s.step importOf a = some s') : s'.Claims := by
  have wf := claims.wellFormed
  cases a with
  | beginScan loc now scanID =>
    obtain ⟨t, gen, began, rfl⟩ := beginScan_cases h
    obtain ⟨_, _, dirs, keeps, _⟩ := ScanTables.beginScan_spec began
    refine claims.frame (keeps wf) (.refl _) ?_
    intro c hc locked
    refine locked.updateWhere dirs (fun _ => rfl) ?_
    intro d _ _ sameLoc hit
    simp only [decide_eq_true_eq] at hit
    exact absurd (congrArg some (hit.1.symm.trans sameLoc)) (unheld c hc)
  | syncDir newDirID newFileID payload =>
    obtain ⟨_, t, dirID, synced, _, rfl⟩ := syncDir_cases h
    exact claims.frame (ScanTables.syncDir_wellFormed synced wf) (.refl _)
      fun _ _ locked => locked.syncDir synced
  | onDirty i =>
    obtain ⟨_, rfl⟩ := onDirty_cases h
    exact claims.frame wf (.refl _) fun _ _ locked => locked
  | sweep loc =>
    obtain ⟨gen, rfl⟩ := sweep_cases h
    refine claims.frame (ScanTables.sweep_wellFormed loc gen wf) (.refl _) ?_
    intro c _ locked
    exact locked.updateWhere rfl (fun _ => rfl) fun _ _ _ _ _ => rfl
  | finishScan loc now progress scanErr =>
    obtain ⟨scanID, rfl⟩ := finishScan_cases h
    exact claims.frame (ScanTables.finishScan_wellFormed _ _ _ _ wf) (.refl _)
      fun _ _ locked => locked
  | receiveToken =>
    obtain ⟨ready, rfl⟩ := receiveToken_cases h
    refine claims.frame wf ?_ fun _ _ locked => locked
    simp [held, ready.1, Dispatcher.batch]
  | dirtyDirs picked =>
    obtain ⟨place, picks, rfl⟩ := dirtyDirs_cases h
    obtain ⟨ids, taken, _⟩ := dirtyDirs_claim wf picks
    have fresh := claims.fresh picks
    have out : Leases ClaimedDir.id (LockedFor (s.tables.dirtyDirs picked).1)
        ((s.tables.dirtyDirs picked).2 ++ s.held) := by
      refine claims.leases.acquire ?_ ?_ taken ?_
      · rw [ids]
        exact picks.1
      · intro b hb c hc same
        apply fresh c hc
        rw [← same, ← ids]
        exact List.mem_map_of_mem hb
      · exact fun c hc locked => locked.dirtyDirs (fresh c hc)
    refine ⟨ScanTables.dirtyDirs_wellFormed picked wf, out.perm ?_⟩
    unfold held
    rw [place]
    by_cases none_ : (s.tables.dirtyDirs picked).2 = []
    · simp [none_, Dispatcher.batch]
    · simp [none_, Dispatcher.batch]
  | send =>
    obtain ⟨c, batch, place, rfl⟩ := send_cases h
    exact claims.frame wf (held_send place) fun _ _ locked => locked
  | receive w =>
    obtain ⟨c, rest, found, queue, rfl⟩ := receive_cases h
    exact claims.frame wf (held_receive found queue) fun _ _ locked => locked
  | fail w =>
    obtain ⟨dir, found | ⟨files, found⟩, rfl⟩ := fail_cases h
    · exact claims.frame wf (held_keep found rfl) fun _ _ locked => locked
    · exact claims.frame wf (held_keep found rfl) fun _ _ locked => locked
  | dirFiles w =>
    obtain ⟨dir, found, rfl⟩ := dirFiles_cases h
    exact claims.worker found rfl
  | importDir w =>
    obtain ⟨dir, files, found, rfl⟩ := importDir_cases h
    exact claims.frame wf (held_keep found rfl) fun _ _ locked => locked
  | clearAttempts w =>
    obtain ⟨dir, found, rfl⟩ := clearAttempts_cases h
    exact claims.frame wf (held_keep found rfl) fun _ _ locked => locked
  | recordFailure w =>
    obtain ⟨dir, next, attempts, found, rfl | rfl, rfl⟩ := recordFailure_cases h
    · exact claims.frame wf (held_keep found rfl) fun _ _ locked => locked
    · exact claims.frame wf (held_keep found rfl) fun _ _ locked => locked
  | releaseDir w =>
    obtain ⟨x, dir, t, found, releasing, released, rfl⟩ := releaseDir_cases h
    have had : x.claim = some dir := by
      rcases releasing_cases releasing with rfl | rfl <;> rfl
    refine claims.release found had rfl (ScanTables.releaseDir_wellFormed released wf) ?_
    intro c _ apart locked
    obtain ⟨_, rfl⟩ := ScanTables.releaseDir_spec released
    refine locked.updateWhere rfl (fun _ => rfl) ?_
    intro d _ id _ hit
    exact absurd (id.symm.trans (lockedBy_iff.mp hit).1) apart
  | releaseAndRedirty w =>
    obtain ⟨dir, t, found, released, rfl⟩ := releaseAndRedirty_cases h
    refine claims.release found rfl rfl (ScanTables.releaseAndRedirty_wellFormed released wf) ?_
    intro c _ apart locked
    obtain ⟨_, rfl⟩ := ScanTables.releaseAndRedirty_spec released
    refine locked.updateWhere rfl (fun _ => rfl) ?_
    intro d _ id _ hit
    exact absurd (id.symm.trans (lockedBy_iff.mp hit).1) apart
  | releaseError w =>
    obtain ⟨x, dir, found, had, rfl⟩ := releaseError_cases h
    exact claims.release found had rfl wf fun _ _ _ locked => locked
  | armRetry w =>
    obtain ⟨found, rfl⟩ := armRetry_cases h
    exact claims.frame wf (held_keep found rfl) fun _ _ locked => locked
  | skipRetry w =>
    obtain ⟨found, rfl⟩ := skipRetry_cases h
    exact claims.worker found rfl
  | timerFires =>
    obtain ⟨_, rfl⟩ := timerFires_cases h
    exact claims.frame wf (.refl _) fun _ _ locked => locked

/-- While every scan begins with no claim out on its location, no dir is ever held
twice. -/
theorem parse_claims_exclusive (importOf : List File → Import) (wf : t.WellFormed)
    (library : UUID → Import) (n : Nat) {acts : List Action}
    (unheld : StepsMeet (step importOf) BeginsUnheld (start t library n) acts) :
    Along (step importOf) Exclusive (start t library n) acts := by
  refine along_of_stepsMeet ?_ ?_ (start_claims wf library n) unheld
  · exact fun s a s' claims met h => step_claims claims met h
  · exact fun s claims => claims.leases.exclusive

/-! ### A scan that begins beside a worker -/

/-- Location 1 with the dirty dir 10. -/
def oneDirty : ScanTables where
  locations := [⟨1, "file:///music", 1, true⟩]
  scans := []
  dirs := [⟨10, 1, ["Album"], 1, false, true, none⟩]
  files := [⟨20, 10, ["01.flac"], .audio, ⟨1000, 5⟩, false⟩]

theorem oneDirty_wellFormed : oneDirty.WellFormed := by
  constructor <;> decide

/-- Two workers; the library is the list of files imported last. -/
def twoWorkers : Pipeline (List File) := start oneDirty (fun _ => []) 2

/-- A dir is claimed and given to a worker. -/
def claimAndSend (w : Nat) : List Action := [.dirtyDirs [10], .send, .receive w]

def scannedBeforeClaim : List Action :=
  [.beginScan 1 0 30, .finishScan 1 1 ⟨0, 0, 0, 0⟩ none] ++ claimAndSend 0

theorem scannedBeforeClaim_exclusive :
    Along (step id) Exclusive twoWorkers scannedBeforeClaim :=
  parse_claims_exclusive id oneDirty_wellFormed (fun _ => []) 2 (by decide)

/-- A scan begins while worker 0 holds the dir, which worker 1 then gets as well. -/
def scannedDuringClaim : List Action := claimAndSend 0 ++ .beginScan 1 0 30 :: claimAndSend 1

theorem scannedDuringClaim_heldTwice :
    ¬ ∀ (t : ScanTables) (library : UUID → List File) (n : Nat) (acts : List Action),
      t.WellFormed → Along (step id) Exclusive (start t library n) acts := by
  intro exclusive
  have run := exclusive oneDirty (fun _ => []) 2 scannedDuringClaim oneDirty_wellFormed
  exact absurd run (by decide)

end Byom.Metadata.Pipeline
