import Byom.Metadata.Claims

/-!
# Release tokens

`ClaimLog` is the storage tables beside all claims that `DirtyDirs` has handed
out, in order. A claim makes its release call with its dir and the generation it
captured. Only a claim locks a dir, so the lock of a dir is that of the newest
claim on it.
-/

namespace Byom.Metadata

open Storage Relational Sqlite Transition

/-- `called` lists the claims, by their place in `claims`, whose release call is made. -/
structure ClaimLog where
  tables : ScanTables
  claims : List ClaimedDir
  called : List Nat

namespace ClaimLog

inductive Action where
  | beginScan (loc : UUID) (now : Int) (scanID : UUID)
  | syncDir (newDirID : UUID) (newFileID : Path → UUID) (payload : Scan.SyncPayload)
  | dirtyDirs (limit : Nat) (picked : List UUID)
  | releaseDir (n : Nat)
  | releaseAndRedirty (n : Nat)

/-- The claim whose token a release call carries. -/
def Action.releases : Action → Option Nat
  | .releaseDir n => some n
  | .releaseAndRedirty n => some n
  | _ => none

/-- What the database answers to a release call. -/
def answer (t : ScanTables) (c : ClaimedDir) : Action → Except SqlError ScanTables
  | .releaseAndRedirty _ => t.releaseAndRedirty c.id c.lockedGeneration
  | _ => t.releaseDir c.id c.lockedGeneration

/-- A release call that fails is only logged. -/
def release (s : ClaimLog) (a : Action) (n : Nat) : Option ClaimLog := do
  let c ← s.claims[n]?
  let tables := match answer s.tables c a with
    | .error _ => s.tables
    | .ok t => t
  return { s with tables, called := n :: s.called }

def step (s : ClaimLog) : Action → Option ClaimLog
  | .beginScan loc now scanID =>
    match s.tables.beginScan now scanID loc with
    | .error _ => none
    | .ok (t, _) => some { s with tables := t }
  | .syncDir newDirID newFileID payload =>
    match s.tables.syncDir newDirID newFileID payload with
    | .error _ => none
    | .ok (t, _) => some { s with tables := t }
  | .dirtyDirs limit picked =>
    if s.tables.Picks limit picked then
      let (t, claimed) := s.tables.dirtyDirs picked
      some { s with tables := t, claims := s.claims ++ claimed }
    else none
  | .releaseDir n => s.release (.releaseDir n) n
  | .releaseAndRedirty n => s.release (.releaseAndRedirty n) n

/-- A process that starts on tables some earlier process left. -/
def start (t : ScanTables) : ClaimLog := ⟨t, [], []⟩

/-- No later claim is on the same dir. -/
def Newest (s : ClaimLog) (n : Nat) (c : ClaimedDir) : Prop :=
  ∀ later ∈ s.claims.zipIdx, n < later.2 → later.1.id ≠ c.id

instance (s : ClaimLog) (n : Nat) (c : ClaimedDir) : Decidable (s.Newest n c) :=
  inferInstanceAs (Decidable (∀ later ∈ s.claims.zipIdx, _ → _))

/-- A release call releases the lock of its own claim, or reports it lost and changes
nothing. -/
def Fenced (s : ClaimLog) (a : Action) : Prop :=
  ∀ n c, a.releases = some n → s.claims[n]? = some c →
    (∃ t, answer s.tables c a = .ok t) ∧ s.Newest n c ∨
      answer s.tables c a = .error .lockLost ∧ ∀ s', s.step a = some s' → s'.tables = s.tables

/-- A claim is taken at a generation other than that of every earlier claim on its
dir with its release call still to come, and no claim makes a second one. -/
def Distinct (s : ClaimLog) : Action → Prop
  | .dirtyDirs _ picked => ∀ d ∈ s.tables.dirs, d.id ∈ picked → ∀ earlier ∈ s.claims.zipIdx,
      earlier.1.id = d.id → earlier.1.lockedGeneration = d.seenGeneration → earlier.2 ∈ s.called
  | .releaseDir n => n ∉ s.called
  | .releaseAndRedirty n => n ∉ s.called
  | _ => True

instance (s : ClaimLog) : (a : Action) → Decidable (s.Distinct a)
  | .dirtyDirs _ _ =>
    inferInstanceAs (Decidable (∀ d ∈ s.tables.dirs, _ → ∀ earlier ∈ s.claims.zipIdx, _ → _ → _))
  | .releaseDir _ => inferInstanceAs (Decidable (_ ∉ _))
  | .releaseAndRedirty _ => inferInstanceAs (Decidable (_ ∉ _))
  | .beginScan .. => .isTrue trivial
  | .syncDir .. => .isTrue trivial

/-! ### Tokens of claims that have later ones on their dir -/

/-- No dir is locked at the generation of a claim that has a later one on its dir and
its release call still to come. -/
def Unmatched (s : ClaimLog) : Prop :=
  ∀ n m c later, s.claims[n]? = some c → s.claims[m]? = some later → n < m → later.id = c.id →
    n ∉ s.called → ∀ d ∈ s.tables.dirs, d.id = c.id → d.lockedGeneration ≠ some c.lockedGeneration

variable {s s' : ClaimLog} {a : Action} {n : Nat} {c : ClaimedDir} {t : ScanTables}

theorem release_cases (h : s.release a n = some s') : ∃ c, s.claims[n]? = some c ∧
    ((∃ t, answer s.tables c a = .ok t ∧
        s' = { s with tables := t, called := n :: s.called }) ∨
      (∃ e, answer s.tables c a = .error e) ∧ s' = { s with called := n :: s.called }) := by
  obtain ⟨c, found, done⟩ := Option.bind_eq_some_iff.mp h
  refine ⟨c, found, ?_⟩
  cases called : answer s.tables c a with
  | error e =>
    simp only [called, Option.pure_def, Option.some.injEq] at done
    exact .inr ⟨⟨e, rfl⟩, done.symm⟩
  | ok t =>
    simp only [called, Option.pure_def, Option.some.injEq] at done
    exact .inl ⟨t, rfl, done.symm⟩

/-- A release call that succeeds matched its token, and unlocks the rows it matched. -/
theorem answer_ok (h : answer s.tables c a = .ok t) :
    (∃ d ∈ s.tables.dirs, d.id = c.id ∧ d.lockedGeneration = some c.lockedGeneration) ∧
      ∀ d ∈ t.dirs, d.lockedGeneration = none ∨
        ∃ old ∈ s.tables.dirs, old.id = d.id ∧ old.lockedGeneration = d.lockedGeneration := by
  have unlocks : ∀ set : DirRow → DirRow, (∀ r, (set r).lockedGeneration = none) →
      ∀ d ∈ updateWhere (ScanTables.lockedBy c.id c.lockedGeneration) set s.tables.dirs,
        d.lockedGeneration = none ∨
          ∃ old ∈ s.tables.dirs, old.id = d.id ∧ old.lockedGeneration = d.lockedGeneration := by
    intro set none_ d hd
    obtain ⟨old, hold, rfl⟩ := mem_updateWhere.mp hd
    split
    · exact .inl (none_ old)
    · exact .inr ⟨old, hold, rfl, rfl⟩
  cases a with
  | releaseAndRedirty n =>
    obtain ⟨locked, rfl⟩ := ScanTables.releaseAndRedirty_spec h
    exact ⟨locked, unlocks _ fun _ => rfl⟩
  | _ =>
    obtain ⟨locked, rfl⟩ := ScanTables.releaseDir_spec h
    exact ⟨locked, unlocks _ fun _ => rfl⟩

theorem answer_error {e : SqlError} (h : answer s.tables c a = .error e) : e = .lockLost := by
  unfold answer ScanTables.releaseAndRedirty ScanTables.releaseDir at h
  split at h <;> split at h <;> cases h <;> rfl

/-- Statements that lock no dir. -/
theorem Unmatched.of_locks (unmatched : s.Unmatched) {called : List Nat}
    (grows : ∀ n ∈ s.called, n ∈ called)
    (locks : ∀ d ∈ t.dirs, d.lockedGeneration = none ∨
      ∃ old ∈ s.tables.dirs, old.id = d.id ∧ old.lockedGeneration = d.lockedGeneration) :
    Unmatched { s with tables := t, called := called } := by
  intro n m c later first second before same pending d hd id
  rcases locks d hd with none_ | ⟨old, hold, sameID, sameLock⟩
  · simp [none_]
  · rw [← sameLock]
    exact unmatched n m c later first second before same (fun old => pending (grows n old)) old hold
      (sameID.trans id)

theorem claimed_ids (picked : List UUID) (t : ScanTables) :
    ((t.dirtyDirs picked).2.map ClaimedDir.id).Sublist picked := by
  unfold ScanTables.dirtyDirs
  induction picked with
  | nil => exact .slnil
  | cons id picked ih =>
    cases found : lookup DirRow.id id t.dirs with
    | none =>
      simp only [List.filterMap_cons, found, Option.map_none]
      exact ih.cons id
    | some d =>
      have named : d.id = id := key_of_lookup found
      have same : (ScanTables.claim d).id = id := named
      simp only [List.filterMap_cons, found, Option.map_some, List.map_cons, same]
      exact ih.cons_cons id

/-- Claims at other generations than the pending ones match none of their tokens. -/
theorem Unmatched.dirtyDirs (unmatched : s.Unmatched) {limit : Nat} {picked : List UUID}
    (picks : s.tables.Picks limit picked) (distinct : s.Distinct (.dirtyDirs limit picked)) :
    Unmatched { s with
      tables := (s.tables.dirtyDirs picked).1
      claims := s.claims ++ (s.tables.dirtyDirs picked).2 } := by
  intro n m c later first second before same pending d hd id
  obtain ⟨old, hold, rfl⟩ := mem_updateWhere.mp hd
  have inPicked : ∀ x ∈ (s.tables.dirtyDirs picked).2, x.id ∈ picked :=
    fun x hx => (claimed_ids picked s.tables).subset (List.mem_map_of_mem hx)
  by_cases early : n < s.claims.length
  · rw [List.getElem?_append_left early] at first
    have listed : (c, n) ∈ s.claims.zipIdx := List.mem_zipIdx_iff_getElem?.mpr first
    by_cases hit : old.id ∈ picked
    · rw [if_pos (decide_eq_true hit)] at id ⊢
      intro clash
      exact pending (distinct old hold hit _ listed id.symm (Option.some.inj clash).symm)
    · rw [if_neg (by simpa using hit)] at id ⊢
      have earlier : m < s.claims.length := by
        by_contra new
        rw [List.getElem?_append_right (Nat.le_of_not_lt new)] at second
        apply hit
        rw [id, ← same]
        exact inPicked later (List.mem_of_getElem? second)
      rw [List.getElem?_append_left earlier] at second
      exact unmatched n m c later first second before same pending old hold id
  · -- One batch claims no dir twice.
    have new := Nat.le_of_not_lt early
    rw [List.getElem?_append_right new] at first
    rw [List.getElem?_append_right (new.trans before.le)] at second
    have nodup := (claimed_ids picked s.tables).nodup picks.1
    have sameID : ((s.tables.dirtyDirs picked).2.map ClaimedDir.id)[n - s.claims.length]? =
        ((s.tables.dirtyDirs picked).2.map ClaimedDir.id)[m - s.claims.length]? := by
      rw [List.getElem?_map, List.getElem?_map, first, second, Option.map_some, Option.map_some, same]
    have inside : n - s.claims.length < ((s.tables.dirtyDirs picked).2.map ClaimedDir.id).length := by
      rw [List.length_map]
      exact (List.getElem?_eq_some_iff.mp first).1
    have clash := (List.getElem?_inj inside nodup).mp sameID
    omega

theorem step_unmatched (unmatched : s.Unmatched) (distinct : s.Distinct a)
    (h : s.step a = some s') : s'.Unmatched := by
  have released : ∀ n, s.release a n = some s' → s'.Unmatched := by
    intro n h
    obtain ⟨c, _, ⟨t, done, rfl⟩ | ⟨_, rfl⟩⟩ := release_cases h
    · exact unmatched.of_locks (fun _ old => List.mem_cons_of_mem _ old) (answer_ok done).2
    · refine unmatched.of_locks (fun _ old => List.mem_cons_of_mem _ old) ?_
      exact fun d hd => .inr ⟨d, hd, rfl, rfl⟩
  cases a with
  | beginScan loc now scanID =>
    simp only [step] at h
    split at h
    · cases h
    · rename_i t gen began
      cases h
      obtain ⟨_, _, dirs, _⟩ := ScanTables.beginScan_spec began
      refine unmatched.of_locks (fun _ => id) ?_
      intro d hd
      rw [dirs] at hd
      obtain ⟨old, hold, rfl⟩ := mem_updateWhere.mp hd
      split
      · exact .inl rfl
      · exact .inr ⟨old, hold, rfl, rfl⟩
  | syncDir newDirID newFileID payload =>
    simp only [step] at h
    split at h
    · cases h
    · rename_i t d synced
      cases h
      refine unmatched.of_locks (fun _ => id) ?_
      intro d hd
      rw [ScanTables.syncDir_dirs synced] at hd
      rcases mem_upsertOn hd with ⟨rfl, _⟩ | ⟨old, _⟩ | ⟨old, hold, _, rfl⟩
      · exact .inl rfl
      · exact .inr ⟨d, old, rfl, rfl⟩
      · exact .inr ⟨old, hold, rfl, rfl⟩
  | dirtyDirs limit picked =>
    simp only [step] at h
    split at h
    · rename_i picks
      cases h
      exact unmatched.dirtyDirs picks distinct
    · cases h
  | releaseDir n => exact released n h
  | releaseAndRedirty n => exact released n h

theorem fenced_of_unmatched (unmatched : s.Unmatched) (distinct : s.Distinct a)
    (h : s.step a = some s') : s.Fenced a := by
  intro n c releases found
  have pending : n ∉ s.called := by
    cases a with
    | releaseDir k =>
      cases releases
      exact distinct
    | releaseAndRedirty k =>
      cases releases
      exact distinct
    | _ => cases releases
  have called : s.step a = s.release a n := by
    cases a with
    | releaseDir k =>
      cases releases
      rfl
    | releaseAndRedirty k =>
      cases releases
      rfl
    | _ => cases releases
  cases done : answer s.tables c a with
  | ok t =>
    refine .inl ⟨⟨t, rfl⟩, ?_⟩
    intro later hlater before same
    obtain ⟨⟨d, hd, id, locked⟩, _⟩ := answer_ok done
    have second : s.claims[later.2]? = some later.1 := List.mem_zipIdx_iff_getElem?.mp hlater
    exact unmatched n later.2 c later.1 found second before same pending d hd id locked
  | error e =>
    refine .inr ⟨by rw [answer_error done], ?_⟩
    intro s₁ taken
    rw [called] at taken
    obtain ⟨c', found', ⟨t, ok, _⟩ | ⟨_, rfl⟩⟩ := release_cases taken
    · rw [found, Option.some.injEq] at found'
      rw [← found', done] at ok
      cases ok
    · rfl

/-- In every run that takes no claim at the generation of a pending one on its dir,
the release calls are fenced. -/
theorem release_tokens_fence {acts : List Action} (distinct : StepsMeet step Distinct (start t) acts) :
    StepsMeet step Fenced (start t) acts := by
  have begin_ : (start t).Unmatched := by
    intro n m c later first
    simp [start] at first
  refine stepsMeet_of_stepsMeet ?_ ?_ begin_ distinct
  · exact fun s a s' unmatched met h => step_unmatched unmatched met h
  · exact fun s a s' unmatched met h => fenced_of_unmatched unmatched met h

/-! ### A lock that a scan resets -/

/-- A failed parse is retried at the same generation. -/
def retried : List Action :=
  [.dirtyDirs 1 [10], .releaseAndRedirty 0, .dirtyDirs 1 [10], .releaseDir 1]

theorem retried_fenced : StepsMeet step Fenced (start Pipeline.oneDirty) retried :=
  release_tokens_fence (by decide)

/-- A scan begins while the dir is claimed, and it is claimed again before its sync. -/
def claimedTwice : List Action := [.dirtyDirs 1 [10], .beginScan 1 0 30, .dirtyDirs 1 [10]]

theorem claimedTwice_isSome : (run step (start Pipeline.oneDirty) claimedTwice).isSome := by decide

/-- Both claims are out, and the dir is locked for the second. -/
def bothClaimed : ClaimLog := (run step (start Pipeline.oneDirty) claimedTwice).get claimedTwice_isSome

/-- The first claim's call releases the lock of the second one. -/
theorem claimedTwice_unfenced :
    ¬ ∀ (t : ScanTables) (acts : List Action), StepsMeet step Fenced (start t) acts := by
  intro fenced
  have ends : run step (start Pipeline.oneDirty) claimedTwice = some bothClaimed :=
    (Option.some_get claimedTwice_isSome).symm
  have taken : (bothClaimed.step (.releaseDir 0)).isSome := by decide
  have call := (fenced Pipeline.oneDirty (claimedTwice ++ [.releaseDir 0])).at ends
    (Option.some_get taken).symm
  rcases call 0 ⟨10, ["Album"], 1, 1⟩ rfl (by decide) with ⟨_, newest⟩ | ⟨lost, _⟩
  · exact absurd newest (by decide)
  · have released : (answer bothClaimed.tables ⟨10, ["Album"], 1, 1⟩ (.releaseDir 0)).toOption.isSome := by
      decide
    rw [lost] at released
    cases released

end ClaimLog

end Byom.Metadata
