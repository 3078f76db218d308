import Byom.Scan.Entries
import Byom.Scan.Outcomes

/-!
# Calls of `Start`

`Starting` is the process beside the calls of `Start` that it serves, each at the store
call it has come to. A store call may fail, also because the context of the request has
ended; `Start` then undoes what it has done so far, where it does.
-/

namespace Byom.Scan

open Storage Relational Sqlite

/-- The next thing that a call of `Start` does, or how it ended. -/
inductive StartStage where
  | locating
  | claiming
  | opening
  | undoing
  | launching
  | reading
  | returned
  | failed
  deriving DecidableEq, Repr

/-- A call of `Start`, with the run it has claimed its location for and the scan whose record
it has opened. -/
structure StartRequest where
  locationID : UUID
  force : Bool
  stage : StartStage
  run : Option Nat
  scan : Option UUID
  deriving DecidableEq, Repr

structure Starting where
  process : Process
  requests : List StartRequest

inductive StartAction where
  | request (loc : UUID) (force : Bool)
  | locate (i : Nat)
  | claim (i : Nat)
  | beginScan (i : Nat) (now : Int) (scanID : UUID)
  | beginFails (i : Nat)
  | release (i : Nat)
  | register (i : Nat) (order : MapOrder) (tree : Tree)
  | readBack (i : Nat)
  | fails (i : Nat)
  | act (a : ProcessAction)

/-- The call that an action is about. -/
def StartAction.call : StartAction → Option Nat
  | .locate i | .claim i | .beginScan i _ _ | .beginFails i | .release i | .register i _ _
  | .readBack i | .fails i => some i
  | .request _ _ | .act _ => none

/-- Whether `BeginScan` has yet to return. -/
def StartStage.unopened : StartStage → Bool
  | .locating | .claiming | .opening | .undoing => true
  | _ => false

def StartStage.unclaimed : StartStage → Bool
  | .locating | .claiming => true
  | _ => false

def Phase.isClosing : Phase → Bool
  | .closing => true
  | _ => false

namespace Starting

def empty : Starting := ⟨.empty, []⟩

/-- The call that is at a stage. -/
def callAt (s : Starting) (i : Nat) (stage : StartStage) : Option StartRequest :=
  s.requests[i]?.filter fun q => q.stage = stage

/-- A call goes on, with what it has made of the process. -/
def advance (s : Starting) (i : Nat) (p : Process) (q : StartRequest) : Starting :=
  ⟨p, s.requests.set i q⟩

def request (s : Starting) (loc : UUID) (force : Bool) : Starting :=
  { s with requests := s.requests ++ [⟨loc, force, .locating, none, none⟩] }

/-- `Location` and `Root`. -/
def locate (s : Starting) (i : Nat) : Option Starting := do
  let q ← s.callAt i .locating
  let _ ← lookup LocationRow.id q.locationID s.process.tables.locations
  return s.advance i s.process { q with stage := .claiming }

/-- `claim`, which fails with `ErrScanRunning` if the location is claimed. -/
def claim (s : Starting) (i : Nat) : Option Starting := do
  let q ← s.callAt i .claiming
  if (s.process.byLoc q.locationID).isSome then
    return s.advance i s.process { q with stage := .failed }
  else
    let p ← s.process.start q.locationID q.force
    return s.advance i p { q with stage := .opening, run := some s.process.runs.length }

/-- `BeginScan` commits. A new ID is never the nil one. -/
def beginScan (s : Starting) (i : Nat) (now : Int) (scanID : UUID) : Option Starting := do
  let q ← s.callAt i .opening
  let r ← q.run
  if scanID = .nil then none
  else
    let p ← s.process.beginScan r now scanID
    return s.advance i p { q with stage := .launching, scan := some scanID }

def beginFails (s : Starting) (i : Nat) : Option Starting := do
  let q ← s.callAt i .opening
  let r ← q.run
  let p ← s.process.beginFails r
  return s.advance i p { q with stage := .undoing }

/-- `release`, after a `BeginScan` that failed. -/
def release (s : Starting) (i : Nat) : Option Starting := do
  let q ← s.callAt i .undoing
  let r ← q.run
  let p ← s.process.release r
  return s.advance i p { q with stage := .failed }

/-- The run is entered in `byScan`, and its goroutine starts. -/
def register (pool : WorkerPool) (s : Starting) (i : Nat) (order : MapOrder) (tree : Tree) :
    Option Starting := do
  let q ← s.callAt i .launching
  let r ← q.run
  let p ← s.process.register pool r order tree
  return s.advance i p { q with stage := .reading }

/-- `Scan` returns the new record. -/
def readBack (s : Starting) (i : Nat) : Option Starting := do
  let q ← s.callAt i .reading
  let id ← q.scan
  let _ ← s.process.tables.recordAt id
  return s.advance i s.process { q with stage := .returned }

/-- `Location`, `Root` or `Scan` fails, and `Start` returns its error. -/
def fails (s : Starting) (i : Nat) : Option Starting :=
  match s.requests[i]? with
  | none => none
  | some q =>
    match q.stage with
    | .locating | .reading => some (s.advance i s.process { q with stage := .failed })
    | _ => none

/-- What the process does beside the calls of `Start`. -/
def act (pool : WorkerPool) (s : Starting) (a : ProcessAction) : Option Starting :=
  match a with
  | .start _ _ | .beginScan _ _ _ | .beginFails _ | .register _ _ _ => none
  | .release r =>
    if s.process.runs[r]?.any fun run => run.phase.isClosing then
      (s.process.release r).map fun p => { s with process := p }
    else none
  | .restart recovered => some ⟨s.process.restart recovered, []⟩
  | _ => (s.process.step pool a).map fun p => { s with process := p }

def step (pool : WorkerPool) (s : Starting) : StartAction → Option Starting
  | .request loc force => some (s.request loc force)
  | .locate i => s.locate i
  | .claim i => s.claim i
  | .beginScan i now scanID => s.beginScan i now scanID
  | .beginFails i => s.beginFails i
  | .release i => s.release i
  | .register i order tree => s.register pool i order tree
  | .readBack i => s.readBack i
  | .fails i => s.fails i
  | .act a => s.act pool a

end Starting

/-- The call has left nothing in the maps, which hold what the others have entered, its
goroutine is over, and its record does not say running. -/
structure StartRequest.LeavesNothing (q : StartRequest) (p : Process) : Prop where
  byLoc : ∀ loc r, p.byLoc loc = some r → q.run ≠ some r
  byScan : ∀ id r, p.byScan id = some r → q.run ≠ some r
  others : ∀ r run, p.runs[r]? = some run → q.run ≠ some r →
    (run.phase.live = true → p.byLoc run.locationID = some r) ∧
      (run.phase.registered = true → p.byScan run.scanID = some r)
  goroutine : ∀ r ∈ q.run, ∀ run, p.runs[r]? = some run → run.phase.live = false
  record : ∀ id ∈ q.scan, p.stateOf id ≠ some .running

/-- The scan of the call has been released, with its record closed. -/
def StartRequest.Ended (q : StartRequest) (p : Process) : Prop :=
  (∀ r ∈ q.run, ∀ run ∈ p.runs[r]?, run.phase.live = false) ∧
    ∀ id ∈ q.scan, p.stateOf id ≠ some .running

namespace Starting

/-- No call of `Start` that has failed has left anything behind. -/
def FailuresLeaveNothing (s : Starting) : Prop :=
  ∀ q ∈ s.requests, q.stage = .failed → q.LeavesNothing s.process

/-- The record of a new scan can be read back as long as the scan goes on. -/
def ReadsBack (s : Starting) : StartAction → Prop
  | .fails i => ∀ q ∈ s.requests[i]?, q.stage = .reading → q.Ended s.process
  | _ => True

end Starting

namespace StartRequest

variable {p p' : Process} {q : StartRequest}

/-- The run and the record of a call, as far as it has come. -/
structure Placed (q : StartRequest) (p : Process) : Prop where
  run : ∀ r ∈ q.run, ∃ run, p.runs[r]? = some run
  scan : ∀ id ∈ q.scan, ∃ row, p.tables.recordAt id = some row
  unclaimed : q.stage.unclaimed = true → q.run = none
  unopened : q.stage.unopened = true → q.scan = none

theorem Placed.keep (placed : q.Placed p) (keeps : p.Keeps p') : q.Placed p' := by
  refine ⟨?_, ?_, placed.unclaimed, placed.unopened⟩
  · intro r claimed
    obtain ⟨run, found⟩ := placed.run r claimed
    obtain ⟨run', found', _⟩ := keeps.runs r run found
    exact ⟨run', found'⟩
  · intro id opened
    obtain ⟨row, found⟩ := placed.scan id opened
    obtain ⟨row', found', _⟩ := keeps.records id row found
    exact ⟨row', found'⟩

/-- A scan that has ended is not taken up again. -/
theorem Ended.keep (ended : q.Ended p) (placed : q.Placed p) (keeps : p.Keeps p') :
    q.Ended p' := by
  refine ⟨?_, ?_⟩
  · intro r claimed run' found'
    obtain ⟨run, found⟩ := placed.run r claimed
    obtain ⟨run'', there, still⟩ := keeps.runs r run found
    rw [there] at found'
    cases found'
    exact still (ended.1 r claimed run found)
  · intro id opened running
    obtain ⟨row, found⟩ := placed.scan id opened
    obtain ⟨row', found', still⟩ := keeps.records id row found
    have closed := ended.2 id opened
    rw [Process.stateOf_eq, found, Option.map_some, ne_eq, Option.some.injEq] at closed
    rw [Process.stateOf_eq, found', Option.map_some, Option.some.injEq] at running
    exact still closed running

/-- The maps hold the runs in flight, so a scan that has ended has left nothing in them. -/
theorem leavesNothing_iff (inv : p.Inv) (entered : Entered p.runs p.byScan) :
    q.LeavesNothing p ↔ q.Ended p := by
  constructor
  · intro left
    exact ⟨left.goroutine, left.record⟩
  · rintro ⟨released, record⟩
    refine ⟨?_, ?_, ?_, released, record⟩
    · intro loc r holds own
      obtain ⟨run, found, live, _⟩ := inv.claims.held loc r holds
      rw [released r own run found] at live
      cases live
    · intro id r enters own
      obtain ⟨run, found, registered, _⟩ := inv.claims.registered id r enters
      have live := Phase.live_of_registered registered
      rw [released r own run found] at live
      cases live
    · intro r run found _
      exact ⟨inv.claims.claimed r run found, entered.entered r run found⟩

end StartRequest

namespace Starting

/-! ### What a step can do -/

/-- What a call of `Start` makes of the process and of itself, action by action. -/
inductive Turn (pool : WorkerPool) (p : Process) (q : StartRequest) :
    StartAction → Process → StartRequest → Prop where
  | locate (i : Nat) (stage : q.stage = .locating) :
    Turn pool p q (.locate i) p { q with stage := .claiming }
  | refused (i : Nat) (stage : q.stage = .claiming) :
    Turn pool p q (.claim i) p { q with stage := .failed }
  | claim (i : Nat) {p' : Process} (stage : q.stage = .claiming)
    (claimed : p.step pool (.start q.locationID q.force) = some p') :
    Turn pool p q (.claim i) p' { q with stage := .opening, run := some p.runs.length }
  | beginScan (i : Nat) (now : Int) (scanID : UUID) {r : Nat} {p' : Process}
    (stage : q.stage = .opening) (given : scanID ≠ .nil)
    (began : p.step pool (.beginScan r now scanID) = some p') :
    Turn pool p q (.beginScan i now scanID) p' { q with stage := .launching, scan := some scanID }
  | beginFails (i : Nat) {r : Nat} {p' : Process} (stage : q.stage = .opening)
    (refused : p.step pool (.beginFails r) = some p') :
    Turn pool p q (.beginFails i) p' { q with stage := .undoing }
  | release (i : Nat) {r : Nat} {p' : Process} (stage : q.stage = .undoing) (run : q.run = some r)
    (released : p.step pool (.release r) = some p') :
    Turn pool p q (.release i) p' { q with stage := .failed }
  | register (i : Nat) (order : MapOrder) (tree : Tree) {r : Nat} {p' : Process}
    (stage : q.stage = .launching)
    (registered : p.step pool (.register r order tree) = some p') :
    Turn pool p q (.register i order tree) p' { q with stage := .reading }
  | readBack (i : Nat) (stage : q.stage = .reading) :
    Turn pool p q (.readBack i) p { q with stage := .returned }
  | fails (i : Nat) (stage : q.stage = .locating ∨ q.stage = .reading) :
    Turn pool p q (.fails i) p { q with stage := .failed }

variable {pool : WorkerPool} {s s' : Starting} {a : StartAction} {i : Nat} {p p' : Process}
  {q q' : StartRequest}

theorem callAt_eq_some_iff {stage : StartStage} :
    s.callAt i stage = some q ↔ s.requests[i]? = some q ∧ q.stage = stage := by
  simp [callAt, Option.filter_eq_some_iff]

theorem callAt_bind {β : Type} {stage : StartStage} {next : StartRequest → Option β} {b : β}
    (h : (s.callAt i stage).bind next = some b) :
    ∃ q, s.requests[i]? = some q ∧ q.stage = stage ∧ next q = some b := by
  obtain ⟨q, there, rest⟩ := Option.bind_eq_some_iff.mp h
  obtain ⟨found, stage⟩ := callAt_eq_some_iff.mp there
  exact ⟨q, found, stage, rest⟩

/-- A call goes on, a call arrives, the process goes on beside them, or it dies. -/
theorem step_cases (h : s.step pool a = some s') :
    (∃ i q q' p', a.call = some i ∧ s.requests[i]? = some q ∧ Turn pool s.process q a p' q' ∧
      s' = s.advance i p' q') ∨
    (∃ loc force, a = .request loc force ∧ s' = s.request loc force) ∨
    (∃ b p', a = .act b ∧ (∀ recovered, b ≠ .restart recovered) ∧
      (∀ r now, b ≠ .beginScan r now .nil) ∧ s.process.step pool b = some p' ∧
      s' = { s with process := p' }) ∨
    ∃ recovered, a = .act (.restart recovered) ∧ s' = ⟨s.process.restart recovered, []⟩ := by
  cases a with
  | request loc force =>
    cases h
    exact .inr (.inl ⟨loc, force, rfl, rfl⟩)
  | locate i =>
    obtain ⟨q, found, stage, rest⟩ := callAt_bind h
    obtain ⟨_, _, done⟩ := Option.bind_eq_some_iff.mp rest
    cases done
    exact .inl ⟨i, q, _, _, rfl, found, .locate i stage, rfl⟩
  | claim i =>
    obtain ⟨q, found, stage, rest⟩ := callAt_bind h
    split at rest
    · cases rest
      exact .inl ⟨i, q, _, _, rfl, found, .refused i stage, rfl⟩
    · obtain ⟨p', claimed, done⟩ := Option.bind_eq_some_iff.mp rest
      cases done
      exact .inl ⟨i, q, _, _, rfl, found, .claim i stage claimed, rfl⟩
  | beginScan i now scanID =>
    obtain ⟨q, found, stage, rest⟩ := callAt_bind h
    obtain ⟨r, run, rest⟩ := Option.bind_eq_some_iff.mp rest
    split at rest
    · cases rest
    · rename_i given
      obtain ⟨p', began, done⟩ := Option.bind_eq_some_iff.mp rest
      cases done
      exact .inl ⟨i, q, _, _, rfl, found, .beginScan i now scanID stage given began, rfl⟩
  | beginFails i =>
    obtain ⟨q, found, stage, rest⟩ := callAt_bind h
    obtain ⟨r, run, rest⟩ := Option.bind_eq_some_iff.mp rest
    obtain ⟨p', refused, done⟩ := Option.bind_eq_some_iff.mp rest
    cases done
    exact .inl ⟨i, q, _, _, rfl, found, .beginFails i stage refused, rfl⟩
  | release i =>
    obtain ⟨q, found, stage, rest⟩ := callAt_bind h
    obtain ⟨r, run, rest⟩ := Option.bind_eq_some_iff.mp rest
    obtain ⟨p', released, done⟩ := Option.bind_eq_some_iff.mp rest
    cases done
    exact .inl ⟨i, q, _, _, rfl, found, .release i stage run released, rfl⟩
  | register i order tree =>
    obtain ⟨q, found, stage, rest⟩ := callAt_bind h
    obtain ⟨r, run, rest⟩ := Option.bind_eq_some_iff.mp rest
    obtain ⟨p', registered, done⟩ := Option.bind_eq_some_iff.mp rest
    cases done
    exact .inl ⟨i, q, _, _, rfl, found, .register i order tree stage registered, rfl⟩
  | readBack i =>
    obtain ⟨q, found, stage, rest⟩ := callAt_bind h
    obtain ⟨id, _, rest⟩ := Option.bind_eq_some_iff.mp rest
    obtain ⟨_, _, done⟩ := Option.bind_eq_some_iff.mp rest
    cases done
    exact .inl ⟨i, q, _, _, rfl, found, .readBack i stage, rfl⟩
  | fails i =>
    simp only [step, fails] at h
    split at h
    · cases h
    · rename_i q found
      split at h
      · rename_i stage
        cases h
        exact .inl ⟨i, q, _, _, rfl, found, .fails i (.inl stage), rfl⟩
      · rename_i stage
        cases h
        exact .inl ⟨i, q, _, _, rfl, found, .fails i (.inr stage), rfl⟩
      · cases h
  | act b =>
    simp only [step, act] at h
    split at h
    case h_5 =>
      split at h
      · obtain ⟨p', released, rfl⟩ := Option.map_eq_some_iff.mp h
        exact .inr (.inr (.inl ⟨_, p', rfl, nofun, nofun, released, rfl⟩))
      · cases h
    case h_6 recovered =>
      cases h
      exact .inr (.inr (.inr ⟨recovered, rfl, rfl⟩))
    case h_7 noBegin _ _ _ noRestart =>
      obtain ⟨p', moved, rfl⟩ := Option.map_eq_some_iff.mp h
      refine .inr (.inr (.inl ⟨b, p', rfl, ?_, ?_, moved, rfl⟩))
      · exact noRestart
      · exact fun r now => noBegin r now .nil
    all_goals cases h

/-! ### A failed call -/

structure Inv (s : Starting) : Prop where
  process : s.process.Inv
  records : s.process.Records
  entered : Entered s.process.runs s.process.byScan
  placed : ∀ q ∈ s.requests, q.Placed s.process

/-- A call makes one step of the process, or none. -/
theorem Turn.process (turn : Turn pool p q a p' q') :
    p' = p ∨ ∃ b, p.step pool b = some p' ∧ (∀ recovered, b ≠ .restart recovered) ∧
      ∀ r now, b ≠ .beginScan r now .nil := by
  cases turn with
  | claim i stage claimed => exact .inr ⟨_, claimed, nofun, nofun⟩
  | beginScan i now scanID stage given began =>
    refine .inr ⟨_, began, nofun, ?_⟩
    intro r now same
    injection same with _ _ isNil
    exact given isNil
  | beginFails i stage refused => exact .inr ⟨_, refused, nofun, nofun⟩
  | release i stage run released => exact .inr ⟨_, released, nofun, nofun⟩
  | register i order tree stage registered => exact .inr ⟨_, registered, nofun, nofun⟩
  | _ => exact .inl rfl

theorem Turn.keeps (turn : Turn pool p q a p' q') : p.Keeps p' := by
  rcases turn.process with rfl | ⟨b, moved, goesOn, _⟩
  · exact .refl _
  · exact Process.step_keeps moved goesOn

theorem Turn.placed (turn : Turn pool p q a p' q') (placed : q.Placed p) : q'.Placed p' := by
  have kept := placed.keep turn.keeps
  cases turn with
  | claim i stage claimed =>
    obtain _ | ⟨_, _, _⟩ := Process.moves_of_step claimed
    refine ⟨?_, kept.scan, by simp [StartStage.unclaimed], fun _ => ?_⟩
    · rintro _ ⟨⟩
      exact ⟨_, List.getElem?_concat_length ..⟩
    · exact placed.unopened (by simp [stage, StartStage.unopened])
  | beginScan i now scanID stage given began =>
    cases Process.moves_of_step began with
    | beginScan _ _ _ run found phase opened =>
      refine ⟨kept.run, ?_, by simp [StartStage.unclaimed], by simp [StartStage.unopened]⟩
      rintro _ ⟨⟩
      exact ⟨_, (ScanTables.beginScan_records opened).2.1⟩
  | locate i stage =>
    exact ⟨kept.run, kept.scan, fun _ => placed.unclaimed (by simp [stage, StartStage.unclaimed]),
      fun _ => placed.unopened (by simp [stage, StartStage.unopened])⟩
  | beginFails i stage refused =>
    exact ⟨kept.run, kept.scan, by simp [StartStage.unclaimed],
      fun _ => placed.unopened (by simp [stage, StartStage.unopened])⟩
  | _ =>
    exact ⟨kept.run, kept.scan, by simp [StartStage.unclaimed], by simp [StartStage.unopened]⟩

/-- A call that fails has ended its scan, unless it fails at the last thing it does. -/
theorem Turn.ended_iff (turn : Turn pool p q a p' q') (placed : q.Placed p)
    (failed : q'.stage = .failed) :
    q'.Ended p' ↔ ((∃ i, a = .fails i) → q.stage = .reading → q.Ended p) := by
  cases turn with
  | refused i stage =>
    have run := placed.unclaimed (by simp [stage, StartStage.unclaimed])
    have scan := placed.unopened (by simp [stage, StartStage.unopened])
    simp [StartRequest.Ended, run, scan]
  | release i stage run released =>
    have scan := placed.unopened (by simp [stage, StartStage.unopened])
    cases Process.moves_of_step released with
    | release r x found phase =>
      simp [StartRequest.Ended, run, scan, Process.setRun, Transition.getElem?_set_here found, Phase.live]
  | fails i stage =>
    rcases stage with stage | stage
    · have run := placed.unclaimed (by simp [stage, StartStage.unclaimed])
      have scan := placed.unopened (by simp [stage, StartStage.unopened])
      simp [StartRequest.Ended, run, scan]
    · simp [StartRequest.Ended, stage]
  | _ => cases failed

theorem step_inv (inv : s.Inv) (h : s.step pool a = some s') : s'.Inv := by
  rcases step_cases h with ⟨i, q, q', p', _, found, turn, rfl⟩ | ⟨loc, force, rfl, rfl⟩ |
    ⟨b, p', rfl, goesOn, given, moved, rfl⟩ | ⟨recovered, rfl, rfl⟩
  · have placed : ∀ x ∈ s.requests.set i q', x.Placed p' := by
      intro x hx
      rcases List.mem_or_eq_of_mem_set hx with old | rfl
      · exact (inv.placed x old).keep turn.keeps
      · exact turn.placed (inv.placed q (List.mem_of_getElem? found))
    rcases turn.process with rfl | ⟨b, moved, _, given⟩
    · exact ⟨inv.process, inv.records, inv.entered, placed⟩
    · exact ⟨Process.step_inv inv.process moved, Process.step_records inv.process inv.records moved,
        Process.step_entered inv.records inv.entered moved given, placed⟩
  · refine ⟨inv.process, inv.records, inv.entered, ?_⟩
    intro x hx
    rcases List.mem_append.mp hx with old | new
    · exact inv.placed x old
    · obtain rfl := List.mem_singleton.mp new
      exact ⟨nofun, nofun, fun _ => rfl, fun _ => rfl⟩
  · exact ⟨Process.step_inv inv.process moved, Process.step_records inv.process inv.records moved,
      Process.step_entered inv.records inv.entered moved given,
      fun x hx => (inv.placed x hx).keep (Process.step_keeps moved goesOn)⟩
  · have moved : s.process.step pool (.restart recovered) = some (s.process.restart recovered) := rfl
    exact ⟨Process.step_inv inv.process moved, Process.step_records inv.process inv.records moved,
      Process.step_entered inv.records inv.entered moved nofun, nofun⟩

theorem failuresLeaveNothing_iff (inv : s.Inv) : s.FailuresLeaveNothing ↔
    ∀ q ∈ s.requests, q.stage = .failed → q.Ended s.process := by
  unfold FailuresLeaveNothing
  simp only [StartRequest.leavesNothing_iff inv.process inv.entered]

theorem step_leavesNothing_iff (inv : s.Inv) (good : s.FailuresLeaveNothing)
    (h : s.step pool a = some s') : s'.FailuresLeaveNothing ↔ s.ReadsBack a := by
  rw [failuresLeaveNothing_iff (step_inv inv h)]
  rw [failuresLeaveNothing_iff inv] at good
  rcases step_cases h with ⟨i, q, q', p', own, found, turn, rfl⟩ | ⟨loc, force, rfl, rfl⟩ |
    ⟨b, p', rfl, goesOn, given, moved, rfl⟩ | ⟨recovered, rfl, rfl⟩
  · have placed := inv.placed q (List.mem_of_getElem? found)
    have here : q' ∈ s.requests.set i q' :=
      List.mem_set (List.getElem?_eq_some_iff.mp found).1 q'
    have others : ∀ x ∈ s.requests, x.stage = .failed → x.Ended p' := fun x hx failed =>
      (good x hx failed).keep (inv.placed x hx) turn.keeps
    have reads : s.ReadsBack a ↔ ((∃ i, a = .fails i) → q.stage = .reading → q.Ended s.process) := by
      cases a with
      | fails j =>
        cases own
        simp [ReadsBack, found]
      | _ => simp [ReadsBack]
    rw [reads]
    constructor
    · intro left at_ reading
      obtain ⟨j, rfl⟩ := at_
      have failed : q'.stage = .failed := by cases turn; rfl
      exact (turn.ended_iff placed failed).mp (left q' here failed) ⟨j, rfl⟩ reading
    · intro reading x hx failed
      rcases List.mem_or_eq_of_mem_set hx with old | rfl
      · exact others x old failed
      · exact (turn.ended_iff placed failed).mpr reading
  · refine ⟨fun _ => trivial, fun _ => ?_⟩
    intro x hx failed
    rcases List.mem_append.mp hx with old | new
    · exact good x old failed
    · obtain rfl := List.mem_singleton.mp new
      cases failed
  · refine ⟨fun _ => trivial, fun _ => ?_⟩
    exact fun x hx failed =>
      (good x hx failed).keep (inv.placed x hx) (Process.step_keeps moved goesOn)
  · exact ⟨fun _ => trivial, fun _ => nofun⟩

theorem empty_inv : empty.Inv := by
  refine ⟨Process.empty_inv, Process.empty_records, ⟨?_, ?_, ?_⟩, nofun⟩ <;>
    simp [empty, Process.empty]

/-- A failed `Start` leaves nothing behind, whatever else the process does and whichever call
fails, as long as it does not fail to read back the record of a scan that goes on. -/
theorem failedStart_leavesNothing_iff (pool : WorkerPool) (events : List StartAction) :
    Transition.Along (step pool) FailuresLeaveNothing empty events ↔
      Transition.StepsMeet (step pool) ReadsBack empty events :=
  Transition.along_iff_stepsMeet (fun _ _ _ inv _ h => step_inv inv h)
    (fun _ _ _ inv good h => step_leavesNothing_iff inv good h) empty_inv nofun

/-- The request is cancelled after `BeginScan` has returned. -/
def cancelledRequest : List StartAction :=
  [.act (.insertLocation 1 "file:///music"), .request 1 false, .locate 0, .claim 0,
    .beginScan 0 0 7, .register 0 .insertion Process.emptyRoot, .fails 0]

/-- `Start` has returned an error, and its scan is running. -/
theorem cancelledRequest_scans : ∃ s, Transition.run (step Process.oneWorker) empty
      cancelledRequest = some s ∧ (∃ q ∈ s.requests, q.stage = .failed ∧ q.run = some 0) ∧
    s.process.byLoc 1 = some 0 ∧ s.process.byScan 7 = some 0 ∧
      s.process.stateOf 7 = some .running ∧ ¬ s.FailuresLeaveNothing := by
  have reaches : (Transition.run (step Process.oneWorker) empty cancelledRequest).map
      (fun s => (s.requests, s.process.byLoc 1, s.process.byScan 7, s.process.stateOf 7)) =
      some ([⟨1, false, .failed, some 0, some 7⟩], some 0, some 0, some .running) := by decide
  obtain ⟨s, ran, facts⟩ := Option.map_eq_some_iff.mp reaches
  simp only [Prod.mk.injEq] at facts
  obtain ⟨requests, byLoc, byScan, state⟩ := facts
  refine ⟨s, ran, ⟨_, by rw [requests]; exact List.mem_singleton_self _, rfl, rfl⟩, byLoc, byScan,
    state, ?_⟩
  intro left
  have nothing := left ⟨1, false, .failed, some 0, some 7⟩ (by simp [requests]) rfl
  exact nothing.byLoc 1 0 byLoc rfl

end Starting

end Byom.Scan
