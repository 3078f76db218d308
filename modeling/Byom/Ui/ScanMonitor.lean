import Byom.Transition.Run

/-!
# The scan monitor

The state of the module `scan-monitor`, with the polls that await their response and the
timers that are armed. Every event handler runs to its end or to its `await`.
-/

namespace Byom.Ui

universe u

/-- `polls` has for each poll the scans it has found before. -/
structure ScanMonitor (Scan : Type u) where
  runningScans : List Scan := []
  timer : Option Nat := none
  stopped : Bool := true
  listening : Bool := false
  polls : List (List Scan) := []
  armed : List Nat := []
  nextTimer : Nat := 0
  invalidations : Nat := 0
  deriving DecidableEq

inductive MonitorEvent (Scan : Type u) where
  | startScanMonitor
  | stopMonitor
  | pokeScanMonitor
  | visibilityChange (visible : Bool)
  | timerFires (timer : Nat)
  | response (poll : Nat) (items : List Scan)
  | failure (poll : Nat)

namespace ScanMonitor

variable {Scan : Type u}

def setTimeout (m : ScanMonitor Scan) : ScanMonitor Scan :=
  { m with
    timer := some m.nextTimer
    armed := m.armed ++ [m.nextTimer]
    nextTimer := m.nextTimer + 1 }

def clearTimeout (timer : Option Nat) (m : ScanMonitor Scan) : ScanMonitor Scan :=
  { m with armed := m.armed.filter fun t => timer ≠ some t }

/-- `poll`, up to the `await`. -/
def poll (m : ScanMonitor Scan) : ScanMonitor Scan :=
  if m.stopped then m else { m with polls := m.polls ++ [m.runningScans] }

/-- `poll`, from the `await` on. -/
def resume (previous items : List Scan) (m : ScanMonitor Scan) : ScanMonitor Scan :=
  if m.stopped then m
  else
    let m := { m with runningScans := items }
    -- a scan that is gone may have changed the library
    let m := if 0 < previous.length ∧ items.length = 0 then
      { m with invalidations := m.invalidations + 1 } else m
    if 0 < items.length then m.setTimeout else m

def pokeScanMonitor (m : ScanMonitor Scan) : ScanMonitor Scan :=
  if m.stopped then m else (m.clearTimeout m.timer).poll

def onVisibility (visible : Bool) (m : ScanMonitor Scan) : ScanMonitor Scan :=
  if visible then m.pokeScanMonitor else m.clearTimeout m.timer

def stopMonitor (m : ScanMonitor Scan) : ScanMonitor Scan :=
  { m.clearTimeout m.timer with stopped := true, listening := false }

def startScanMonitor (m : ScanMonitor Scan) : ScanMonitor Scan :=
  poll { m with stopped := false, listening := true }

def step (m : ScanMonitor Scan) : MonitorEvent Scan → Option (ScanMonitor Scan)
  | .startScanMonitor => some m.startScanMonitor
  | .stopMonitor => some m.stopMonitor
  | .pokeScanMonitor => some m.pokeScanMonitor
  | .visibilityChange visible => some (if m.listening then m.onVisibility visible else m)
  | .timerFires timer =>
    if timer ∈ m.armed then some (poll { m with armed := m.armed.erase timer }) else none
  | .response i items =>
    m.polls[i]?.map fun previous => resume previous items { m with polls := m.polls.eraseIdx i }
  | .failure i =>
    if i < m.polls.length then some { m with polls := m.polls.eraseIdx i } else none

/-- The polls and timers that still act. With the monitor stopped, a response is dropped
and a timer does not poll. -/
def acting (m : ScanMonitor Scan) : Nat :=
  if m.stopped then 0 else m.polls.length + m.armed.length

/-- Nothing polls while a poll awaits its response, and the monitor starts from rest. -/
def Waits (m : ScanMonitor Scan) : MonitorEvent Scan → Prop
  | .startScanMonitor => m.polls = [] ∧ m.armed = []
  | .pokeScanMonitor => m.stopped = true ∨ m.polls = []
  | .visibilityChange visible =>
    visible = true → m.listening = true → m.stopped = true ∨ m.polls = []
  | _ => True

/-- One poll or one timer, which is the one in `timer`. -/
structure Chain (m : ScanMonitor Scan) : Prop where
  single : m.polls.length + m.armed.length ≤ 1
  known : ∀ t ∈ m.armed, m.timer = some t
  idle : m.stopped = true → m.armed = []

variable {m m' : ScanMonitor Scan} {e : MonitorEvent Scan}

theorem Chain.rest (unarmed : m.armed = []) (free : m.polls = []) : Chain m where
  single := by simp [unarmed, free]
  known := by simp [unarmed]
  idle := fun _ => unarmed

theorem Chain.acting_le (chain : Chain m) : m.acting ≤ 1 := by
  unfold acting
  split
  · exact Nat.zero_le 1
  · exact chain.single

/-- The one timer is cleared. -/
theorem Chain.armed_clearTimeout (chain : Chain m) : (m.clearTimeout m.timer).armed = [] := by
  unfold ScanMonitor.clearTimeout
  rw [List.filter_eq_nil_iff]
  intro t ht
  rw [chain.known t ht]
  simp

theorem Chain.clearTimeout (chain : Chain m) : Chain (m.clearTimeout m.timer) where
  single := by
    rw [chain.armed_clearTimeout]
    exact Nat.le_trans (Nat.le_add_right _ _) chain.single
  known := by
    rw [chain.armed_clearTimeout]
    exact List.forall_mem_nil _
  idle := fun _ => chain.armed_clearTimeout

/-- A poll that awaits its response is alone. -/
theorem Chain.alone (chain : Chain m) {i : Nat} (awaits : i < m.polls.length) :
    m.polls.eraseIdx i = [] ∧ m.armed = [] := by
  have single := chain.single
  constructor
  · apply List.eq_nil_of_length_eq_zero
    rw [List.length_eraseIdx_of_lt awaits]
    omega
  · apply List.eq_nil_of_length_eq_zero
    omega

/-- So is a timer that is armed. -/
theorem Chain.alone_of_armed (chain : Chain m) {t : Nat} (armed : t ∈ m.armed) :
    m.armed.erase t = [] ∧ m.polls = [] := by
  have single := chain.single
  have positive := List.length_pos_of_mem armed
  constructor
  · apply List.eq_nil_of_length_eq_zero
    rw [List.length_erase_of_mem armed]
    omega
  · apply List.eq_nil_of_length_eq_zero
    omega

/-! ### Polls and timers that begin -/

theorem Chain.poll (unarmed : m.armed = []) (free : m.polls = []) : Chain m.poll := by
  unfold ScanMonitor.poll
  split
  · exact .rest unarmed free
  · rename_i running
    exact ⟨by simp [unarmed, free], by simp [unarmed], fun _ => unarmed⟩

/-- With no timer, a poll that begins is the only one if there was none. -/
theorem acting_poll (running : m.stopped = false) (unarmed : m.armed = []) :
    m.poll.acting ≤ 1 ↔ m.polls = [] := by
  simp [ScanMonitor.poll, acting, running, unarmed]

theorem Chain.setTimeout (running : m.stopped = false) (unarmed : m.armed = [])
    (free : m.polls = []) : Chain m.setTimeout where
  single := by simp [ScanMonitor.setTimeout, unarmed, free]
  known := by simp [ScanMonitor.setTimeout, unarmed]
  idle := by simp [ScanMonitor.setTimeout, running]

theorem Chain.resume {previous items : List Scan} (unarmed : m.armed = []) (free : m.polls = []) :
    Chain (m.resume previous items) := by
  unfold ScanMonitor.resume
  cases running : m.stopped with
  | true => exact .rest unarmed free
  | false =>
    simp only [Bool.false_eq_true, if_false]
    split
    · split <;> exact .setTimeout rfl unarmed free
    · split <;> exact .rest unarmed free

theorem acting_start (m : ScanMonitor Scan) :
    m.startScanMonitor.acting ≤ 1 ↔ m.polls = [] ∧ m.armed = [] := by
  simp only [startScanMonitor, ScanMonitor.poll, acting, Bool.false_eq_true, if_false,
    List.length_append, List.length_singleton, ← List.length_eq_zero_iff]
  omega

theorem Chain.acting_poke (chain : Chain m) :
    m.pokeScanMonitor.acting ≤ 1 ↔ m.stopped = true ∨ m.polls = [] := by
  unfold pokeScanMonitor
  cases stopped : m.stopped with
  | true => simp [acting, stopped]
  | false =>
    have poked : (m.clearTimeout m.timer).poll.acting ≤ 1 ↔ m.polls = [] :=
      acting_poll stopped chain.armed_clearTimeout
    simpa using poked

theorem Chain.poke (chain : Chain m) (waits : m.stopped = true ∨ m.polls = []) :
    Chain m.pokeScanMonitor := by
  unfold pokeScanMonitor
  cases stopped : m.stopped with
  | true => exact chain
  | false =>
    have free : m.polls = [] := waits.resolve_left (by simp [stopped])
    exact .poll chain.armed_clearTimeout free

/-! ### One event, and all of them -/

theorem step_chain (chain : Chain m) (waits : Waits m e) (h : step m e = some m') : Chain m' := by
  cases e with
  | startScanMonitor =>
    cases h
    exact .poll waits.2 waits.1
  | stopMonitor =>
    cases h
    have cleared := chain.clearTimeout
    exact ⟨cleared.single, cleared.known, fun _ => chain.armed_clearTimeout⟩
  | pokeScanMonitor =>
    cases h
    exact chain.poke waits
  | visibilityChange visible =>
    cases h
    split
    · rename_i listening
      cases visible with
      | true => exact chain.poke (waits rfl listening)
      | false => exact chain.clearTimeout
    · exact chain
  | timerFires timer =>
    obtain ⟨armed, done⟩ := Option.ite_none_right_eq_some.mp h
    cases done
    obtain ⟨unarmed, free⟩ := chain.alone_of_armed armed
    exact .poll unarmed free
  | response i items =>
    obtain ⟨previous, awaits, rfl⟩ := Option.map_eq_some_iff.mp h
    obtain ⟨inside, _⟩ := List.getElem?_eq_some_iff.mp awaits
    obtain ⟨free, unarmed⟩ := chain.alone inside
    exact .resume unarmed free
  | failure i =>
    obtain ⟨inside, done⟩ := Option.ite_none_right_eq_some.mp h
    cases done
    obtain ⟨free, unarmed⟩ := chain.alone inside
    exact .rest unarmed free

theorem step_acting (chain : Chain m) (h : step m e = some m') : m'.acting ≤ 1 ↔ Waits m e := by
  have within : Waits m e → m'.acting ≤ 1 := fun waits => (step_chain chain waits h).acting_le
  cases e with
  | startScanMonitor =>
    cases h
    exact acting_start m
  | pokeScanMonitor =>
    cases h
    exact chain.acting_poke
  | visibilityChange visible =>
    cases h
    cases listening : m.listening with
    | false => exact iff_of_true chain.acting_le (by simp [Waits, listening])
    | true =>
      cases visible with
      | false => exact iff_of_true chain.clearTimeout.acting_le (by simp [Waits])
      | true => simpa [Waits, listening, onVisibility] using chain.acting_poke
  | stopMonitor => exact iff_of_true (within trivial) trivial
  | timerFires timer => exact iff_of_true (within trivial) trivial
  | response i items => exact iff_of_true (within trivial) trivial
  | failure i => exact iff_of_true (within trivial) trivial

/-- The monitor has one chain of polls in a run exactly if none of its polls is begun
beside another one. -/
theorem single_chain_iff (events : List (MonitorEvent Scan)) :
    Transition.Along step (fun m => m.acting ≤ 1) ({} : ScanMonitor Scan) events ↔
      Transition.StepsMeet step Waits ({} : ScanMonitor Scan) events := by
  apply Transition.along_iff_stepsMeet (I := fun m => m.acting ≤ 1 → Chain m)
  · intro m e m' chain good h good'
    exact step_chain (chain good) ((step_acting (chain good) h).mp good') h
  · intro m e m' chain good h
    exact step_acting (chain good) h
  · exact fun _ => .rest rfl rfl
  · exact Nat.zero_le 1

/-- A poke before the first response begins a second chain. -/
theorem poke_doubles : ¬∀ events : List (MonitorEvent Unit),
    Transition.Along step (fun m => m.acting ≤ 1) ({} : ScanMonitor Unit) events := by
  intro single
  exact absurd (single [.startScanMonitor, .pokeScanMonitor]) (by decide)

end ScanMonitor

end Byom.Ui
