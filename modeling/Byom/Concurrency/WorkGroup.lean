import Mathlib.Algebra.Order.Group.Multiset
import Mathlib.Tactic.Abel
import Byom.Transition.Leases

/-!
# A producer and its workers in one error group

One goroutine feeds items into a bounded channel and closes it when it returns;
the workers take items until the channel is closed and empty. The first error of
any of them is kept and ends the context they share, and so does a cancellation
from outside. At a select with several ready cases any of them may be taken.
-/

namespace Byom.Concurrency

universe u v w

/-- Where the goroutine that feeds the channel is. The channel is closed before the
group hears of the error it returned. -/
inductive Producer (Item : Type u) (Err : Type w) where
  | producing
  | sending (item : Item)
  | closing (err : Option Err)
  | returned (err : Option Err)
  deriving DecidableEq

/-- Where a worker is; `Local` is what it knows about the item it took. -/
inductive Worker (Item : Type u) (Local : Type v) (Err : Type w) where
  | waiting
  | working (item : Item) (here : Local)
  | returned (err : Option Err)
  deriving DecidableEq

section

variable {Item : Type u} {Local : Type v} {Err : Type w}

def Producer.item : Producer Item Err → Option Item
  | .sending item => some item
  | _ => none

def Producer.hasClosed : Producer Item Err → Bool
  | .closing _ => true
  | .returned _ => true
  | _ => false

def Producer.hasReturned : Producer Item Err → Bool
  | .returned _ => true
  | _ => false

def Worker.item : Worker Item Local Err → Option Item
  | .working item _ => some item
  | _ => none

def Worker.hasReturned : Worker Item Local Err → Bool
  | .returned _ => true
  | _ => false

@[simp] theorem Worker.item_waiting : (waiting : Worker Item Local Err).item = none := rfl

@[simp] theorem Worker.item_working (item : Item) (here : Local) :
    (working item here : Worker Item Local Err).item = some item := rfl

@[simp] theorem Worker.item_returned (err : Option Err) :
    (returned err : Worker Item Local Err).item = none := rfl

@[simp] theorem Producer.item_producing : (producing : Producer Item Err).item = none := rfl

@[simp] theorem Producer.item_sending (item : Item) :
    (sending item : Producer Item Err).item = some item := rfl

@[simp] theorem Producer.item_closing (err : Option Err) :
    (closing err : Producer Item Err).item = none := rfl

@[simp] theorem Producer.item_returned (err : Option Err) :
    (returned err : Producer Item Err).item = none := rfl

theorem Producer.eq_returned {p : Producer Item Err} (h : p.hasReturned = true) :
    ∃ err, p = .returned err := by
  cases p <;> simp_all [Producer.hasReturned]

theorem Worker.eq_returned {worker : Worker Item Local Err} (h : worker.hasReturned = true) :
    ∃ err, worker = .returned err := by
  cases worker <;> simp_all [Worker.hasReturned]

end

/-- The group with its channel. `offered` are the items the producer tried to
send so far, `finished` those a worker is done with. -/
structure WorkGroup (Item : Type u) (Local : Type v) (Err : Type w) where
  capacity : Nat
  producer : Producer Item Err
  workers : List (Worker Item Local Err)
  channel : List Item
  cancelled : Bool
  err : Option Err
  offered : List Item
  finished : List Item

inductive Event (Item : Type u) (Local : Type v) (Err : Type w) where
  | cancel
  | offer (item : Item)
  | send
  | giveUp (err : Err)
  | produced (err : Option Err)
  | closed
  | receive (i : Nat) (here : Local)
  | drain (i : Nat)
  | stop (i : Nat) (err : Err)
  | advance (i : Nat) (here : Local)
  | finish (i : Nat)
  | fail (i : Nat) (err : Err)

namespace WorkGroup

variable {Item : Type u} {Local : Type v} {Err : Type w}

/-- A group of `count` workers, before any of its goroutines moved. -/
def start (count capacity : Nat) (cancelled : Bool) : WorkGroup Item Local Err :=
  ⟨capacity, .producing, List.replicate count .waiting, [], cancelled, none, [], []⟩

/-- Whether the shared context has ended. -/
def done (g : WorkGroup Item Local Err) : Bool := g.cancelled || g.err.isSome

/-- What waiting for the group returns, once it does. -/
def waited (g : WorkGroup Item Local Err) : Option (Option Err) :=
  if g.producer.hasReturned && g.workers.all Worker.hasReturned then some g.err else none

def setProducer (g : WorkGroup Item Local Err) (producer : Producer Item Err) :
    WorkGroup Item Local Err :=
  { g with producer := producer }

def setWorker (g : WorkGroup Item Local Err) (i : Nat) (worker : Worker Item Local Err) :
    WorkGroup Item Local Err :=
  { g with workers := g.workers.set i worker }

/-- The group keeps the first error only. -/
def report (g : WorkGroup Item Local Err) (err : Option Err) : WorkGroup Item Local Err :=
  { g with err := g.err <|> err }

def step (g : WorkGroup Item Local Err) :
    Event Item Local Err → Option (WorkGroup Item Local Err)
  | .cancel => some { g with cancelled := true }
  | .offer item =>
    match g.producer with
    | .producing => some { g with producer := .sending item, offered := g.offered ++ [item] }
    | _ => none
  | .send =>
    match g.producer with
    | .sending item =>
      if g.channel.length < g.capacity then
        some { g with producer := .producing, channel := g.channel ++ [item] }
      else none
    | _ => none
  | .giveUp err =>
    match g.producer with
    | .sending _ => if g.done then some (g.setProducer (.closing (some err))) else none
    | _ => none
  | .produced err =>
    match g.producer with
    | .producing => some (g.setProducer (.closing err))
    | _ => none
  | .closed =>
    match g.producer with
    | .closing err => some ((g.report err).setProducer (.returned err))
    | _ => none
  | .receive i here =>
    match g.workers[i]?, g.channel with
    | some .waiting, item :: rest =>
      some ({ g with channel := rest }.setWorker i (.working item here))
    | _, _ => none
  | .drain i =>
    match g.workers[i]?, g.channel with
    | some .waiting, [] =>
      if g.producer.hasClosed then some (g.setWorker i (.returned none)) else none
    | _, _ => none
  | .stop i err =>
    match g.workers[i]? with
    | some .waiting =>
      if g.done then some ((g.report (some err)).setWorker i (.returned (some err))) else none
    | _ => none
  | .advance i here =>
    match g.workers[i]? with
    | some (.working item _) => some (g.setWorker i (.working item here))
    | _ => none
  | .finish i =>
    match g.workers[i]? with
    | some (.working item _) =>
      some ({ g with finished := g.finished ++ [item] }.setWorker i .waiting)
    | _ => none
  | .fail i err =>
    match g.workers[i]? with
    | some (.working _ _) => some ((g.report (some err)).setWorker i (.returned (some err)))
    | _ => none

/-- The items that are on their way: at the producer, in the channel, at a worker. -/
def inFlight (g : WorkGroup Item Local Err) : Multiset Item :=
  (g.producer.item.toList ++ g.channel ++ g.workers.filterMap Worker.item : List Item)

/-- An error has been returned, though the group may not have heard of it yet. -/
def Failing (g : WorkGroup Item Local Err) : Prop :=
  g.err ≠ none ∨ ∃ e, g.producer = .closing (some e)

/-- Every offered item is finished or on its way unless a goroutine failed, and a
worker returns without an error only when nothing can come through the channel. -/
structure Sound (g : WorkGroup Item Local Err) : Prop where
  conserved : ∃ lost : Multiset Item,
    (g.offered : Multiset Item) = g.finished + g.inFlight + lost ∧ (lost ≠ 0 → g.Failing)
  producer : ∀ e, g.producer = .returned (some e) → g.err ≠ none
  workers : ∀ e, .returned (some e) ∈ g.workers → g.err ≠ none
  emptied : .returned none ∈ g.workers → g.producer.hasClosed = true ∧ g.channel = []

variable {g g' : WorkGroup Item Local Err} {ev : Event Item Local Err} {i : Nat}

/-- What an event does, and when it can happen. -/
inductive Moves (g : WorkGroup Item Local Err) :
    Event Item Local Err → WorkGroup Item Local Err → Prop where
  | cancel : Moves g .cancel { g with cancelled := true }
  | offer (item : Item) (producing : g.producer = .producing) :
    Moves g (.offer item) { g with producer := .sending item, offered := g.offered ++ [item] }
  | send (item : Item) (sending : g.producer = .sending item)
    (room : g.channel.length < g.capacity) :
    Moves g .send { g with producer := .producing, channel := g.channel ++ [item] }
  | giveUp (err : Err) (item : Item) (sending : g.producer = .sending item)
    (done : g.done = true) : Moves g (.giveUp err) (g.setProducer (.closing (some err)))
  | produced (err : Option Err) (producing : g.producer = .producing) :
    Moves g (.produced err) (g.setProducer (.closing err))
  | closed (err : Option Err) (closing : g.producer = .closing err) :
    Moves g .closed ((g.report err).setProducer (.returned err))
  | receive (i : Nat) (here : Local) (item : Item) (rest : List Item)
    (found : g.workers[i]? = some .waiting) (queued : g.channel = item :: rest) :
    Moves g (.receive i here) ({ g with channel := rest }.setWorker i (.working item here))
  | drain (i : Nat) (found : g.workers[i]? = some .waiting) (empty : g.channel = [])
    (closed : g.producer.hasClosed = true) :
    Moves g (.drain i) (g.setWorker i (.returned none))
  | stop (i : Nat) (err : Err) (found : g.workers[i]? = some .waiting) (done : g.done = true) :
    Moves g (.stop i err) ((g.report (some err)).setWorker i (.returned (some err)))
  | advance (i : Nat) (here : Local) (item : Item) (old : Local)
    (found : g.workers[i]? = some (.working item old)) :
    Moves g (.advance i here) (g.setWorker i (.working item here))
  | finish (i : Nat) (item : Item) (old : Local)
    (found : g.workers[i]? = some (.working item old)) :
    Moves g (.finish i) ({ g with finished := g.finished ++ [item] }.setWorker i .waiting)
  | fail (i : Nat) (err : Err) (item : Item) (old : Local)
    (found : g.workers[i]? = some (.working item old)) :
    Moves g (.fail i err) ((g.report (some err)).setWorker i (.returned (some err)))

theorem moves_of_step (h : g.step ev = some g') : g.Moves ev g' := by
  cases ev with
  | cancel =>
    cases h
    exact .cancel
  | offer item =>
    simp only [step] at h
    split at h <;> cases h
    exact .offer item ‹_›
  | send =>
    simp only [step] at h
    split at h <;> [split at h; skip] <;> cases h
    exact .send _ ‹_› ‹_›
  | giveUp err =>
    simp only [step] at h
    split at h <;> [split at h; skip] <;> cases h
    exact .giveUp err _ ‹_› ‹_›
  | produced err =>
    simp only [step] at h
    split at h <;> cases h
    exact .produced err ‹_›
  | closed =>
    simp only [step] at h
    split at h <;> cases h
    exact .closed _ ‹_›
  | receive i here =>
    simp only [step] at h
    split at h <;> cases h
    exact .receive i here _ _ ‹_› ‹_›
  | drain i =>
    simp only [step] at h
    split at h <;> [split at h; skip] <;> cases h
    exact .drain i ‹_› ‹_› ‹_›
  | stop i err =>
    simp only [step] at h
    split at h <;> [split at h; skip] <;> cases h
    exact .stop i err ‹_› ‹_›
  | advance i here =>
    simp only [step] at h
    split at h <;> cases h
    exact .advance i here _ _ ‹_›
  | finish i =>
    simp only [step] at h
    split at h <;> cases h
    exact .finish i _ _ ‹_›
  | fail i err =>
    simp only [step] at h
    split at h <;> cases h
    exact .fail i err _ _ ‹_›

theorem start_sound (count capacity : Nat) (cancelled : Bool) :
    (start count capacity cancelled : WorkGroup Item Local Err).Sound := by
  refine ⟨⟨0, ?_, by simp⟩, by simp [start], by simp [start], by simp [start]⟩
  simp [start, inFlight, Producer.item, Worker.item, List.filterMap_replicate]

/-- What the workers hold when one of them changes. -/
theorem busy_set {ws : List (Worker Item Local Err)} {x : Worker Item Local Err}
    (found : ws[i]? = some x) (y : Worker Item Local Err) :
    (x.item.toList : Multiset Item) + (ws.set i y).filterMap Worker.item =
      y.item.toList + ws.filterMap Worker.item :=
  Multiset.coe_eq_coe.mpr (Transition.filterMap_set_perm Worker.item found y)

theorem report_ne_none (g : WorkGroup Item Local Err) {err : Option Err}
    (h : g.err ≠ none ∨ err ≠ none) : (g.report err).err ≠ none := by
  cases own : g.err <;> simp_all [report]

theorem inFlight_eq (g : WorkGroup Item Local Err) : g.inFlight =
    g.producer.item.toList + g.channel + (g.workers.filterMap Worker.item : Multiset Item) := rfl

/-- A worker that returns an error; what it held is lost. -/
theorem Sound.workerFails (sound : g.Sound) {x : Worker Item Local Err}
    (found : g.workers[i]? = some x) (e : Err) :
    ((g.report (some e)).setWorker i (.returned (some e))).Sound := by
  have failed : (g.report (some e)).err ≠ none := g.report_ne_none (.inr (by simp))
  obtain ⟨lost, all, _⟩ := sound.conserved
  refine ⟨⟨x.item.toList + lost, ?_, fun _ => .inl failed⟩, fun _ _ => failed,
    fun _ _ => failed, ?_⟩
  · have moved := busy_set found (.returned (some e))
    simp only [Worker.item_returned, Option.toList_none, Multiset.coe_nil, zero_add] at moved
    change (g.offered : Multiset Item) = _
    rw [all, inFlight_eq, inFlight_eq, ← moved]
    simp only [setWorker, report]
    abel
  · intro listed
    rcases List.mem_or_eq_of_mem_set listed with old | new
    · exact sound.emptied old
    · simp at new

/-- A worker that moves on, where items only change hands. -/
theorem Sound.workerMoves (sound : g.Sound) {x y : Worker Item Local Err}
    (found : g.workers[i]? = some x) (channel finished : List Item)
    (same : (finished : Multiset Item) + channel + y.item.toList =
      g.finished + g.channel + x.item.toList)
    (shrinks : g.channel = [] → channel = []) (clean : ∀ e, y ≠ .returned (some e))
    (emptied : y = .returned none → g.producer.hasClosed = true ∧ channel = []) :
    ({ g with channel := channel, finished := finished }.setWorker i y).Sound := by
  obtain ⟨lost, all, blamed⟩ := sound.conserved
  refine ⟨⟨lost, ?_, blamed⟩, sound.producer, ?_, ?_⟩
  · have moved := busy_set found y
    change (g.offered : Multiset Item) = _
    rw [all, inFlight_eq, inFlight_eq]
    simp only [setWorker]
    apply add_left_cancel (a := (x.item.toList : Multiset Item))
    calc (x.item.toList : Multiset Item) + (g.finished + (g.producer.item.toList + g.channel +
          (g.workers.filterMap Worker.item : Multiset Item)) + lost)
      _ = g.finished + g.channel + x.item.toList + g.producer.item.toList + lost +
          (g.workers.filterMap Worker.item : Multiset Item) := by abel
      _ = finished + channel + g.producer.item.toList + lost +
          (y.item.toList + (g.workers.filterMap Worker.item : Multiset Item)) := by
        rw [← same]
        abel
      _ = _ := by
        rw [← moved]
        abel
  · intro e listed
    rcases List.mem_or_eq_of_mem_set listed with old | new
    · exact sound.workers e old
    · exact absurd new.symm (clean e)
  · intro listed
    rcases List.mem_or_eq_of_mem_set listed with old | new
    · obtain ⟨closed, empty⟩ := sound.emptied old
      exact ⟨closed, shrinks empty⟩
    · exact emptied new.symm

/-- The producer goes on, where items only change hands. -/
theorem Sound.producerMoves (sound : g.Sound) {p : Producer Item Err} {channel offered : List Item}
    (isOpen : g.producer.hasClosed = false)
    (same : (offered : Multiset Item) + g.channel + g.producer.item.toList =
      g.offered + channel + p.item.toList)
    (quiet : ∀ e, p ≠ .returned (some e)) :
    { g with producer := p, channel := channel, offered := offered }.Sound := by
  obtain ⟨lost, all, blamed⟩ := sound.conserved
  refine ⟨⟨lost, ?_, ?_⟩, ?_, sound.workers, ?_⟩
  · apply add_right_cancel (b := (g.channel : Multiset Item) + g.producer.item.toList)
    calc (offered : Multiset Item) + (g.channel + g.producer.item.toList)
      _ = g.offered + channel + p.item.toList := by rw [← same, add_assoc]
      _ = _ := by
        rw [all, inFlight_eq, inFlight_eq]
        abel
  · intro nonzero
    rcases blamed nonzero with heard | ⟨e, closing⟩
    · exact .inl heard
    · simp [closing, Producer.hasClosed] at isOpen
  · exact fun e h => absurd h (quiet e)
  · intro listed
    have closed := (sound.emptied listed).1
    simp [isOpen] at closed

theorem step_sound (sound : g.Sound) (h : g.step ev = some g') : g'.Sound := by
  cases moves_of_step h with
  | cancel => exact { sound with }
  | offer item producing =>
    refine sound.producerMoves (by simp [producing, Producer.hasClosed]) ?_ (by simp)
    simp only [producing, ← Multiset.coe_add, Producer.item_producing, Producer.item_sending,
      Option.toList_none, Option.toList_some, Multiset.coe_nil]
    abel
  | send item sending room =>
    refine sound.producerMoves (by simp [sending, Producer.hasClosed]) ?_ (by simp)
    simp only [sending, ← Multiset.coe_add, Producer.item_producing, Producer.item_sending,
      Option.toList_none, Option.toList_some, Multiset.coe_nil]
    abel
  | giveUp err item sending done =>
    obtain ⟨lost, all, _⟩ := sound.conserved
    refine ⟨⟨{item} + lost, ?_, fun _ => .inr ⟨err, rfl⟩⟩, by simp [setProducer],
      sound.workers, ?_⟩
    · change (g.offered : Multiset Item) = _
      rw [all, inFlight_eq, inFlight_eq]
      simp only [setProducer, sending, Producer.item_sending, Producer.item_closing,
        Option.toList_some, Option.toList_none, Multiset.coe_nil, Multiset.coe_singleton]
      abel
    · exact fun listed => ⟨rfl, (sound.emptied listed).2⟩
  | produced err producing =>
    refine sound.producerMoves (by simp [producing, Producer.hasClosed]) ?_ (by simp)
    simp [producing]
  | closed err closing =>
    obtain ⟨lost, all, blamed⟩ := sound.conserved
    refine ⟨⟨lost, ?_, ?_⟩, ?_, ?_, ?_⟩
    · change (g.offered : Multiset Item) = _
      rw [all, inFlight_eq, inFlight_eq]
      simp only [setProducer, report, closing, Producer.item_closing, Producer.item_returned]
    · intro nonzero
      refine .inl (g.report_ne_none ?_)
      rcases blamed nonzero with heard | ⟨e, same⟩
      · exact .inl heard
      · rw [closing] at same
        cases same
        exact .inr (by simp)
    · intro e same
      cases same
      exact g.report_ne_none (.inr (by simp))
    · exact fun e listed => g.report_ne_none (.inl (sound.workers e listed))
    · exact fun listed => ⟨rfl, (sound.emptied listed).2⟩
  | receive i here item rest found queued =>
    refine sound.workerMoves found rest g.finished ?_ (by simp [queued]) (by simp) (by simp)
    simp only [queued, ← Multiset.cons_coe, Worker.item_working, Worker.item_waiting,
      Option.toList_none, Option.toList_some, Multiset.coe_nil, ← Multiset.singleton_add]
    abel
  | drain i found empty closed =>
    exact sound.workerMoves found g.channel g.finished (by simp) id (by simp)
      fun _ => ⟨closed, empty⟩
  | stop i err found done => exact sound.workerFails found err
  | advance i here item old found =>
    exact sound.workerMoves found g.channel g.finished (by simp) id (by simp) (by simp)
  | finish i item old found =>
    refine sound.workerMoves found g.channel _ ?_ id (by simp) (by simp)
    simp only [Worker.item_working, Worker.item_waiting, ← Multiset.coe_add, Option.toList_none,
      Option.toList_some, Multiset.coe_nil]
    abel
  | fail i err item old found => exact sound.workerFails found err

/-- The channel and the workers are fixed when the group starts. -/
theorem step_sizes (h : g.step ev = some g') :
    g'.capacity = g.capacity ∧ g'.workers.length = g.workers.length := by
  cases moves_of_step h <;> simp [setProducer, setWorker, report]

/-- The group keeps its error, and gets one from a goroutine that returns. -/
theorem step_err (h : g.step ev = some g') : g'.err = g.err ∨
    ∃ e, g.err = none ∧ g'.err = some e ∧
      ((∃ i, ev = .stop i e) ∨ (∃ i, ev = .fail i e) ∨
        ev = .closed ∧ g.producer = .closing (some e)) := by
  have reported : ∀ err : Option Err, (g.report err).err = g.err ∨
      ∃ e, g.err = none ∧ (g.report err).err = some e ∧ err = some e := by
    intro err
    cases own : g.err <;> cases err <;> simp [report, own]
  cases moves_of_step h with
  | closed err closing =>
    rcases reported err with same | ⟨e, clean, now, rfl⟩
    · exact .inl same
    · exact .inr ⟨e, clean, now, .inr (.inr ⟨rfl, closing⟩)⟩
  | stop i err found done =>
    rcases reported (some err) with same | ⟨e, clean, now, own⟩
    · exact .inl same
    · cases own
      exact .inr ⟨err, clean, now, .inl ⟨i, rfl⟩⟩
  | fail i err item old found =>
    rcases reported (some err) with same | ⟨e, clean, now, own⟩
    · exact .inl same
    · cases own
      exact .inr ⟨err, clean, now, .inr (.inl ⟨i, rfl⟩)⟩
  | _ => exact .inl rfl

theorem returned_of_waited {err : Option Err} (h : g.waited = some err) :
    g.producer.hasReturned = true ∧ (∀ w ∈ g.workers, w.hasReturned = true) ∧ g.err = err := by
  unfold waited at h
  split at h
  · rename_i all
    simp only [Bool.and_eq_true, List.all_eq_true] at all
    exact ⟨all.1, all.2, by simpa using h⟩
  · cases h

/-- Once waiting has returned, only the context of the group can still change. -/
theorem cancel_of_waited {err : Option Err} (waited : g.waited = some err)
    (h : g.step ev = some g') : ev = .cancel := by
  obtain ⟨produced, stopped, _⟩ := returned_of_waited waited
  have noneWaits : ∀ i : Nat, g.workers[i]? ≠ some .waiting := by
    intro i found
    have := stopped _ (List.mem_of_getElem? found)
    simp [Worker.hasReturned] at this
  have noneWorks : ∀ (i : Nat) item here, g.workers[i]? ≠ some (.working item here) := by
    intro i item here found
    have := stopped _ (List.mem_of_getElem? found)
    simp [Worker.hasReturned] at this
  cases moves_of_step h with
  | cancel => rfl
  | offer item producing => simp [producing, Producer.hasReturned] at produced
  | send item sending room => simp [sending, Producer.hasReturned] at produced
  | giveUp err item sending done => simp [sending, Producer.hasReturned] at produced
  | produced err producing => simp [producing, Producer.hasReturned] at produced
  | closed err closing => simp [closing, Producer.hasReturned] at produced
  | receive i here item rest found queued => exact absurd found (noneWaits i)
  | drain i found empty closed => exact absurd found (noneWaits i)
  | stop i err found done => exact absurd found (noneWaits i)
  | advance i here item old found => exact absurd found (noneWorks i item old)
  | finish i item old found => exact absurd found (noneWorks i item old)
  | fail i err item old found => exact absurd found (noneWorks i item old)

/-- When waiting for the group returns no error, nothing that was offered is left. -/
theorem Sound.drained (sound : g.Sound) (staffed : g.workers ≠ []) (h : g.waited = some none) :
    g.producer = .returned none ∧ g.finished.Perm g.offered := by
  obtain ⟨produced, stopped, clean⟩ := returned_of_waited h
  obtain ⟨err, returned⟩ := Producer.eq_returned produced
  have quiet : g.producer = .returned none := by
    cases err with
    | none => exact returned
    | some e => exact absurd clean (sound.producer e returned)
  have allQuiet : ∀ w ∈ g.workers, w = .returned none := by
    intro w hw
    obtain ⟨err, rfl⟩ := Worker.eq_returned (stopped w hw)
    cases err with
    | none => rfl
    | some e => exact absurd clean (sound.workers e hw)
  have idle : g.workers.filterMap Worker.item = [] := by
    apply List.filterMap_eq_nil_iff.mpr
    intro w hw
    rw [allQuiet w hw, Worker.item_returned]
  obtain ⟨w, hw⟩ := List.exists_mem_of_ne_nil _ staffed
  have empty := (sound.emptied (allQuiet w hw ▸ hw)).2
  obtain ⟨lost, all, blamed⟩ := sound.conserved
  have nothing : lost = 0 := by
    by_contra nonzero
    rcases blamed nonzero with heard | ⟨e, closing⟩
    · exact heard clean
    · rw [quiet] at closing
      cases closing
  refine ⟨quiet, Multiset.coe_eq_coe.mp ?_⟩
  rw [all, inFlight_eq, quiet, idle, empty, nothing]
  simp

/-- Until waiting for the group returns, the producer or a worker is at work, or
one of the goroutines can take its next step. -/
theorem Sound.canProceed (sound : g.Sound) (staffed : g.workers ≠ []) (room : 0 < g.capacity)
    (h : g.waited = none) (here : Local) (err : Err) :
    g.producer = .producing ∨
      (∃ (i : Nat) (item : Item) (l : Local), g.workers[i]? = some (.working item l)) ∨
      (g.step .send).isSome ∨ (g.step (.giveUp err)).isSome ∨ (g.step .closed).isSome ∨
      ∃ i, (g.step (.receive i here)).isSome ∨ (g.step (.drain i)).isSome := by
  -- A worker that has not returned is at work, or it can take from the channel.
  have worker : ∀ w ∈ g.workers, w.hasReturned = false →
      g.channel ≠ [] ∨ g.producer.hasClosed = true →
      (∃ (i : Nat) (item : Item) (l : Local), g.workers[i]? = some (.working item l)) ∨
        ∃ i, (g.step (.receive i here)).isSome ∨ (g.step (.drain i)).isSome := by
    intro w hw active ready
    obtain ⟨i, found⟩ := List.mem_iff_getElem?.mp hw
    cases w with
    | working item l => exact .inl ⟨i, item, l, found⟩
    | returned err => simp [Worker.hasReturned] at active
    | waiting =>
      refine .inr ⟨i, ?_⟩
      cases queue : g.channel with
      | nil =>
        have closed : g.producer.hasClosed = true := by simpa [queue] using ready
        exact .inr (by simp [step, found, queue, closed])
      | cons item rest => exact .inl (by simp [step, found, queue])
  cases producer : g.producer with
  | producing => exact .inl rfl
  | closing err => exact .inr (.inr (.inr (.inr (.inl (by simp [step, producer])))))
  | sending item =>
    by_cases space : g.channel.length < g.capacity
    · exact .inr (.inr (.inl (by simp [step, producer, space])))
    have queued : g.channel ≠ [] := by
      intro empty
      simp [empty, room] at space
    by_cases active : ∃ w ∈ g.workers, w.hasReturned = false
    · obtain ⟨w, hw, active⟩ := active
      rcases worker w hw active (.inl queued) with working | taking
      · exact .inr (.inl working)
      · exact .inr (.inr (.inr (.inr (.inr taking))))
    -- Every worker returned while the channel was not drained, so one of them failed.
    · obtain ⟨w, hw⟩ := List.exists_mem_of_ne_nil _ staffed
      have stopped : w.hasReturned = true := by
        by_contra going
        exact active ⟨w, hw, by simpa using going⟩
      obtain ⟨err', rfl⟩ := Worker.eq_returned stopped
      have failed : g.err ≠ none := by
        cases err' with
        | none => exact absurd (sound.emptied hw).2 queued
        | some e => exact sound.workers e hw
      have done : g.done = true := by
        simp [done, Option.isSome_iff_ne_none, failed]
      exact .inr (.inr (.inr (.inl (by simp [step, producer, done]))))
  | returned err' =>
    have active : ∃ w ∈ g.workers, w.hasReturned = false := by
      by_contra nobody
      have all : g.workers.all Worker.hasReturned = true := by
        rw [List.all_eq_true]
        intro w hw
        by_contra going
        exact nobody ⟨w, hw, by simpa using going⟩
      simp [waited, producer, Producer.hasReturned, all] at h
    obtain ⟨w, hw, active⟩ := active
    rcases worker w hw active (.inr (by simp [producer, Producer.hasClosed])) with working | taking
    · exact .inr (.inl working)
    · exact .inr (.inr (.inr (.inr (.inr taking))))

section Work

variable (fresh : Nat) (cost : Local → Nat)

/-- A bound on the steps the group takes before it returns, if nothing more is
offered. An item is taken in a state of at most `fresh`. -/
def producerWork : Producer Item Err → Nat
  | .producing => 2
  | .sending _ => fresh + 5
  | .closing _ => 1
  | .returned _ => 0

def workerWork : Worker Item Local Err → Nat
  | .waiting => 1
  | .working _ here => cost here + 2
  | .returned _ => 0

def work (g : WorkGroup Item Local Err) : Nat :=
  producerWork fresh g.producer + (fresh + 2) * g.channel.length +
    (g.workers.map (workerWork cost)).sum

variable {fresh : Nat} {cost : Local → Nat}

theorem sum_map_set {Slot : Type*} (weight : Slot → Nat) {slots : List Slot} {i : Nat} {x : Slot}
    (found : slots[i]? = some x) (y : Slot) :
    ((slots.set i y).map weight).sum + weight x = (slots.map weight).sum + weight y := by
  induction slots generalizing i with
  | nil => simp at found
  | cons a slots ih =>
    cases i with
    | zero =>
      obtain rfl : a = x := by simpa using found
      simp only [List.set_cons_zero, List.map_cons, List.sum_cons]
      omega
    | succ i =>
      have tail := ih (by simpa using found)
      simp only [List.set_cons_succ, List.map_cons, List.sum_cons]
      omega

/-- A worker that moves on to a cheaper state. -/
theorem work_setWorker {x y : Worker Item Local Err} (found : g.workers[i]? = some x)
    (less : workerWork cost y < workerWork cost x) :
    (g.setWorker i y).work fresh cost < g.work fresh cost := by
  have moved := sum_map_set (workerWork cost) found y
  simp only [work, setWorker]
  omega

variable (fresh cost) in
/-- What each event does to the remaining work: only an offer adds to it. -/
theorem step_work (h : g.step ev = some g')
    (taken : ∀ i here, ev = .receive i here → cost here ≤ fresh)
    (advances : ∀ i here item old, ev = .advance i here →
      g.workers[i]? = some (.working item old) → cost here < cost old) :
    (ev = .cancel ∧ g'.work fresh cost = g.work fresh cost) ∨
      (∃ item, ev = .offer item ∧ g'.work fresh cost = g.work fresh cost + (fresh + 3)) ∨
      g'.work fresh cost < g.work fresh cost := by
  cases moves_of_step h with
  | cancel => exact .inl ⟨rfl, rfl⟩
  | offer item producing =>
    refine .inr (.inl ⟨item, rfl, ?_⟩)
    simp only [work, producing, producerWork]
    omega
  | send item sending room =>
    refine .inr (.inr ?_)
    simp only [work, sending, producerWork, List.length_append, List.length_singleton, Nat.mul_add]
    omega
  | giveUp err item sending done =>
    refine .inr (.inr ?_)
    simp only [work, setProducer, sending, producerWork]
    omega
  | produced err producing =>
    refine .inr (.inr ?_)
    simp only [work, setProducer, producing, producerWork]
    omega
  | closed err closing =>
    refine .inr (.inr ?_)
    simp only [work, setProducer, report, closing, producerWork]
    omega
  | receive i here item rest found queued =>
    have cheap := taken i here rfl
    have moved := sum_map_set (workerWork cost) found (.working item here)
    refine .inr (.inr ?_)
    simp only [work, setWorker, queued, List.length_cons, Nat.mul_add]
    simp only [workerWork] at moved ⊢
    omega
  | drain i found empty closed =>
    refine .inr (.inr (work_setWorker (g := g) found ?_))
    simp [workerWork]
  | stop i err found done =>
    refine .inr (.inr (work_setWorker (g := g.report (some err)) found ?_))
    simp [workerWork]
  | advance i here item old found =>
    have less := advances i here item old rfl found
    refine .inr (.inr (work_setWorker (g := g) found ?_))
    simp [workerWork, less]
  | finish i item old found =>
    refine .inr (.inr (work_setWorker (g := { g with finished := _ }) found ?_))
    simp [workerWork]
  | fail i err item old found =>
    refine .inr (.inr (work_setWorker (g := g.report (some err)) found ?_))
    simp [workerWork]

end Work

end WorkGroup

end Byom.Concurrency
