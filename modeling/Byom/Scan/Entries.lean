import Byom.Scan.Records

/-!
# What the process keeps

A run is entered in `byScan` from its registration to its release, runs that are
released stay released, and closed records stay closed.
-/

namespace Byom.Scan

open Storage Relational Sqlite

/-- A registered run is entered under its scan, and the runs that are not have no scan ID. -/
structure Entered (runs : List Run) (byScan : UUID → Option Nat) : Prop where
  entered : ∀ r run, runs[r]? = some run → run.phase.registered = true →
    byScan run.scanID = some r
  unnamed : ∀ (r : Nat) run, runs[r]? = some run → run.phase.live = true →
    run.phase.registered = false → run.scanID = .nil
  named : ∀ (r : Nat) run id, runs[r]? = some run → run.record = some id → id ≠ .nil

section

variable {runs : List Run} {byScan : UUID → Option Nat} {r : Nat} {run run' : Run} {id : UUID}

theorem record_of_registered (registered : run.phase.registered = true) :
    run.record = some run.scanID := by
  cases phase : run.phase <;> simp_all [Phase.registered, Run.record]

/-- Runs that go on, and none of which is registered or released. -/
theorem Entered.frame (entered : Entered runs byScan) {runs' : List Run}
    (follows : ∀ (i : Nat) x, runs'[i]? = some x → ∃ y, runs[i]? = some y ∧ x.ident = y.ident ∧
      ∀ id, x.record = some id → y.record = some id ∨ id ≠ .nil) : Entered runs' byScan := by
  refine ⟨?_, ?_, ?_⟩
  · intro i x found registered
    obtain ⟨y, old, same, _⟩ := follows i x found
    obtain ⟨_, scan, _, registered'⟩ := ident_inj same
    rw [scan]
    exact entered.entered i y old (registered' ▸ registered)
  · intro i x found live unregistered
    obtain ⟨y, old, same, _⟩ := follows i x found
    obtain ⟨_, scan, live', registered'⟩ := ident_inj same
    rw [scan]
    exact entered.unnamed i y old (live' ▸ live) (registered' ▸ unregistered)
  · intro i x id found holds
    obtain ⟨y, old, _, records⟩ := follows i x found
    rcases records id holds with before | given
    · exact entered.named i y id old before
    · exact given

theorem Entered.set (entered : Entered runs byScan) (found : runs[r]? = some run)
    (same : run'.ident = run.ident)
    (records : ∀ id, run'.record = some id → run.record = some id ∨ id ≠ .nil) :
    Entered (runs.set r run') byScan := by
  refine entered.frame ?_
  intro i x there
  rcases Transition.getElem?_set_cases there with ⟨rfl, rfl⟩ | ⟨_, old⟩
  · exact ⟨run, found, same, records⟩
  · exact ⟨x, old, rfl, fun _ => .inl⟩

/-- What the goroutine of a run does, short of its release. -/
theorem Entered.goesOn (entered : Entered runs byScan) (found : runs[r]? = some run)
    {call : Sync} (phase : run.phase = .scanning call) {next : Phase}
    (registered : next.registered = true) :
    Entered (runs.set r { run with phase := next }) byScan := by
  have before : run.phase.registered = true := by simp [phase, Phase.registered]
  refine entered.set found (Process.ident_eq_of_phase ?_ ?_) ?_
  · rw [Phase.live_of_registered registered, Phase.live_of_registered before]
  · rw [registered, before]
  · intro id holds
    have after : ({ run with phase := next } : Run).record = some run.scanID :=
      record_of_registered registered
    rw [after] at holds
    exact .inl (holds ▸ record_of_registered before)

theorem Entered.start (entered : Entered runs byScan) (phase : run.phase = .claimed)
    (unnamed : run.scanID = .nil) : Entered (runs ++ [run]) byScan := by
  have old : ∀ {i : Nat} {x : Run}, (runs ++ [run])[i]? = some x → runs[i]? = some x ∨ x = run := by
    intro i x there
    rcases List.mem_append.mp (List.mem_of_getElem? there) with _ | new
    · rcases Nat.lt_or_ge i runs.length with before | after
      · rw [List.getElem?_append_left before] at there
        exact .inl there
      · rw [List.getElem?_append_right after] at there
        exact .inr (List.mem_singleton.mp (List.mem_of_getElem? there))
    · exact .inr (List.mem_singleton.mp new)
  refine ⟨?_, ?_, ?_⟩
  · intro i x there registered
    rcases old there with before | rfl
    · exact entered.entered i x before registered
    · simp [phase, Phase.registered] at registered
  · intro i x there live unregistered
    rcases old there with before | rfl
    · exact entered.unnamed i x before live unregistered
    · exact unnamed
  · intro i x id there holds
    rcases old there with before | rfl
    · exact entered.named i x id before holds
    · simp [Run.record, phase] at holds

theorem Entered.register (entered : Entered runs byScan) (found : runs[r]? = some run)
    (opened : run.record = some run'.scanID) (registered : run'.phase.registered = true)
    (distinct : ∀ i x, i ≠ r → runs[i]? = some x → x.record ≠ some run'.scanID) :
    Entered (runs.set r run') (Function.update byScan run'.scanID (some r)) := by
  refine ⟨?_, ?_, ?_⟩
  · intro i x there known
    rcases Transition.getElem?_set_cases there with ⟨rfl, rfl⟩ | ⟨apart, old⟩
    · exact Function.update_self ..
    · have other : x.scanID ≠ run'.scanID := by
        intro same
        exact distinct i x apart old (same ▸ record_of_registered known)
      rw [Function.update_of_ne other]
      exact entered.entered i x old known
  · intro i x there live unregistered
    rcases Transition.getElem?_set_cases there with ⟨rfl, rfl⟩ | ⟨_, old⟩
    · rw [registered] at unregistered
      cases unregistered
    · exact entered.unnamed i x old live unregistered
  · intro i x id there holds
    rcases Transition.getElem?_set_cases there with ⟨rfl, rfl⟩ | ⟨_, old⟩
    · rw [record_of_registered registered] at holds
      cases holds
      exact entered.named i run _ found opened
    · exact entered.named i x id old holds

/-- `release` deletes the entry of the run, if it has one, and no other. -/
theorem Entered.release (entered : Entered runs byScan) (found : runs[r]? = some run)
    (live : run.phase.live = true) (released : run'.phase = .released)
    (distinct : ∀ i x, i ≠ r → runs[i]? = some x → ∀ id, run.record = some id →
      x.record ≠ some id) :
    Entered (runs.set r run') (Function.update byScan run.scanID none) := by
  refine ⟨?_, ?_, ?_⟩
  · intro i x there known
    rcases Transition.getElem?_set_cases there with ⟨rfl, rfl⟩ | ⟨apart, old⟩
    · simp [released, Phase.registered] at known
    · have holds := record_of_registered known
      have other : x.scanID ≠ run.scanID := by
        intro same
        cases own : run.phase.registered with
        | true => exact distinct i x apart old _ (record_of_registered own) (same ▸ holds)
        | false =>
          exact entered.named i x _ old holds (same.trans (entered.unnamed r run found live own))
      rw [Function.update_of_ne other]
      exact entered.entered i x old known
  · intro i x there live' unregistered
    rcases Transition.getElem?_set_cases there with ⟨rfl, rfl⟩ | ⟨_, old⟩
    · simp [released, Phase.live] at live'
    · exact entered.unnamed i x old live' unregistered
  · intro i x id there holds
    rcases Transition.getElem?_set_cases there with ⟨rfl, rfl⟩ | ⟨_, old⟩
    · simp [Run.record, released] at holds
    · exact entered.named i x id old holds

end

namespace Process

variable {pool : WorkerPool} {p p' : Process} {a : ProcessAction}

theorem step_entered (records : p.Records) (entered : Entered p.runs p.byScan)
    (h : p.step pool a = some p') (given : ∀ r now, a ≠ .beginScan r now .nil) :
    Entered p'.runs p'.byScan := by
  have shut : ∀ (i : Nat) (run : Run),
      (if p.byLoc run.locationID = some i then run.cancel else run).ident = run.ident ∧
        (if p.byLoc run.locationID = some i then run.cancel else run).record = run.record := by
    intro i run
    split
    · exact ⟨run.cancel_ident, cancel_record run⟩
    · exact ⟨rfl, rfl⟩
  cases moves_of_step h with
  | insertLocation id uri inserted => exact entered
  | start loc force free => exact entered.start rfl rfl
  | beginScan r now scanID run found phase began =>
    refine entered.set found (ident_eq_of_phase ?_ ?_) ?_
    · simp [phase, Phase.live]
    · simp [phase, Phase.registered]
    · intro id holds
      cases holds
      exact .inr fun isNil => given r now (isNil ▸ rfl)
  | beginFails r run found phase =>
    have ident := ident_inj run.cancel_ident
    refine entered.set found ?_ (by simp [Run.record])
    simp [Run.ident, ident.1, ident.2.1, phase, Phase.live, Phase.registered]
  | register r order tree run scanID gen found phase =>
    have opened : run.record = some scanID := by simp [Run.record, phase]
    refine entered.register found opened rfl ?_
    exact fun i x apart there holds =>
      apart (records.distinct i r x run scanID there found holds opened)
  | sync r a run found phase inMemory moved => exact entered.goesOn found phase rfl
  | load r i run found phase taken moved => exact entered.goesOn found phase rfl
  | commit r i newDirID newFileID run found phase taken synced moved =>
    exact entered.goesOn found phase rfl
  | sweep r run found phase swept moved => exact entered.goesOn found phase rfl
  | finishScan r now run scanErr found phase returned => exact entered.goesOn found phase rfl
  | finishFails r run scanErr found phase returned => exact entered.goesOn found phase rfl
  | release r run found phase =>
    refine entered.release found ?_ rfl ?_
    · rcases phase with phase | phase <;> simp [phase, Phase.live]
    · exact fun i x apart there id own holds =>
        apart (records.distinct i r x run id there found holds own)
  | cancel scanID r run registered found holds =>
    exact entered.set found run.cancel_ident fun id holds => .inl (cancel_record run ▸ holds)
  | shutdown =>
    refine entered.frame ?_
    intro i x there
    simp only [shutdown, List.getElem?_mapIdx] at there
    obtain ⟨y, old, rfl⟩ := Option.map_eq_some_iff.mp there
    exact ⟨y, old, (shut i y).1, fun id holds => .inl ((shut i y).2 ▸ holds)⟩
  | restart recovered => refine ⟨?_, ?_, ?_⟩ <;> simp [restart]

/-! ### Runs that are released stay released, and closed records stay closed -/

/-- What a process keeps until it dies. -/
structure Keeps (p p' : Process) : Prop where
  runs : ∀ (r : Nat) run, p.runs[r]? = some run → ∃ run', p'.runs[r]? = some run' ∧
    (run.phase.live = false → run'.phase.live = false)
  records : ∀ id row, p.tables.recordAt id = some row → ∃ row', p'.tables.recordAt id = some row' ∧
    (row.state ≠ .running → row'.state ≠ .running)

variable {r : Nat} {run run' : Run}

theorem Keeps.refl (p : Process) : p.Keeps p :=
  ⟨fun _ run found => ⟨run, found, id⟩, fun _ row found => ⟨row, found, id⟩⟩

/-- One run goes on. -/
theorem Keeps.set (found : p.runs[r]? = some run) (runs : p'.runs = p.runs.set r run')
    (still : run.phase.live = false → run'.phase.live = false)
    (records : ∀ id row, p.tables.recordAt id = some row →
      ∃ row', p'.tables.recordAt id = some row' ∧
        (row.state ≠ .running → row'.state ≠ .running)) : p.Keeps p' := by
  refine ⟨?_, records⟩
  intro i x there
  rw [runs]
  by_cases here : i = r
  · subst here
    rw [found] at there
    cases there
    exact ⟨run', Transition.getElem?_set_here found, still⟩
  · exact ⟨x, Transition.getElem?_set_of_ne here there, id⟩

/-- No record is written. -/
theorem records_kept {t t' : ScanTables} (rows : ∀ id, t'.recordAt id = t.recordAt id) :
    ∀ id row, t.recordAt id = some row → ∃ row', t'.recordAt id = some row' ∧
      (row.state ≠ .running → row'.state ≠ .running) :=
  fun id row found => ⟨row, (rows id).trans found, fun closed => closed⟩

theorem step_keeps (h : p.step pool a = some p') (goesOn : ∀ recovered, a ≠ .restart recovered) :
    p.Keeps p' := by
  have same : ∀ id row, p.tables.recordAt id = some row → ∃ row', p.tables.recordAt id = some row' ∧
      (row.state ≠ .running → row'.state ≠ .running) := records_kept fun _ => rfl
  have started : ∀ {phase : Phase}, phase.live = true → ∀ {next : Phase},
      phase.live = false → next.live = false := by
    intro phase live next dead
    rw [live] at dead
    cases dead
  cases moves_of_step h with
  | insertLocation id uri inserted =>
    have rows := ScanTables.recordAt_of_eq (ScanTables.insertLocation_scans inserted)
    exact ⟨(Keeps.refl p).runs, records_kept rows⟩
  | start loc force free =>
    refine ⟨?_, same⟩
    intro r run found
    refine ⟨run, ?_, id⟩
    rw [List.getElem?_append_left (List.getElem?_eq_some_iff.mp found).1]
    exact found
  | beginScan r now scanID run found phase began =>
    refine .set found rfl (started (by simp [phase, Phase.live])) ?_
    intro id row there
    obtain ⟨absent, _, others⟩ := ScanTables.beginScan_records began
    have apart : id ≠ scanID := by
      rintro rfl
      rw [absent] at there
      cases there
    refine ⟨_, (others id apart).trans (congrArg _ there), ?_⟩
    intro closed
    simp [closed]
  | beginFails r run found phase =>
    exact .set found rfl (started (by simp [phase, Phase.live])) same
  | register r order tree run scanID gen found phase =>
    exact .set found rfl (started (by simp [phase, Phase.live])) same
  | sync r a run found phase inMemory moved =>
    exact .set found rfl (started (by simp [phase, Phase.live])) same
  | load r i run found phase taken moved =>
    exact .set found rfl (started (by simp [phase, Phase.live])) same
  | commit r i newDirID newFileID run found phase taken synced moved =>
    refine .set found rfl (started (by simp [phase, Phase.live])) ?_
    exact records_kept (ScanTables.recordAt_of_eq (ScanTables.syncDir_scans synced))
  | sweep r run found phase swept moved =>
    obtain rfl := congrArg Prod.fst swept
    exact .set found rfl (started (by simp [phase, Phase.live])) same
  | finishScan r now run scanErr found phase returned =>
    refine .set found rfl (started (by simp [phase, Phase.live])) ?_
    intro id row there
    refine ⟨_, (ScanTables.finishScan_recordAt id).trans (congrArg _ there), ?_⟩
    intro closed
    simp [closed]
  | finishFails r run scanErr found phase returned =>
    exact .set found rfl (started (by simp [phase, Phase.live])) same
  | release r run found phase =>
    exact .set found rfl (fun _ => rfl) same
  | cancel scanID r run registered found holds =>
    have live := (ident_inj run.cancel_ident).2.2.1
    exact .set found rfl (fun dead => live.trans dead) same
  | shutdown =>
    refine ⟨?_, same⟩
    intro r run found
    refine ⟨if p.byLoc run.locationID = some r then run.cancel else run, ?_, ?_⟩
    · simp [shutdown, found]
    intro dead
    split
    · exact (ident_inj run.cancel_ident).2.2.1.trans dead
    · exact dead
  | restart recovered => exact absurd rfl (goesOn recovered)

end Process

end Byom.Scan
