import Byom.Scan.Generations
import Byom.Scan.ProcessSteps

/-!
# One scan at a time per location

A run holds its location from its claim to its release, so between them nothing
raises the generation of the location, and every write of the run carries the
current one.
-/

namespace Byom.Scan

open Storage Relational Sqlite

def Phase.live : Phase → Bool
  | .released => false
  | _ => true

/-- Whether `Start` has entered the run in `byScan`. -/
def Phase.registered : Phase → Bool
  | .scanning _ => true
  | .closing => true
  | _ => false

/-- The generation that `BeginScan` returned, until the record is closed. -/
def Run.holds (run : Run) : Option Int :=
  match run.phase with
  | .begun _ gen => some gen
  | .scanning _ => some run.gen
  | _ => none

/-- What the two maps are about. -/
def Run.ident (run : Run) : UUID × UUID × Bool × Bool :=
  (run.locationID, run.scanID, run.phase.live, run.phase.registered)

/-- The maps hold the runs that are claimed and registered, and no others. -/
structure Claims (runs : List Run) (byLoc byScan : UUID → Option Nat) : Prop where
  claimed : ∀ r run, runs[r]? = some run → run.phase.live = true → byLoc run.locationID = some r
  held : ∀ loc r, byLoc loc = some r →
    ∃ run, runs[r]? = some run ∧ run.phase.live = true ∧ run.locationID = loc
  registered : ∀ id r, byScan id = some r →
    ∃ run, runs[r]? = some run ∧ run.phase.registered = true ∧ run.scanID = id

/-- A run that has a generation has the current one of its location. -/
def Current (t : ScanTables) (runs : List Run) : Prop :=
  ∀ (r : Nat) run gen, runs[r]? = some run → run.holds = some gen →
    t.generationAt run.locationID = some gen

theorem Phase.live_of_registered {phase : Phase} (h : phase.registered = true) :
    phase.live = true := by
  cases phase <;> simp_all [Phase.registered, Phase.live]

section

variable {runs runs' : List Run} {byLoc byScan : UUID → Option Nat} {r : Nat} {run run' : Run}
  {t t' : ScanTables}

theorem map_ident_set (found : runs[r]? = some run) (same : run'.ident = run.ident) :
    (runs.set r run').map Run.ident = runs.map Run.ident := by
  apply List.ext_getElem?
  intro i
  by_cases here : r = i
  · subst here
    obtain ⟨inside, rfl⟩ := List.getElem?_eq_some_iff.mp found
    simp [inside, same]
  · simp [here]

theorem exists_of_ident (same : runs'.map Run.ident = runs.map Run.ident)
    (found : runs'[r]? = some run') :
    ∃ run, runs[r]? = some run ∧ run'.ident = run.ident := by
  have at_ := congrArg (·[r]?) same
  simp only [List.getElem?_map, found, Option.map_some] at at_
  obtain ⟨run, found', same'⟩ := Option.map_eq_some_iff.mp at_.symm
  exact ⟨run, found', same'.symm⟩

theorem ident_inj {a b : Run} (same : a.ident = b.ident) :
    a.locationID = b.locationID ∧ a.scanID = b.scanID ∧ a.phase.live = b.phase.live ∧
      a.phase.registered = b.phase.registered := by
  simpa [Run.ident] using same

/-- Runs that go on between their claim and their release. -/
theorem Claims.congr (claims : Claims runs byLoc byScan)
    (same : runs'.map Run.ident = runs.map Run.ident) : Claims runs' byLoc byScan := by
  refine ⟨?_, ?_, ?_⟩
  · intro r run' found live
    obtain ⟨run, found', ident⟩ := exists_of_ident same found
    obtain ⟨location, _, live', _⟩ := ident_inj ident
    rw [location]
    exact claims.claimed r run found' (live' ▸ live)
  · intro loc r holds
    obtain ⟨run, found, live, location⟩ := claims.held loc r holds
    obtain ⟨run', found', ident⟩ := exists_of_ident same.symm found
    obtain ⟨location', _, live', _⟩ := ident_inj ident
    exact ⟨run', found', live' ▸ live, location' ▸ location⟩
  · intro id r entered
    obtain ⟨run, found, registered, scan⟩ := claims.registered id r entered
    obtain ⟨run', found', ident⟩ := exists_of_ident same.symm found
    obtain ⟨_, scan', _, registered'⟩ := ident_inj ident
    exact ⟨run', found', registered' ▸ registered, scan' ▸ scan⟩

/-- Two live runs of one location are one run. -/
theorem Claims.exclusive (claims : Claims runs byLoc byScan) {r' : Nat}
    (found : runs[r]? = some run) (found' : runs[r']? = some run')
    (live : run.phase.live = true) (live' : run'.phase.live = true)
    (same : run.locationID = run'.locationID) : r = r' := by
  have first := claims.claimed r run found live
  have second := claims.claimed r' run' found' live'
  rw [same, second] at first
  exact (Option.some.inj first).symm

theorem Claims.start (claims : Claims runs byLoc byScan) {loc : UUID} (free : byLoc loc = none)
    (location : run.locationID = loc) (phase : run.phase = .claimed) :
    Claims (runs ++ [run]) (Function.update byLoc loc (some runs.length)) byScan := by
  subst location
  have old : ∀ {r : Nat} {run'}, runs[r]? = some run' → (runs ++ [run])[r]? = some run' := by
    intro r run' found
    rw [List.getElem?_append_left (List.getElem?_eq_some_iff.mp found).1]
    exact found
  refine ⟨?_, ?_, ?_⟩
  · intro r run' found live
    rcases Nat.lt_or_ge r runs.length with before | after
    · rw [List.getElem?_append_left before] at found
      have holds := claims.claimed r run' found live
      have apart : run'.locationID ≠ run.locationID := by
        intro same
        rw [same, free] at holds
        cases holds
      rw [Function.update_of_ne apart]
      exact holds
    · rw [List.getElem?_append_right after, List.getElem?_singleton] at found
      split at found
      · cases found
        have : r = runs.length := by omega
        rw [Function.update_self, this]
      · cases found
  · intro loc r holds
    by_cases same : loc = run.locationID
    · subst same
      rw [Function.update_self] at holds
      cases holds
      exact ⟨run, by simp, by simp [phase, Phase.live], rfl⟩
    · rw [Function.update_of_ne same] at holds
      obtain ⟨run', found, rest⟩ := claims.held loc r holds
      exact ⟨run', old found, rest⟩
  · intro id r entered
    obtain ⟨run', found, rest⟩ := claims.registered id r entered
    exact ⟨run', old found, rest⟩

/-- `Start` enters the run under its scan. -/
theorem Claims.register (claims : Claims runs byLoc byScan) (found : runs[r]? = some run)
    (live : run.phase.live = true) (unknown : run.phase.registered = false)
    (location : run'.locationID = run.locationID) (registered : run'.phase.registered = true) :
    Claims (runs.set r run') byLoc (Function.update byScan run'.scanID (some r)) := by
  have live' := Phase.live_of_registered registered
  refine ⟨?_, ?_, ?_⟩
  · intro i x found' liveX
    rcases Transition.getElem?_set_cases found' with ⟨rfl, rfl⟩ | ⟨_, old⟩
    · rw [location]
      exact claims.claimed i run found live
    · exact claims.claimed i x old liveX
  · intro loc i holds
    obtain ⟨x, found', liveX, rfl⟩ := claims.held loc i holds
    by_cases here : i = r
    · subst here
      rw [found] at found'
      cases found'
      exact ⟨run', Transition.getElem?_set_here found, live', location⟩
    · exact ⟨x, Transition.getElem?_set_of_ne here found', liveX, rfl⟩
  · intro id i entered
    by_cases own : id = run'.scanID
    · subst own
      rw [Function.update_self] at entered
      cases entered
      exact ⟨run', Transition.getElem?_set_here found, registered, rfl⟩
    · rw [Function.update_of_ne own] at entered
      obtain ⟨x, found', known, rfl⟩ := claims.registered id i entered
      have apart : i ≠ r := by
        rintro rfl
        rw [found] at found'
        cases found'
        rw [unknown] at known
        cases known
      exact ⟨x, Transition.getElem?_set_of_ne apart found', known, rfl⟩

/-- `release` takes the run out of both maps. -/
theorem Claims.release (claims : Claims runs byLoc byScan) (found : runs[r]? = some run)
    (live : run.phase.live = true) (released : run'.phase = .released) :
    Claims (runs.set r run') (Function.update byLoc run.locationID none)
      (Function.update byScan run.scanID none) := by
  refine ⟨?_, ?_, ?_⟩
  · intro i x found' liveX
    rcases Transition.getElem?_set_cases found' with ⟨rfl, rfl⟩ | ⟨apart, old⟩
    · simp [released, Phase.live] at liveX
    · have other : x.locationID ≠ run.locationID := by
        intro same
        exact apart (claims.exclusive old found liveX live same)
      rw [Function.update_of_ne other]
      exact claims.claimed i x old liveX
  · intro loc i holds
    by_cases own : loc = run.locationID
    · subst own
      simp at holds
    · rw [Function.update_of_ne own] at holds
      obtain ⟨x, found', liveX, rfl⟩ := claims.held loc i holds
      have apart : i ≠ r := by
        rintro rfl
        rw [found] at found'
        cases found'
        exact own rfl
      exact ⟨x, Transition.getElem?_set_of_ne apart found', liveX, rfl⟩
  · intro id i entered
    by_cases own : id = run.scanID
    · subst own
      simp at entered
    · rw [Function.update_of_ne own] at entered
      obtain ⟨x, found', known, rfl⟩ := claims.registered id i entered
      have apart : i ≠ r := by
        rintro rfl
        rw [found] at found'
        cases found'
        exact own rfl
      exact ⟨x, Transition.getElem?_set_of_ne apart found', known, rfl⟩

/-- One run goes on; no generation that is held changes. -/
theorem Current.set (current : Current t runs)
    (own : ∀ gen, run'.holds = some gen → t'.generationAt run'.locationID = some gen)
    (others : ∀ i x gen, i ≠ r → runs[i]? = some x → x.holds = some gen →
      t.generationAt x.locationID = some gen → t'.generationAt x.locationID = some gen) :
    Current t' (runs.set r run') := by
  intro i x gen found holds
  rcases Transition.getElem?_set_cases found with ⟨rfl, rfl⟩ | ⟨apart, old⟩
  · exact own gen holds
  · exact others i x gen apart old holds (current i x gen old holds)

end

theorem Run.cancel_ident (run : Run) : run.cancel.ident = run.ident := by
  cases phase : run.phase <;> simp [Run.cancel, Run.ident, phase, Phase.live, Phase.registered]

theorem Run.cancel_holds (run : Run) : run.cancel.holds = run.holds := by
  cases phase : run.phase <;> simp [Run.cancel, Run.holds, phase]

namespace Process

open Sync (oneFolder)

/-- What one process keeps, whatever its store calls and requests do. -/
structure Inv (s : Process) : Prop where
  wellFormed : s.tables.WellFormed
  bounded : Bounded s.tables
  claims : Claims s.runs s.byLoc s.byScan
  current : Current s.tables s.runs

variable {pool : WorkerPool} {s s' : Process} {a : ProcessAction} {r : Nat} {run run' : Run}
  {t : ScanTables}

theorem empty_inv : empty.Inv := by
  refine ⟨ScanTables.empty_wellFormed, ?_, ⟨?_, ?_, ?_⟩, ?_⟩ <;>
    simp [empty, Bounded, Current, ScanTables.empty, ScanTables.dirAt]

/-- A write of a run that leaves the generations of all locations alone. -/
theorem Inv.write (inv : s.Inv) (found : s.runs[r]? = some run) (same : run'.ident = run.ident)
    (holds : run'.holds = run.holds) (wellFormed : t.WellFormed) (bounded : Bounded t)
    (generation : ∀ loc, t.generationAt loc = s.tables.generationAt loc)
    (accepted finished : List UUID) (swept : List (UUID × Int)) :
    Inv { s with
      tables := t, runs := s.runs.set r run', accepted := accepted, finished := finished
      swept := swept } := by
  refine ⟨wellFormed, bounded, inv.claims.congr (map_ident_set found same), ?_⟩
  refine inv.current.set ?_ ?_
  · intro gen h
    rw [generation, (ident_inj same).1]
    exact inv.current r run gen found (holds ▸ h)
  · intro i x gen _ _ _ h
    rw [generation]
    exact h

/-- A run that gives up its generation, and whose write changes no generation. -/
theorem Inv.close (inv : s.Inv) (found : s.runs[r]? = some run) (same : run'.ident = run.ident)
    (holds : run'.holds = none) (wellFormed : t.WellFormed) (bounded : Bounded t)
    (generation : ∀ loc, t.generationAt loc = s.tables.generationAt loc)
    (finished : List UUID) :
    Inv { s with tables := t, runs := s.runs.set r run', finished := finished } := by
  refine ⟨wellFormed, bounded, inv.claims.congr (map_ident_set found same), ?_⟩
  refine inv.current.set (by simp [holds]) ?_
  intro i x gen _ _ _ h
  rw [generation]
  exact h

theorem ident_eq_of_phase {phase : Phase} (live : phase.live = run.phase.live)
    (registered : phase.registered = run.phase.registered) :
    ({ run with phase := phase } : Run).ident = run.ident := by
  simp [Run.ident, live, registered]

theorem step_inv (inv : s.Inv) (h : s.step pool a = some s') : s'.Inv := by
  have same : ∀ loc, s.tables.generationAt loc = s.tables.generationAt loc := fun _ => rfl
  cases moves_of_step h with
  | insertLocation id uri inserted =>
    obtain ⟨sameDirs, _⟩ := ScanTables.insertLocation_frame inserted
    have kept := ScanTables.insertLocation_generationAt inserted
    refine ⟨ScanTables.insertLocation_wellFormed inserted inv.wellFormed, ?_, inv.claims, ?_⟩
    · intro loc rel d gen found at_
      rw [ScanTables.dirAt_of_eq sameDirs] at found
      obtain ⟨row, hrow, rfl, _⟩ := ScanTables.dirAt_some found
      rw [kept row.locationID (inv.wellFormed.dirLocations row hrow)] at at_
      exact inv.bounded row.locationID rel d gen found at_
    · intro r run gen found holds
      have before := inv.current r run gen found holds
      obtain ⟨l, there, _⟩ := Option.map_eq_some_iff.mp before
      rw [kept run.locationID ⟨l, mem_of_lookup there, key_of_lookup there⟩]
      exact before
  | start loc force free =>
    refine ⟨inv.wellFormed, inv.bounded, inv.claims.start free rfl rfl, ?_⟩
    intro r run gen found holds
    rcases Nat.lt_or_ge r s.runs.length with before | after
    · rw [List.getElem?_append_left before] at found
      exact inv.current r run gen found holds
    · rw [List.getElem?_append_right after, List.getElem?_singleton] at found
      split at found
      · cases found
        simp [Run.holds] at holds
      · cases found
  | beginScan r now scanID run found phase began =>
    obtain ⟨_, _, _, wellFormed, _⟩ := ScanTables.beginScan_spec began
    have live : run.phase.live = true := by simp [phase, Phase.live]
    refine ⟨wellFormed inv.wellFormed, inv.bounded.start began, ?_, ?_⟩
    · refine inv.claims.congr (map_ident_set found (ident_eq_of_phase ?_ ?_))
      · simp [phase, Phase.live]
      · simp [phase, Phase.registered]
    · refine inv.current.set ?_ ?_
      · intro gen holds
        cases holds
        exact (ScanTables.beginScan_generationAt began).1
      -- No other live run is at this location.
      · intro i x gen apart found' holds at_
        have liveX : x.phase.live = true := by
          cases phaseX : x.phase <;> simp_all [Run.holds, Phase.live]
        have other : x.locationID ≠ run.locationID :=
          fun same => apart (inv.claims.exclusive found' found liveX live same)
        rw [ScanTables.beginScan_generationAt_ne began other]
        exact at_
  | beginFails r run found phase =>
    refine inv.close found ?_ rfl inv.wellFormed inv.bounded same s.finished
    have ident := ident_inj run.cancel_ident
    simp [Run.ident, ident.1, ident.2.1, phase, Phase.live, Phase.registered]
  | register r order tree run scanID gen found phase =>
    refine ⟨inv.wellFormed, inv.bounded, ?_, ?_⟩
    · exact inv.claims.register found (by simp [phase, Phase.live])
        (by simp [phase, Phase.registered]) rfl rfl
    · refine inv.current.set ?_ fun _ _ _ _ _ _ h => h
      intro gen' holds
      cases holds
      exact inv.current r run gen found (by simp [Run.holds, phase])
  | sync r a run found phase inMemory moved =>
    refine inv.write found (ident_eq_of_phase ?_ ?_) ?_ inv.wellFormed inv.bounded same _ _ _
    · simp [phase, Phase.live]
    · simp [phase, Phase.registered]
    · simp [Run.holds, phase]
  | load r i run found phase taken moved =>
    refine inv.write found (ident_eq_of_phase ?_ ?_) ?_ inv.wellFormed inv.bounded same _ _ _
    · simp [phase, Phase.live]
    · simp [phase, Phase.registered]
    · simp [Run.holds, phase]
  | commit r i newDirID newFileID run found phase taken synced moved =>
    have here := inv.current r run run.gen found (by simp [Run.holds, phase])
    refine inv.write found (ident_eq_of_phase ?_ ?_) ?_
      (ScanTables.syncDir_wellFormed synced inv.wellFormed) (inv.bounded.commit here synced)
      (ScanTables.generationAt_of_eq (ScanTables.syncDir_locations synced)) _ _ _
    · simp [phase, Phase.live]
    · simp [phase, Phase.registered]
    · simp [Run.holds, phase]
  | sweep r run found phase swept moved =>
    obtain rfl := congrArg Prod.fst swept
    refine inv.write found (ident_eq_of_phase ?_ ?_) ?_
      (ScanTables.sweep_wellFormed _ _ inv.wellFormed) (inv.bounded.sweep _ _) same _ _ _
    · simp [phase, Phase.live]
    · simp [phase, Phase.registered]
    · simp [Run.holds, phase]
  | finishScan r now run scanErr found phase returned =>
    refine inv.close found (ident_eq_of_phase ?_ ?_) rfl
      (ScanTables.finishScan_wellFormed _ _ _ _ inv.wellFormed)
      (inv.bounded.frame (ScanTables.dirAt_of_eq rfl) same) same _
    · simp [phase, Phase.live]
    · simp [phase, Phase.registered]
  | finishFails r run scanErr found phase returned =>
    refine inv.close found (ident_eq_of_phase ?_ ?_) rfl inv.wellFormed inv.bounded same _
    · simp [phase, Phase.live]
    · simp [phase, Phase.registered]
  | release r run found phase =>
    refine ⟨inv.wellFormed, inv.bounded, ?_, ?_⟩
    · refine inv.claims.release found ?_ rfl
      rcases phase with phase | phase <;> simp [phase, Phase.live]
    · exact inv.current.set (by simp [Run.holds]) fun _ _ _ _ _ _ h => h
  | cancel scanID r run registered found holds =>
    refine inv.write found ?_ ?_ inv.wellFormed inv.bounded same _ _ _
    · exact run.cancel_ident
    · exact run.cancel_holds
  | shutdown =>
    have kept : ∀ (i : Nat) (run : Run),
        (if s.byLoc run.locationID = some i then run.cancel else run).ident = run.ident := by
      intro i run
      split
      · exact run.cancel_ident
      · rfl
    refine ⟨inv.wellFormed, inv.bounded, inv.claims.congr ?_, ?_⟩
    · apply List.ext_getElem?
      intro i
      simp only [shutdown, List.getElem?_map, List.getElem?_mapIdx, Option.map_map]
      congr 1
      funext run
      exact kept i run
    · intro i run gen found holds
      simp only [shutdown, List.getElem?_mapIdx] at found
      obtain ⟨old, there, rfl⟩ := Option.map_eq_some_iff.mp found
      rw [(ident_inj (kept i old)).1]
      refine inv.current i old gen there ?_
      split at holds
      · exact old.cancel_holds ▸ holds
      · exact holds
  | restart recovered =>
    refine ⟨?_, ?_, ⟨?_, ?_, ?_⟩, ?_⟩
    · cases recovered with
      | none => exact inv.wellFormed
      | some now => exact ScanTables.abortRunningScans_wellFormed now inv.wellFormed
    · cases recovered with
      | none => exact inv.bounded
      | some now => exact inv.bounded.frame (ScanTables.dirAt_of_eq rfl) same
    all_goals simp [restart, Current]

/-- The location and the generation that the goroutines of a run put into their calls
of `SyncDir` and `Sweep`. -/
def issues (s : Process) : ProcessAction → Option (UUID × Int)
  | .sync r _ | .commit r _ _ _ | .sweep r =>
    (s.scanning r).map fun (run, _) => (run.locationID, run.gen)
  | _ => none

theorem scanning_of_issues {loc : UUID} {gen : Int} (h : s.issues a = some (loc, gen)) :
    ∃ r run call, s.scanning r = some (run, call) ∧ run.locationID = loc ∧ run.gen = gen := by
  unfold issues at h
  split at h
  case h_4 => cases h
  all_goals
    obtain ⟨⟨run, call⟩, found, same⟩ := Option.map_eq_some_iff.mp h
    cases same
    exact ⟨_, run, call, found, rfl, rfl⟩

/-- What an action may do to a dir that is there. -/
theorem Inv.step_seen (inv : s.Inv) (h : s.step pool a = some s') {loc : UUID} {rel : Path}
    {d : ScanTables.Sighting} (found : s.tables.dirAt loc rel = some d) :
    ∃ d', s'.tables.dirAt loc rel = some d' ∧ d'.id = d.id ∧ d.seen ≤ d'.seen := by
  have same : ∀ {t : ScanTables}, t.dirAt loc rel = s.tables.dirAt loc rel →
      ∃ d', t.dirAt loc rel = some d' ∧ d'.id = d.id ∧ d.seen ≤ d'.seen :=
    fun kept => ⟨d, kept.trans found, rfl, Int.le_refl _⟩
  cases moves_of_step h with
  | insertLocation id uri inserted =>
    exact same (ScanTables.dirAt_of_eq (ScanTables.insertLocation_frame inserted).1 loc rel)
  | beginScan r now scanID run found phase began =>
    exact same (ScanTables.beginScan_dirAt began loc rel)
  | commit r i newDirID newFileID run here phase taken synced moved =>
    have current := inv.current r run run.gen here (by simp [Run.holds, phase])
    rename_i res known t id
    by_cases own : (loc, rel) = (run.locationID, res.dir)
    · obtain ⟨rfl, rfl⟩ := Prod.mk.inj own
      have written := ScanTables.syncDir_dirAt synced
      exact ⟨_, written, ScanTables.syncDir_id synced found, inv.bounded _ _ d _ found current⟩
    · exact same (ScanTables.syncDir_dirAt_ne synced own)
  | sweep r run here phase swept moved =>
    obtain rfl := congrArg Prod.fst swept
    by_cases own : loc = run.locationID
    · subst own
      refine ⟨d.swept run.gen, ?_, ?_⟩
      · simp [ScanTables.sweep_dirAt, found]
      · unfold ScanTables.Sighting.swept
        split <;> exact ⟨rfl, Int.le_refl _⟩
    · exact same (ScanTables.sweep_dirAt_ne run.gen own rel)
  | finishScan r now run scanErr found phase returned =>
    exact same (ScanTables.dirAt_of_eq rfl loc rel)
  | restart recovered =>
    cases recovered with
    | none => exact same rfl
    | some now => exact same (ScanTables.dirAt_of_eq rfl loc rel)
  | _ => exact same rfl

/-- The generation that saw a dir last never goes back. -/
theorem Inv.run_seen (inv : s.Inv) {more : List ProcessAction}
    (ran : Transition.run (step pool) s more = some s') {loc : UUID} {rel : Path}
    {d : ScanTables.Sighting} (found : s.tables.dirAt loc rel = some d) :
    ∃ d', s'.tables.dirAt loc rel = some d' ∧ d'.id = d.id ∧ d.seen ≤ d'.seen := by
  induction more generalizing s d with
  | nil =>
    cases ran
    exact ⟨d, found, rfl, Int.le_refl _⟩
  | cons a more ih =>
    obtain ⟨u, first, rest⟩ := Option.bind_eq_some_iff.mp ran
    obtain ⟨d₁, next, same, le⟩ := inv.step_seen first found
    obtain ⟨d₂, last, same', le'⟩ := ih (step_inv inv first) rest next
    exact ⟨d₂, last, same'.trans same, le.trans le'⟩

theorem run_inv {acts : List ProcessAction}
    (ran : Transition.run (step pool) empty acts = some s) : s.Inv :=
  Transition.invariant_of_run (fun _ _ _ inv h => step_inv inv h) empty_inv ran

/-- One run at a time holds a location, the two maps agree on it, and no write of a
run carries a generation its location has left behind. -/
theorem scans_exclusive (pool : WorkerPool) {acts : List ProcessAction}
    (ran : Transition.run (step pool) empty acts = some s) :
    (∀ (r r' : Nat) run run', s.runs[r]? = some run → s.runs[r']? = some run' →
      run.phase ≠ .released → run'.phase ≠ .released → run.locationID = run'.locationID → r = r') ∧
    (∀ scanID r, s.byScan scanID = some r → ∃ run, s.runs[r]? = some run ∧
      run.scanID = scanID ∧ s.byLoc run.locationID = some r) ∧
    (∀ (r : Nat) run, s.runs[r]? = some run → run.phase = .released →
      (∀ loc, s.byLoc loc ≠ some r) ∧ ∀ scanID, s.byScan scanID ≠ some r) ∧
    (∀ a loc gen, s.issues a = some (loc, gen) →
      ∃ current, s.tables.generationAt loc = some current ∧ ¬ gen < current) ∧
    ∀ more s' loc rel d, Transition.run (step pool) s more = some s' →
      s.tables.dirAt loc rel = some d →
      ∃ d', s'.tables.dirAt loc rel = some d' ∧ d'.id = d.id ∧ d.seen ≤ d'.seen := by
  have inv := run_inv ran
  have live : ∀ {run : Run}, run.phase ≠ .released → run.phase.live = true := by
    intro run h
    cases phase : run.phase <;> simp_all [Phase.live]
  refine ⟨?_, ?_, ?_, ?_, ?_⟩
  · intro r r' run run' found found' holds holds' same
    exact inv.claims.exclusive found found' (live holds) (live holds') same
  · intro scanID r entered
    obtain ⟨run, found, registered, rfl⟩ := inv.claims.registered scanID r entered
    exact ⟨run, found, rfl, inv.claims.claimed r run found (Phase.live_of_registered registered)⟩
  · intro r run found released
    refine ⟨?_, ?_⟩
    · intro loc holds
      obtain ⟨run', found', alive, _⟩ := inv.claims.held loc r holds
      rw [found] at found'
      cases found'
      simp [released, Phase.live] at alive
    · intro scanID entered
      obtain ⟨run', found', registered, _⟩ := inv.claims.registered scanID r entered
      rw [found] at found'
      cases found'
      simp [released, Phase.registered] at registered
  · intro a loc gen issued
    obtain ⟨r, run, call, active, rfl, rfl⟩ := scanning_of_issues issued
    obtain ⟨found, phase⟩ := scanning_eq_some_iff.mp active
    exact ⟨run.gen, inv.current r run run.gen found (by simp [Run.holds, phase]), by simp⟩
  · exact fun more s' loc rel d later found => inv.run_seen later found

/-- Two locations are scanned side by side, and one of them is scanned again. -/
def twoLocations : List ProcessAction :=
  [.insertLocation 1 "file:///music", .insertLocation 2 "file:///more", .start 1 false,
    .start 2 false, .beginScan 1 0 11, .beginFails 0, .register 1 .insertion oneFolder, .release 0,
    .start 1 true, .beginScan 2 1 12, .cancel 11, .register 2 .insertion oneFolder]

theorem twoLocations_exclusive :
    ∃ s, Transition.run (step ⟨2, 8, by decide⟩) empty twoLocations = some s ∧
      s.byScan 12 = some 2 ∧
      ∃ run, s.runs[2]? = some run ∧ run.scanID = 12 ∧ s.byLoc run.locationID = some 2 := by
  have reaches : (Transition.run (step ⟨2, 8, by decide⟩) empty twoLocations).map
      (fun s => s.byScan 12) = some (some 2) := by decide
  obtain ⟨s, ran, entered⟩ := Option.map_eq_some_iff.mp reaches
  exact ⟨s, ran, entered, (scans_exclusive _ ran).2.1 12 2 entered⟩

end Process

end Byom.Scan
