import Byom.Scan.Exclusion
import Byom.Sqlite.Locations
import Byom.Sqlite.ScanRecords

/-!
# The tree that a scan walks

`Start` reads its location, and with it the root that the scan will walk, before it
claims the location and opens the record of the scan. `Rooted` takes these two parts of
`Start` apart, and lets `LocationStore.Update` in.
-/

namespace Byom.Scan

open Storage Relational Sqlite Transition

/-- A call of `Start` that has read its location, and has yet to claim it. -/
structure StartCall where
  locationID : UUID
  force : Bool
  root : String
  deriving DecidableEq, Repr

/-- `roots` has the root in the `fsys` of each run, and `walks` the root that is walked for
each scan that this process has begun. -/
structure Rooted where
  process : Process
  starting : List StartCall
  roots : List String
  walks : UUID → Option String

inductive RootedAction where
  | read (loc : UUID) (force : Bool)
  | claim (i : Nat)
  | update (loc : UUID) (uri : String)
  | act (a : ProcessAction)

/-- Whether `BeginScan` is still to come. -/
def Phase.isClaimed : Phase → Bool
  | .claimed => true
  | _ => false

namespace Rooted

variable {parse : String → Except String URL} {pool : WorkerPool}

/-- A process that has just started beside a database. -/
def start (t : ScanTables) : Rooted where
  process := ⟨t, [], fun _ => none, fun _ => none, [], [], []⟩
  starting := []
  roots := []
  walks := fun _ => none

/-- `Start` reads the location and resolves its root. -/
def read (parse : String → Except String URL) (s : Rooted) (loc : UUID) (force : Bool) :
    Option Rooted :=
  match (s.process.tables.location loc).map (Location.root parse) with
  | some (.ok root) => some { s with starting := s.starting ++ [⟨loc, force, root⟩] }
  | _ => none

/-- The claim of `Start`; it is refused if the location is claimed. -/
def claim (s : Rooted) (i : Nat) : Option Rooted :=
  match s.starting[i]? with
  | none => none
  | some call =>
    let starting := s.starting.eraseIdx i
    match s.process.start call.locationID call.force with
    | none => some { s with starting }
    | some p => some { s with process := p, starting, roots := s.roots ++ [call.root] }

/-- `LocationStore.Update`, where it succeeds. -/
def update (s : Rooted) (loc : UUID) (uri : String) : Option Rooted :=
  match s.process.tables.updateLocation loc uri with
  | .error _ => none
  | .ok t => some { s with process := { s.process with tables := t } }

/-- Any other action of the process. -/
def act (pool : WorkerPool) (s : Rooted) (a : ProcessAction) : Option Rooted :=
  match a with
  | .start _ _ => none
  | .beginScan r _ scanID => (s.process.step pool a).map fun p =>
      { s with process := p, walks := Function.update s.walks scanID s.roots[r]? }
  | .restart _ => (s.process.step pool a).map fun p => { start p.tables with process := p }
  | _ => (s.process.step pool a).map fun p => { s with process := p }

def step (parse : String → Except String URL) (pool : WorkerPool) (s : Rooted) :
    RootedAction → Option Rooted
  | .read loc force => s.read parse loc force
  | .claim i => s.claim i
  | .update loc uri => s.update loc uri
  | .act a => s.act pool a

/-- The root of the URI that is stored for a location. -/
def rootOf (parse : String → Except String URL) (t : ScanTables) (loc : UUID) : Option String :=
  (t.location loc).bind fun l => (l.root parse).toOption

/-- A running scan that this process has begun walks the root of its location. -/
def WalksLocation (parse : String → Except String URL) (s : Rooted) : Prop :=
  ∀ scan ∈ s.process.tables.scans, scan.state = .running → ∀ root ∈ s.walks scan.id,
    rootOf parse s.process.tables scan.locationID = some root

/-- The roots that calls of `Start` have read for a location whose scans they have yet to
begin. -/
def reads (s : Rooted) (loc : UUID) : List String :=
  (s.starting.filter fun call => call.locationID = loc).map StartCall.root ++
    ((s.process.runs.zip s.roots).filter fun (run, _) =>
      run.locationID = loc ∧ run.phase.isClaimed = true).map Prod.snd

/-- An update does not change the root that a call of `Start` has read, until its scan is
begun. -/
def UpdatesOutside (parse : String → Except String URL) (s : Rooted) : RootedAction → Prop
  | .update loc uri => ∀ root ∈ s.reads loc, ∀ l ∈ s.process.tables.location loc,
    ({ l with uri } : Location).root parse = .ok root
  | _ => True

/-! ### What the process does to locations, records and claims -/

/-- Locations are kept, no other scan is running, and no other run is claimed. -/
structure Quiet (p p' : Process) : Prop where
  location : ∀ loc l, p.tables.location loc = some l → p'.tables.location loc = some l
  running : ∀ scan ∈ p'.tables.scans, scan.state = .running →
    ∃ old ∈ p.tables.scans, old.state = .running ∧ old.id = scan.id ∧
      old.locationID = scan.locationID
  length : p'.runs.length = p.runs.length
  claimed : ∀ (r : Nat) (run' : Run), p'.runs[r]? = some run' → run'.phase.isClaimed = true →
    ∃ run, p.runs[r]? = some run ∧ run.phase.isClaimed = true ∧ run'.locationID = run.locationID

variable {s s' : Rooted} {p p' : Process} {a : ProcessAction} {r : Nat} {run run' : Run}
  {loc scanID : UUID} {now : Int} {root : String}

theorem isClaimed_iff {phase : Phase} : phase.isClaimed = true ↔ phase = .claimed := by
  cases phase <;> simp [Phase.isClaimed]

/-- A run is written that is no longer claimed. -/
theorem Quiet.set {p p' : Process} (runs : p'.runs = p.runs.set r run')
    (begun : run'.phase.isClaimed = false)
    (location : ∀ loc l, p.tables.location loc = some l → p'.tables.location loc = some l)
    (running : ∀ scan ∈ p'.tables.scans, scan.state = .running →
      ∃ old ∈ p.tables.scans, old.state = .running ∧ old.id = scan.id ∧
        old.locationID = scan.locationID) : Quiet p p' := by
  refine ⟨location, running, ?_, ?_⟩
  · rw [runs, List.length_set]
  · intro i x found claimed
    rw [runs] at found
    rcases Transition.getElem?_set_cases found with ⟨rfl, rfl⟩ | ⟨_, old⟩
    · rw [begun] at claimed
      cases claimed
    · exact ⟨x, old, claimed, rfl⟩

theorem running_of_eq {t t' : ScanTables} (scans : t'.scans = t.scans) :
    ∀ scan ∈ t'.scans, scan.state = .running → ∃ old ∈ t.scans, old.state = .running ∧
      old.id = scan.id ∧ old.locationID = scan.locationID := fun scan hs running =>
  ⟨scan, scans ▸ hs, running, rfl, rfl⟩

theorem cancel_isClaimed (run : Run) : run.cancel.phase.isClaimed = run.phase.isClaimed := by
  cases phase : run.phase <;> simp [Run.cancel, Phase.isClaimed, phase]

/-- All steps but the claim of a run, the begin of its scan and a restart. -/
theorem quiet_of_step (h : p.step pool a = some p') (noClaim : ∀ loc force, a ≠ .start loc force)
    (noScan : ∀ r now scanID, a ≠ .beginScan r now scanID)
    (goesOn : ∀ recovered, a ≠ .restart recovered) : Quiet p p' := by
  have id_ : ∀ loc l, p.tables.location loc = some l → p.tables.location loc = some l :=
    fun _ _ found => found
  cases Process.moves_of_step h with
  | insertLocation id uri inserted =>
    refine ⟨?_, running_of_eq (ScanTables.insertLocation_scans inserted), rfl, ?_⟩
    · exact fun loc l found => ScanTables.insertLocation_location inserted found
    · exact fun r run found claimed => ⟨run, found, claimed, rfl⟩
  | start loc force => exact absurd rfl (noClaim loc force)
  | beginScan r now scanID => exact absurd rfl (noScan r now scanID)
  | beginFails r run found phase => exact .set rfl rfl id_ (running_of_eq rfl)
  | register r order tree run scanID gen found phase => exact .set rfl rfl id_ (running_of_eq rfl)
  | sync r a run found phase inMemory moved => exact .set rfl rfl id_ (running_of_eq rfl)
  | load r i run found phase taken moved => exact .set rfl rfl id_ (running_of_eq rfl)
  | commit r i newDirID newFileID run found phase taken synced moved =>
    refine .set rfl rfl ?_ (running_of_eq (ScanTables.syncDir_scans synced))
    intro loc l at_
    rw [ScanTables.location_of_eq (ScanTables.syncDir_locations synced)]
    exact at_
  | sweep r run found phase swept moved =>
    obtain rfl := congrArg Prod.fst swept
    exact .set rfl rfl id_ (running_of_eq rfl)
  | finishScan r now run scanErr found phase returned =>
    refine .set rfl rfl id_ ?_
    intro scan hs running
    obtain ⟨old, hold, rfl⟩ := mem_updateWhere.mp hs
    refine ⟨old, hold, ?_⟩
    split at running
    · rcases scanErr with _ | ⟨_ | _⟩ <;> cases running
    · rename_i other
      rw [if_neg other]
      exact ⟨running, rfl, rfl⟩
  | finishFails r run scanErr found phase returned => exact .set rfl rfl id_ (running_of_eq rfl)
  | release r run found phase => exact .set rfl rfl id_ (running_of_eq rfl)
  | cancel scanID r run registered found holds =>
    refine ⟨id_, running_of_eq rfl, List.length_set, ?_⟩
    intro i x found' claimed
    rcases Transition.getElem?_set_cases found' with ⟨rfl, rfl⟩ | ⟨_, old⟩
    · exact ⟨run, found, (cancel_isClaimed run).symm.trans claimed, rfl⟩
    · exact ⟨x, old, claimed, rfl⟩
  | shutdown =>
    refine ⟨id_, running_of_eq rfl, List.length_mapIdx, ?_⟩
    intro i x found' claimed
    simp only [Process.shutdown, List.getElem?_mapIdx] at found'
    obtain ⟨old, found, rfl⟩ := Option.map_eq_some_iff.mp found'
    refine ⟨old, found, ?_⟩
    split at claimed
    · exact ⟨(cancel_isClaimed old).symm.trans claimed, by split <;> rfl⟩
    · exact ⟨claimed, by split <;> rfl⟩
  | restart recovered => exact absurd rfl (goesOn recovered)

/-! ### The invariant -/

structure Inv (parse : String → Except String URL) (s : Rooted) : Prop where
  length : s.roots.length = s.process.runs.length
  current : ∀ loc, ∀ root ∈ s.reads loc, rootOf parse s.process.tables loc = some root
  walking : s.WalksLocation parse

theorem start_inv (t : ScanTables) : (start t).Inv parse := by
  refine ⟨rfl, ?_, ?_⟩
  · intro loc root read
    cases read
  · intro scan _ _ root walks
    cases walks

/-- A location that is kept keeps its root. -/
theorem rootOf_of_kept {t t' : ScanTables}
    (kept : ∀ l, t.location loc = some l → t'.location loc = some l)
    (here : rootOf parse t loc = some root) : rootOf parse t' loc = some root := by
  obtain ⟨l, found, ok⟩ := Option.bind_eq_some_iff.mp here
  exact Option.bind_eq_some_iff.mpr ⟨l, kept l found, ok⟩

theorem mem_reads : root ∈ s.reads loc ↔
    (∃ call ∈ s.starting, call.locationID = loc ∧ call.root = root) ∨
      ∃ (r : Nat) (run : Run), s.process.runs[r]? = some run ∧ s.roots[r]? = some root ∧
        run.locationID = loc ∧ run.phase.isClaimed = true := by
  unfold reads
  simp only [List.mem_append, List.mem_map, List.mem_filter, decide_eq_true_eq]
  apply or_congr
  · simp only [and_assoc]
  · constructor
    · rintro ⟨⟨run, root'⟩, ⟨both, location, claimed⟩, rfl⟩
      obtain ⟨r, at_⟩ := List.mem_iff_getElem?.mp both
      obtain ⟨first, second⟩ := List.getElem?_zip_eq_some.mp at_
      exact ⟨r, run, first, second, location, claimed⟩
    · rintro ⟨r, run, first, second, location, claimed⟩
      refine ⟨(run, root), ⟨?_, location, claimed⟩, rfl⟩
      exact List.mem_of_getElem? (List.getElem?_zip_eq_some.mpr ⟨first, second⟩)

theorem Inv.quiet (inv : s.Inv parse) (quiet : Quiet s.process p) :
    Inv parse { s with process := p } := by
  refine ⟨inv.length.trans quiet.length.symm, ?_, ?_⟩
  · intro loc root read
    apply rootOf_of_kept (quiet.location loc)
    apply inv.current
    rcases mem_reads.mp read with early | ⟨r, run, found, at_, rfl, claimed⟩
    · exact mem_reads.mpr (.inl early)
    · obtain ⟨old, found', claimed', location⟩ := quiet.claimed r run found claimed
      exact mem_reads.mpr (.inr ⟨r, old, found', at_, location.symm, claimed'⟩)
  · intro scan hs running root walks
    obtain ⟨old, hold, running', id, location⟩ := quiet.running scan hs running
    apply rootOf_of_kept (quiet.location _)
    rw [← location]
    exact inv.walking old hold running' root (id ▸ walks)

/-- A call of `Start` that goes on, or returns with an error. -/
theorem Inv.claim (inv : s.Inv parse) {i : Nat} (h : s.claim i = some s') : s'.Inv parse := by
  unfold Rooted.claim at h
  split at h
  · cases h
  · rename_i call found
    have listed : call ∈ s.starting := List.mem_of_getElem? found
    have fewer : ∀ c ∈ s.starting.eraseIdx i, c ∈ s.starting := fun _ => List.mem_of_mem_eraseIdx
    simp only at h
    split at h
    · cases h
      refine ⟨inv.length, ?_, inv.walking⟩
      intro loc root read
      apply inv.current
      rcases mem_reads.mp read with ⟨c, hc, own⟩ | claimed
      · exact mem_reads.mpr (.inl ⟨c, fewer c hc, own⟩)
      · exact mem_reads.mpr (.inr claimed)
    · rename_i p claims
      cases h
      have moves : s.process.Moves ⟨1, 1, by decide⟩ _ p := Process.start_moves claims
      cases moves with
      | start loc force free =>
        refine ⟨by simp [inv.length], ?_, inv.walking⟩
        intro loc root read
        apply inv.current
        rcases mem_reads.mp read with ⟨c, hc, own⟩ | ⟨r, run, at_, ofRun, location, claimed⟩
        · exact mem_reads.mpr (.inl ⟨c, fewer c hc, own⟩)
        · simp only at at_ ofRun
          rcases Nat.lt_or_ge r s.process.runs.length with before | after
          · rw [List.getElem?_append_left before] at at_
            rw [List.getElem?_append_left (inv.length ▸ before)] at ofRun
            exact mem_reads.mpr (.inr ⟨r, run, at_, ofRun, location, claimed⟩)
          · rw [List.getElem?_append_right after, List.getElem?_singleton] at at_
            rw [List.getElem?_append_right (inv.length ▸ after), List.getElem?_singleton,
              inv.length] at ofRun
            split at at_
            · rename_i here
              rw [if_pos here] at ofRun
              cases at_
              cases ofRun
              exact mem_reads.mpr (.inl ⟨call, listed, location, rfl⟩)
            · cases at_

theorem Inv.read (inv : s.Inv parse) {force : Bool} (h : s.read parse loc force = some s') :
    s'.Inv parse := by
  unfold Rooted.read at h
  split at h
  · rename_i root resolved
    cases h
    refine ⟨inv.length, ?_, inv.walking⟩
    intro other root' read
    rcases mem_reads.mp read with ⟨call, hc, own, ofCall⟩ | claimed
    · rcases List.mem_append.mp hc with old | new
      · exact inv.current other root' (mem_reads.mpr (.inl ⟨call, old, own, ofCall⟩))
      · obtain rfl := List.mem_singleton.mp new
        subst own ofCall
        obtain ⟨l, found, ok⟩ := Option.map_eq_some_iff.mp resolved
        exact Option.bind_eq_some_iff.mpr ⟨l, found, by rw [ok]; rfl⟩
    · exact inv.current other root' (mem_reads.mpr (.inr claimed))
  · cases h

/-- `Update` leaves a location alone that has a running scan. -/
theorem Inv.update (inv : s.Inv parse) {uri : String}
    (outside : s.UpdatesOutside parse (.update loc uri)) (h : s.update loc uri = some s') :
    s'.Inv parse := by
  unfold Rooted.update at h
  split at h
  · cases h
  · rename_i t updated
    cases h
    obtain ⟨idle, rfl⟩ := ScanTables.updateLocation_cases updated
    have others : ∀ {other : UUID} {root : String}, other ≠ loc →
        rootOf parse s.process.tables other = some root →
        rootOf parse (s.process.tables.setURI loc uri) other = some root := by
      intro other root apart here
      unfold rootOf
      rw [ScanTables.setURI_location_ne apart]
      exact here
    refine ⟨inv.length, ?_, ?_⟩
    · intro other root read
      have before := inv.current other root read
      by_cases own : other = loc
      · subst own
        obtain ⟨l, found, _⟩ := Option.bind_eq_some_iff.mp before
        have same := outside root read l found
        refine Option.bind_eq_some_iff.mpr ⟨{ l with uri }, ?_, by rw [same]; rfl⟩
        rw [ScanTables.setURI_location, found]
        rfl
      · exact others own before
    · intro scan hs running root walks
      have apart : scan.locationID ≠ loc := by
        intro own
        have busy : s.process.tables.scanRunning loc = true :=
          List.any_eq_true.mpr ⟨scan, hs, by simp [own, running]⟩
        rw [idle] at busy
        cases busy
      exact others apart (inv.walking scan hs running root walks)

/-- The scan that is begun walks the root that `Start` has read. -/
theorem Inv.beginScan (inv : s.Inv parse) (h : s.process.beginScan r now scanID = some p) :
    Inv parse { s with process := p, walks := Function.update s.walks scanID s.roots[r]? } := by
  have moves : s.process.Moves ⟨1, 1, by decide⟩ _ p := Process.beginScan_moves h
  cases moves with
  | beginScan r now scanID run found phase began =>
    rename_i t gen
    obtain ⟨absent, scans⟩ := ScanTables.beginScan_scans began
    have kept : ∀ {other : UUID} {root : String},
        rootOf parse s.process.tables other = some root → rootOf parse t other = some root := by
      intro other root here
      apply rootOf_of_kept _ here
      intro l at_
      rw [ScanTables.beginScan_location began]
      exact at_
    refine ⟨?_, ?_, ?_⟩
    · exact inv.length.trans List.length_set.symm
    · intro loc root read
      apply kept
      apply inv.current
      rcases mem_reads.mp read with early | ⟨i, x, at_, ofRun, own, claimed⟩
      · exact mem_reads.mpr (.inl early)
      · rcases Transition.getElem?_set_cases at_ with ⟨rfl, rfl⟩ | ⟨_, old⟩
        · cases claimed
        · exact mem_reads.mpr (.inr ⟨i, x, old, ofRun, own, claimed⟩)
    · intro scan hs running root walks
      apply kept
      simp only at hs
      rw [scans] at hs
      rcases List.mem_append.mp hs with old | new
      · obtain ⟨row, hrow, rfl⟩ := mem_updateWhere.mp old
        have apart : row.id ≠ scanID := lookup_eq_none_iff.mp absent row hrow
        split at running
        · cases running
        · rename_i other
          rw [if_neg other] at walks ⊢
          have walked : Function.update s.walks scanID s.roots[r]? row.id = some root := walks
          rw [Function.update_of_ne apart] at walked
          exact inv.walking row hrow running root walked
      · obtain rfl := List.mem_singleton.mp new
        have own : s.roots[r]? = some root := by
          simpa [ScanTables.startedRow] using walks
        apply inv.current
        exact mem_reads.mpr (.inr ⟨r, run, found, own, rfl, isClaimed_iff.mpr phase⟩)

theorem step_inv {a : RootedAction} (inv : s.Inv parse) (outside : s.UpdatesOutside parse a)
    (h : s.step parse pool a = some s') : s'.Inv parse := by
  cases a with
  | read loc force => exact inv.read h
  | claim i => exact inv.claim h
  | update loc uri => exact inv.update outside h
  | act a =>
    cases a with
    | start loc force => cases h
    | beginScan r now scanID =>
      obtain ⟨p, begun, rfl⟩ := Option.map_eq_some_iff.mp h
      exact inv.beginScan begun
    | restart recovered =>
      cases h
      refine ⟨rfl, ?_, ?_⟩
      · intro loc root read
        cases read
      · intro scan _ _ root walks
        cases walks
    | shutdown =>
      cases h
      have taken : s.process.step pool .shutdown = some s.process.shutdown := rfl
      exact inv.quiet (quiet_of_step taken nofun nofun nofun)
    | _ =>
      obtain ⟨p, taken, rfl⟩ := Option.map_eq_some_iff.mp h
      exact inv.quiet (quiet_of_step taken nofun nofun nofun)

/-- While no update comes between the two parts of a `Start`, a running scan walks the
location that it is recorded for. -/
theorem running_walks_location (parse : String → Except String URL) (pool : WorkerPool)
    (t : ScanTables) {as : List RootedAction}
    (outside : StepsMeet (step parse pool) (UpdatesOutside parse) (start t) as) :
    Along (step parse pool) (WalksLocation parse) (start t) as := by
  apply along_of_stepsMeet (I := Inv parse) _ _ (start_inv t) outside
  · exact fun s a s' inv met h => step_inv inv met h
  · exact fun s inv => inv.walking

/-! ### An update between the two parts -/

/-- `url.Parse`, on the URIs below. -/
def parseURI : String → Except String URL
  | "file:///music" => .ok ⟨"file", "", "/music"⟩
  | "file:///more" => .ok ⟨"file", "", "/more"⟩
  | uri => .ok ⟨"", "", uri⟩

def oneLocation : ScanTables where
  locations := [⟨1, "file:///music", 0, true⟩]
  scans := []
  dirs := []
  files := []

instance (s : Rooted) : Decidable (s.WalksLocation parse) :=
  inferInstanceAs (Decidable (∀ scan ∈ s.process.tables.scans, scan.state = .running →
    ∀ root ∈ s.walks scan.id, rootOf parse s.process.tables scan.locationID = some root))

instance (s : Rooted) (loc : UUID) (uri : String) :
    Decidable (s.UpdatesOutside parse (.update loc uri)) :=
  inferInstanceAs (Decidable (∀ root ∈ s.reads loc, ∀ l ∈ s.process.tables.location loc, _ = _))

instance (s : Rooted) : DecidablePred (s.UpdatesOutside parse)
  | .read _ _ => isTrue trivial
  | .claim _ => isTrue trivial
  | .update _ _ => inferInstance
  | .act _ => isTrue trivial

/-- The update comes before the location is read. -/
theorem updatedBefore_walks : Along (step parseURI ⟨2, 8, by decide⟩) (WalksLocation parseURI)
    (start oneLocation)
    [.update 1 "file:///more", .read 1 false, .claim 0, .act (.beginScan 0 5 11)] :=
  running_walks_location parseURI ⟨2, 8, by decide⟩ oneLocation (by decide)

/-- The location is read, updated, claimed and scanned: the scan walks the old tree. -/
theorem updatedBetween_walksOther :
    ¬ ∀ (t : ScanTables) (as : List RootedAction), Along (step parseURI ⟨2, 8, by decide⟩)
      (WalksLocation parseURI) (start t) as := by
  intro walks
  have along := walks oneLocation
    [.read 1 false, .update 1 "file:///more", .claim 0, .act (.beginScan 0 5 11)]
  exact absurd along (by decide)

end Rooted

end Byom.Scan
