import Byom.Scan.Convergence
import Byom.Scan.Generations

/-!
# The dirs a sweep leaves

From the sweep of a scan until the next scan of its location starts, the live
dirs of the location are those the walk emitted. The rows of other locations are
never written by the actions of the scan.
-/

namespace Byom.Scan

open Storage Relational Sqlite

/-- The live dirs are the walked ones, all seen by the scan, and what was in the
others is gone. `before` is the tables the scan found. -/
structure SweptExactly (loc : UUID) (gen : Int) (walked : List WalkResult)
    (before after : ScanTables) : Prop where
  live : ∀ rel, (∃ d ∈ after.dirs, d.locationID = loc ∧ d.relPath = rel ∧ d.missing = false) ↔
    ∃ res ∈ walked, res.dir = rel
  seen : ∀ d ∈ after.dirs, d.locationID = loc → d.missing = false → d.seenGeneration = gen
  gone : ∀ d ∈ before.dirs, d.locationID = loc → d.missing = false →
    (∀ res ∈ walked, res.dir ≠ d.relPath) → ∀ f ∈ after.files, f.dirID = d.id → f.missing = true

theorem Sees.sweptExactly {loc : UUID} {run : ScanRun} {t : ScanTables} (sees : Sees loc run t)
    (wf : t.WellFormed) (begun : run.begun.WellFormed) (swept : run.swept = true)
    (complete : ∀ res, res ∈ run.walked ↔ res ∈ run.synced) :
    SweptExactly loc run.gen run.walked run.begun t := by
  -- A dir that no result was synced for is missing, if it has a row.
  have live : ∀ d ∈ t.dirs, d.locationID = loc → d.missing = false →
      ∃ res ∈ run.synced, res.dir = d.relPath := by
    rintro d hd rfl present
    by_contra none_
    push Not at none_
    have row := sees.others d.relPath none_
    rw [ScanTables.dirAt_of_mem wf hd] at row
    obtain ⟨old, _, same⟩ := Option.map_eq_some_iff.mp row.symm
    rw [if_pos swept] at same
    have missing : d.missing = true := (congrArg ScanTables.Sighting.missing same).symm
    rw [present] at missing
    cases missing
  refine ⟨?_, ?_, ?_⟩
  · intro rel
    constructor
    · rintro ⟨d, hd, owner, rfl, present⟩
      obtain ⟨res, synced, same⟩ := live d hd owner present
      exact ⟨res, (complete res).mpr synced, same⟩
    · rintro ⟨res, walked, rfl⟩
      obtain ⟨id, here⟩ := sees.synced res ((complete res).mp walked)
      obtain ⟨d, hd, owner, path, same⟩ := ScanTables.dirAt_some here
      exact ⟨d, hd, owner, path, congrArg ScanTables.Sighting.missing same⟩
  · rintro d hd rfl present
    obtain ⟨res, synced, same⟩ := live d hd rfl present
    obtain ⟨id, here⟩ := sees.synced res synced
    rw [same, ScanTables.dirAt_of_mem wf hd, Option.some.injEq] at here
    exact congrArg ScanTables.Sighting.seen here
  · rintro d hd rfl present apart f hf owner
    refine sees.gone swept d.relPath _ ?_ (ScanTables.dirAt_of_mem begun hd) present f ?_
    · exact fun res synced => apart res ((complete res).mpr synced)
    · exact List.mem_filter.mpr ⟨hf, decide_eq_true owner⟩

namespace Scanner

variable {s s' : Scanner} {loc : UUID} {run : ScanRun}

/-- The action, if it belongs to the scan of `loc`, writes no row of another location. -/
def KeepsElsewhere (loc : UUID) (s : Scanner) (a : Action) : Prop :=
  a.scanOf = some loc → ∀ s', s.step a = some s' → ScanTables.SameElsewhere loc s.tables s'.tables

theorem keepsElsewhere (inv : s.Inv) (loc : UUID) (a : Action) : KeepsElsewhere loc s a := by
  intro own s' h
  cases a with
  | start loc' now scanID force order tree =>
    obtain rfl : loc' = loc := by simpa [Action.scanOf] using own
    obtain ⟨_, t, gen, began, rfl⟩ := start_cases h
    exact ScanTables.beginScan_sameElsewhere began
  | load loc' i =>
    obtain ⟨run, res, _, _, rfl⟩ := load_cases h
    exact .of_eq rfl rfl
  | commit loc' i newDirID newFileID =>
    obtain rfl : loc' = loc := by simpa [Action.scanOf] using own
    obtain ⟨run, res, known, t, d, active, taken, synced, rfl⟩ := commit_cases h
    have tracks := inv.tracks loc' run (active_some active)
    exact ScanTables.syncDir_sameElsewhere inv.wellFormed
      (tracks.missingInside inv.wellFormed (List.mem_of_getElem? taken)) synced
  | sweep loc' =>
    obtain rfl : loc' = loc := by simpa [Action.scanOf] using own
    obtain ⟨run, _, _, _, rfl⟩ := sweep_cases h
    exact ScanTables.sweep_sameElsewhere inv.wellFormed run.gen
  | finish loc' now scanErr =>
    obtain ⟨run, _, _, rfl⟩ := finish_cases h
    exact .of_eq rfl rfl
  | _ => cases own

theorem Reachable.step {a : Action} (reachable : s.Reachable) (h : s.step a = some s') :
    s'.Reachable := by
  obtain ⟨acts, ends⟩ := reachable
  refine ⟨acts ++ [a], ?_⟩
  rw [Transition.run_append, ends]
  simp [h]

theorem Reachable.after {acts : List Action} (reachable : s.Reachable)
    (ran : Transition.run Scanner.step s acts = some s') : s'.Reachable :=
  Transition.invariant_of_run (fun _ _ _ reaches h => reaches.step h) reachable ran

theorem keepsElsewhere_run (reachable : s.Reachable) (loc : UUID) (acts : List Action) :
    Transition.StepsMeet Scanner.step (KeepsElsewhere loc) s acts := by
  induction acts generalizing s with
  | nil => trivial
  | cons a acts ih =>
    intro s' h
    exact ⟨keepsElsewhere reachable.inv loc a, ih (reachable.step h)⟩

/-- A scan that has swept left the walked dirs of its location live, and no others,
and its actions wrote nothing elsewhere. -/
theorem scan_sweeps_exactly (reachable : s.Reachable) {now : Int} {scanID : UUID} {force : Bool}
    {order : MapOrder} {tree : Tree} {acts : List Action}
    (once : ∀ a ∈ acts, a.starts ≠ some loc)
    (ran : Transition.run Scanner.step s (.start loc now scanID force order tree :: acts) = some s')
    (found : s'.byLoc loc = some run) (swept : run.swept = true) :
    SweptExactly loc run.gen (walk order tree).emitted s.tables s'.tables ∧
      Transition.StepsMeet Scanner.step (KeepsElsewhere loc) s
        (.start loc now scanID force order tree :: acts) := by
  refine ⟨?_, keepsElsewhere_run reachable loc _⟩
  have ends := reachable.after ran
  obtain ⟨s₁, started, rest⟩ := Option.bind_eq_some_iff.mp ran
  obtain ⟨first, at_, same⟩ := run_sameScan once rest found
  obtain ⟨_, t, gen, _, rfl⟩ := start_cases started
  rw [setRun_byLoc, if_pos rfl, Option.some.injEq] at at_
  subst at_
  have tracks := ends.inv.tracks loc run found
  have exact_ := (ends.generations.sees loc run found).sweptExactly ends.inv.wellFormed
    tracks.begun swept fun res => ⟨fun walked => synced_of_swept ends.inv found swept walked,
      fun done => tracks.mem_walked.mpr (.inr done)⟩
  rw [same.walked, same.begun] at exact_
  exact exact_

/-! ### A dir is removed from one of two locations -/

def twoAlbums : Tree :=
  ⟨.dir "demo" (.file "01.flac" true (some ⟨800, 3⟩) .nil)
    (.dir "live" (.file "01.flac" true (some ⟨1000, 5⟩) .nil) .nil), by decide⟩

def oneAlbum : Tree := ⟨.dir "live" (.file "01.flac" true (some ⟨1000, 5⟩) .nil) .nil, by decide⟩

/-- A worker syncs the first dir of the queue. -/
def syncNext (loc dirID fileID : UUID) : List Action :=
  [.load loc 0, .commit loc 0 dirID fun _ => fileID]

def bothScanned : List Action :=
  [.insertLocation 1 "file:///music", .insertLocation 2 "file:///more",
    .start 1 0 3 false .insertion twoAlbums] ++
  syncNext 1 10 20 ++ syncNext 1 11 21 ++ syncNext 1 12 22 ++
  [.sweep 1, .finish 1 9 none, .start 2 10 4 false .insertion oneFile] ++ syncNext 2 13 23 ++
  [.sweep 2, .finish 2 19 none]

/-- What follows the start of the scan without one dir, beside a scan of the second location. -/
def demoRemoved : List Action :=
  .start 2 30 6 false .insertion noFiles :: syncNext 1 11 21 ++ syncNext 2 13 23 ++
    syncNext 1 12 22 ++ [.sweep 1]

def demoScan : List Action := .start 1 20 5 false .insertion oneAlbum :: demoRemoved

theorem bothScanned_enabled : (Transition.run step empty bothScanned).isSome := by decide

theorem demoScan_enabled : (Transition.run step empty (bothScanned ++ demoScan)).isSome := by decide

def demoSwept : ScanRun := scanOfOne (afterActions _ demoScan_enabled) (by decide)

theorem demoScan_swept :
    (afterActions _ demoScan_enabled).tables.dirs.map
        (fun d => (d.locationID, d.relPath, d.missing)) =
      [(1, ["demo"], true), (1, ["live"], false), (1, [], false), (2, [], false)] ∧
    SweptExactly 1 demoSwept.gen (walk .insertion oneAlbum).emitted
        (afterActions _ bothScanned_enabled).tables (afterActions _ demoScan_enabled).tables ∧
      Transition.StepsMeet Scanner.step (KeepsElsewhere 1)
        (afterActions _ bothScanned_enabled) demoScan :=
  ⟨by decide, scan_sweeps_exactly (afterActions_reachable _ bothScanned_enabled) (by decide)
    (by rfl) (scanOfOne_found (afterActions _ demoScan_enabled) (by decide)) (by decide)⟩

end Scanner

end Byom.Scan
