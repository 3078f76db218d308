import Byom.Scan.Listing

/-!
# Listing the scans that are being cancelled

They are found by the runs in memory, on one page that is cut at the limit. A run whose scan
has ended in the database is still there until it is released.
-/

namespace Byom.Scan.LiveScans

open Storage Relational Sqlite Paging

variable {s : LiveScans} {loc : UUID} {state : State} {limit : Int} {sorts : NewestFirst}

theorem mapM_eq_some_iff {α β : Type} {f : α → Option β} {xs : List α} {ys : List β} :
    xs.mapM f = some ys ↔ xs.map f = ys.map some := by
  induction xs generalizing ys with
  | nil => cases ys <;> simp
  | cons x rest ih =>
    rw [List.mapM_cons]
    cases head : f x with
    | none => cases ys <;> simp [head]
    | some y =>
      cases ys with
      | nil => cases rest.mapM f <;> simp
      | cons z zs =>
        have later : rest.mapM f = some zs ↔ rest.map f = zs.map some := ih
        cases tail : rest.mapM f <;> simp_all

theorem exists_of_mapM_eq_none {α β : Type} {f : α → Option β} {xs : List α}
    (missing : xs.mapM f = none) : ∃ x ∈ xs, f x = none := by
  induction xs with
  | nil => cases missing
  | cons x rest ih =>
    cases head : f x with
    | none => exact ⟨x, List.mem_cons_self, head⟩
    | some y =>
      cases tail : rest.mapM f with
      | none =>
        obtain ⟨z, member, none_⟩ := ih tail
        exact ⟨z, List.mem_cons_of_mem x member, none_⟩
      | some ys => simp [List.mapM_cons, head, tail] at missing

/-- A run that is cancelling is what the state changes by. -/
theorem overlay_cancelling_iff {row : ScanRow} (stored : row ∈ s.db.storage.scans) :
    (s.overlay (scanScan row)).state = .cancelling ↔ row.state = .running ∧
      ∃ r ∈ s.byScan, r.scanID = row.id ∧ r.cancelling = true := by
  have checked := s.checked row stored
  unfold overlay
  cases found : lookup LiveRun.scanID (scanScan row).id s.byScan with
  | none =>
    refine iff_of_false checked ?_
    rintro ⟨_, r, member, same, _⟩
    exact lookup_eq_none_iff.mp found r member same
  | some r =>
    obtain ⟨member, same⟩ := s.distinct.lookup_eq_some_iff.mp found
    have only : (∃ r ∈ s.byScan, r.scanID = row.id ∧ r.cancelling = true) ↔
        r.cancelling = true := by
      constructor
      · rintro ⟨other, listed, key, cancelling⟩
        rwa [← s.distinct.eq_of_key listed member (key.trans same.symm)]
      · exact fun cancelling => ⟨r, member, same, cancelling⟩
    rw [only]
    by_cases both : row.state = .running ∧ r.cancelling = true
    · simp [scanScan, both]
    · simpa [scanScan, both] using checked

theorem scan_eq_some_iff {id : UUID} {sc : ScanRecord} : s.scan id = some sc ↔
    ∃ row ∈ s.db.storage.scans, row.id = id ∧ s.overlay (scanScan row) = sc := by
  unfold scan
  rw [Option.map_eq_some_iff]
  constructor
  · rintro ⟨row, found, same⟩
    obtain ⟨member, key⟩ := s.db.wellFormed.scanIDs.lookup_eq_some_iff.mp found
    exact ⟨row, member, key, same⟩
  · rintro ⟨row, member, key, same⟩
    exact ⟨row, s.db.wellFormed.scanIDs.lookup_eq_some_iff.mpr ⟨member, key⟩, same⟩

theorem id_of_scan {id : UUID} {sc : ScanRecord} (found : s.scan id = some sc) : sc.id = id := by
  obtain ⟨row, _, rfl, rfl⟩ := scan_eq_some_iff.mp found
  exact overlay_id s _

theorem mem_cancellingRuns {r : LiveRun} : r ∈ s.cancellingRuns loc ↔
    r ∈ s.byScan ∧ r.cancelling = true ∧ inLocation loc r.locationID = true := by
  simp [cancellingRuns]

theorem mem_reported {sc : ScanRecord} : sc ∈ s.reported loc state ↔
    ∃ row ∈ s.db.storage.scans, s.overlay (scanScan row) = sc ∧
      inLocation loc row.locationID = true ∧ sc.state = state := by
  unfold reported
  rw [List.map_map, List.mem_filter, List.mem_map]
  constructor
  · rintro ⟨⟨row, member, rfl⟩, selected⟩
    have location : (s.overlay (scanScan row)).locationID = row.locationID :=
      overlay_locationID s _
    obtain ⟨here, same⟩ := Bool.and_eq_true_iff.mp selected
    rw [Function.comp_apply, location] at here
    exact ⟨row, member, rfl, here, of_decide_eq_true same⟩
  · rintro ⟨row, member, rfl, here, same⟩
    have location : (s.overlay (scanScan row)).locationID = row.locationID :=
      overlay_locationID s _
    exact ⟨⟨row, member, rfl⟩, by simp [location, here, same]⟩

theorem reported_nodup (s : LiveScans) (loc : UUID) (state : State) :
    (s.reported loc state).Nodup := by
  have ids : (((s.db.storage.scans.map scanScan).map s.overlay).map ScanRecord.id).Nodup := by
    have same : (ScanRecord.id ∘ s.overlay) ∘ scanScan = ScanRow.id := by
      funext row
      exact overlay_id s _
    rw [List.map_map, List.map_map, same]
    exact s.db.wellFormed.scanIDs
  exact (ids.of_map _).filter _

/-- A cancelling run is reported so exactly while its scan is recorded as running. -/
theorem found_reported_iff {r : LiveRun} {row : ScanRow} (listed : r ∈ s.cancellingRuns loc)
    (stored : row ∈ s.db.storage.scans) (own : row.id = r.scanID) :
    s.overlay (scanScan row) ∈ s.reported loc .cancelling ↔ row.state = .running := by
  obtain ⟨member, cancelling, here⟩ := mem_cancellingRuns.mp listed
  rw [mem_reported]
  constructor
  · rintro ⟨_, _, _, _, state⟩
    exact ((overlay_cancelling_iff stored).mp state).1
  · intro running
    refine ⟨row, stored, rfl, ?_, ?_⟩
    · rwa [s.located r member row stored own]
    · exact (overlay_cancelling_iff stored).mpr ⟨running, r, member, own.symm, cancelling⟩

section Found

variable {found : List ScanRecord}
  (all : (s.cancellingRuns loc).map (fun r => s.scan r.scanID) = found.map some)

include all

theorem mem_found_iff {sc : ScanRecord} :
    sc ∈ found ↔ ∃ r ∈ s.cancellingRuns loc, s.scan r.scanID = some sc := by
  have same : some sc ∈ found.map some ↔ sc ∈ found := List.mem_map_of_injective (Option.some_injective _)
  rw [← same, ← all, List.mem_map]

theorem found_nodup : found.Nodup := by
  have ids : (found.map some).map (Option.map ScanRecord.id) =
      ((s.cancellingRuns loc).map LiveRun.scanID).map some := by
    rw [← all, List.map_map, List.map_map]
    refine List.map_congr_left fun r member => ?_
    have listed : s.scan r.scanID ∈ found.map some := by
      rw [← all]
      exact List.mem_map_of_mem member
    obtain ⟨sc, _, same⟩ := List.mem_map.mp listed
    rw [Function.comp_apply, ← same]
    exact congrArg some (id_of_scan same.symm)
  have distinct : (((s.cancellingRuns loc).map LiveRun.scanID).map some).Nodup := by
    have runs : UniqueOn LiveRun.scanID (s.cancellingRuns loc) := s.distinct.filter _
    exact List.Nodup.map (Option.some_injective _) runs
  rw [← ids] at distinct
  exact (distinct.of_map _).of_map _

theorem countP_found (p : Int → Bool) : (found.countP fun sc => p sc.startTime) =
    (s.cancellingRuns loc).countP fun r =>
      (lookup ScanRow.id r.scanID s.db.storage.scans).any fun row => p row.startTime := by
  have lifted : (found.map some).countP (fun sc => sc.any fun sc => p sc.startTime) =
      found.countP fun sc => p sc.startTime := by
    rw [List.countP_map]
    rfl
  rw [← lifted, ← all, List.countP_map]
  apply List.countP_congr
  intro r _
  simp only [Function.comp_apply, scan, Option.any_map]
  have same : ∀ row, p (s.overlay (scanScan row)).startTime = p row.startTime :=
    fun row => congrArg p (overlay_startTime s _)
  simp only [same]

theorem mem_found_of_reported {sc : ScanRecord} (reported : sc ∈ s.reported loc .cancelling) :
    sc ∈ found := by
  obtain ⟨row, stored, rfl, here, state⟩ := mem_reported.mp reported
  obtain ⟨_, r, member, own, cancelling⟩ := (overlay_cancelling_iff stored).mp state
  rw [mem_found_iff all]
  refine ⟨r, mem_cancellingRuns.mpr ⟨member, cancelling, ?_⟩, ?_⟩
  · rwa [← s.located r member row stored own.symm]
  · exact scan_eq_some_iff.mpr ⟨row, stored, own.symm, rfl⟩

end Found

/-- What a call that finds all records answers with. -/
theorem cancellingScans_of_found {found : List ScanRecord}
    (all : (s.cancellingRuns loc).map (fun r => s.scan r.scanID) = found.map some) :
    s.cancellingScans sorts loc limit = .ok (if 0 < limit then
      (sorts.sort found).take limit.toNat else sorts.sort found, .empty) := by
  unfold cancellingScans
  rw [mapM_eq_some_iff.mpr all]
  simp only
  by_cases positive : 0 < limit
  · by_cases longer : limit < (sorts.sort found).length
    · rw [if_pos ⟨positive, longer⟩, if_pos positive]
    · have fits : (sorts.sort found).length ≤ limit.toNat := by omega
      rw [if_neg fun both => longer both.2, if_pos positive, List.take_of_length_le fits]
  · rw [if_neg fun both => positive both.1, if_neg positive]

/-- The first page of the cancelling scans is the last. -/
theorem listAll_cancelling {calls : Nat} {got : List ScanRecord} :
    s.listAll sorts loc (some .cancelling) limit (calls + 1) .empty = some (.ok got) ↔
      s.cancellingScans sorts loc limit = .ok (got, .empty) := by
  have read : s.scans sorts loc (some .cancelling) .empty limit =
      s.cancellingScans sorts loc limit := if_pos rfl
  unfold listAll
  rw [read]
  unfold cancellingScans
  cases (s.cancellingRuns loc).mapM fun r => s.scan r.scanID with
  | none => simp
  | some found => simp

/-- Every sort has the reported scans within the limit, and no others. -/
theorem forall_perm_reported_iff {found : List ScanRecord}
    (all : (s.cancellingRuns loc).map (fun r => s.scan r.scanID) = found.map some) :
    (∀ sorts : NewestFirst, (if 0 < limit then (sorts.sort found).take limit.toNat
      else sorts.sort found).Perm (s.reported loc .cancelling)) ↔
      ∀ r ∈ s.cancellingRuns loc, ∀ row ∈ s.db.storage.scans, row.id = r.scanID →
        s.RoomFor loc limit row := by
  have nodup := found_nodup all
  have start : ∀ row, (s.overlay (scanScan row)).startTime = row.startTime :=
    fun row => overlay_startTime s _
  have since : ∀ row : ScanRow, (found.countP fun sc =>
      (s.overlay (scanScan row)).startTime ≤ sc.startTime) = s.startedSince loc row.startTime := by
    intro row
    rw [start]
    exact countP_found all fun t => row.startTime ≤ t
  have after : ∀ row : ScanRow, (found.countP fun sc =>
      (s.overlay (scanScan row)).startTime < sc.startTime) = s.startedAfter loc row.startTime := by
    intro row
    rw [start]
    exact countP_found all fun t => row.startTime < t
  constructor
  · intro perm r listed row stored own
    have member : s.overlay (scanScan row) ∈ found :=
      (mem_found_iff all).mpr ⟨r, listed, scan_eq_some_iff.mpr ⟨row, stored, own, rfl⟩⟩
    have reported := found_reported_iff listed stored own
    unfold RoomFor
    split_ifs with running
    · by_cases positive : 0 < limit
      · have always : ∀ sorts : NewestFirst,
            s.overlay (scanScan row) ∈ (sorts.sort found).take limit.toNat := by
          intro sorts
          have same := perm sorts
          rw [if_pos positive] at same
          exact same.mem_iff.mpr (reported.mpr running)
        have room := (UnstableSort.forall_mem_take_iff nodup member).mp always
        rw [since] at room
        omega
      · omega
    · have never : ∀ sorts : NewestFirst, s.overlay (scanScan row) ∉ if 0 < limit then
          (sorts.sort found).take limit.toNat else sorts.sort found :=
        fun sorts cut => running (reported.mp ((perm sorts).mem_iff.mp cut))
      by_cases positive : 0 < limit
      · simp only [if_pos positive] at never
        have full := (UnstableSort.forall_not_mem_take_iff nodup member).mp never
        rw [after] at full
        omega
      · have sorts : NewestFirst := .byTie _ fun _ => 0
        have left := never sorts
        rw [if_neg positive] at left
        exact absurd ((sorts.perm found).mem_iff.mpr member) left
  · intro room sorts
    have cutNodup : (if 0 < limit then (sorts.sort found).take limit.toNat
        else sorts.sort found).Nodup := by
      have sorted := (sorts.perm found).nodup_iff.mpr nodup
      split_ifs
      · exact sorted.sublist (List.take_sublist _ _)
      · exact sorted
    rw [List.perm_ext_iff_of_nodup cutNodup (reported_nodup s loc _)]
    intro sc
    constructor
    · intro cut
      have listed : sc ∈ found := by
        split_ifs at cut
        · exact (sorts.perm found).mem_iff.mp (List.mem_of_mem_take cut)
        · exact (sorts.perm found).mem_iff.mp cut
      obtain ⟨r, member, scanned⟩ := (mem_found_iff all).mp listed
      obtain ⟨row, stored, own, rfl⟩ := scan_eq_some_iff.mp scanned
      have within := room r member row stored own
      unfold RoomFor at within
      split_ifs at within with running
      · exact (found_reported_iff member stored own).mpr running
      · rw [if_pos within.1] at cut
        refine absurd cut (sorts.not_mem_take_sort ?_)
        rw [after]
        omega
    · intro reported
      have listed := mem_found_of_reported all reported
      obtain ⟨r, member, scanned⟩ := (mem_found_iff all).mp listed
      obtain ⟨row, stored, own, rfl⟩ := scan_eq_some_iff.mp scanned
      have within := room r member row stored own
      rw [RoomFor, if_pos ((found_reported_iff member stored own).mp reported)] at within
      split_ifs
      · apply sorts.mem_take_sort listed
        rw [since]
        omega
      · exact (sorts.perm found).mem_iff.mpr listed

/-- Either some cancelling run has no record, or all records are found. -/
theorem exists_found (s : LiveScans) (loc : UUID) :
    ((s.cancellingRuns loc).mapM (fun r => s.scan r.scanID) = none ∧
      ∃ r ∈ s.cancellingRuns loc, ∀ row ∈ s.db.storage.scans, row.id ≠ r.scanID) ∨
    ∃ found : List ScanRecord,
      (s.cancellingRuns loc).map (fun r => s.scan r.scanID) = found.map some := by
  cases read : (s.cancellingRuns loc).mapM fun r => s.scan r.scanID with
  | none =>
    refine .inl ⟨rfl, ?_⟩
    obtain ⟨r, listed, missing⟩ := exists_of_mapM_eq_none read
    refine ⟨r, listed, fun row stored own => ?_⟩
    have found : s.scan r.scanID = some (s.overlay (scanScan row)) :=
      scan_eq_some_iff.mpr ⟨row, stored, own, rfl⟩
    rw [missing] at found
    cases found
  | some found => exact .inr ⟨found, mapM_eq_some_iff.mp read⟩

theorem listsReported_cancelling_iff :
    s.ListsReported loc .cancelling limit ↔ s.Settled loc limit .cancelling := by
  rcases exists_found s loc with ⟨failed, r, listed, missing⟩ | ⟨found, all⟩
  · refine iff_of_false ?_ ?_
    · intro lists
      obtain ⟨calls, got, read, _⟩ := lists (.byTie _ fun _ => 0)
      cases calls with
      | zero => cases read
      | succ calls =>
        rw [listAll_cancelling, cancellingScans, failed] at read
        cases read
    · intro settled
      obtain ⟨row, stored, own, _⟩ := settled r listed
      exact missing row stored own
  · have answer : ∀ sorts : NewestFirst, s.cancellingScans sorts loc limit = _ :=
      fun sorts => cancellingScans_of_found all
    have lists : s.ListsReported loc .cancelling limit ↔ ∀ sorts : NewestFirst,
        (if 0 < limit then (sorts.sort found).take limit.toNat
          else sorts.sort found).Perm (s.reported loc .cancelling) := by
      refine forall_congr' fun sorts => ?_
      constructor
      · rintro ⟨calls, got, read, perm⟩
        cases calls with
        | zero => cases read
        | succ calls =>
          rw [listAll_cancelling, answer] at read
          obtain ⟨rfl, _⟩ := Prod.mk.inj (Except.ok.inj read)
          exact perm
      · intro perm
        exact ⟨1, _, listAll_cancelling.mpr (answer sorts), perm⟩
    rw [lists, forall_perm_reported_iff all]
    refine forall₂_congr fun r listed => ?_
    constructor
    · intro room
      have recorded : s.scan r.scanID ∈ found.map some := by
        rw [← all]
        exact List.mem_map_of_mem listed
      obtain ⟨sc, _, same⟩ := List.mem_map.mp recorded
      obtain ⟨row, stored, own, _⟩ := scan_eq_some_iff.mp same.symm
      exact ⟨row, stored, own, room row stored own⟩
    · rintro ⟨row, stored, own, room⟩ row' stored' own'
      rwa [s.db.wellFormed.scanIDs.eq_of_key stored' stored (own'.trans own.symm)]

/-- Of a row that is selected, the state is reported unless a run is cancelling. -/
theorem overlay_stored_iff {row : ScanRow} (stored : row ∈ s.db.storage.scans) :
    (s.overlay (scanScan row)).state = row.state ↔
      ¬(row.state = .running ∧ ∃ r ∈ s.byScan, r.scanID = row.id ∧ r.cancelling = true) := by
  rw [← overlay_cancelling_iff stored]
  have checked := s.checked row stored
  constructor
  · intro same cancelling
    exact checked (same.symm.trans cancelling)
  · intro other
    unfold overlay at other ⊢
    split
    · rfl
    · rename_i r found
      simp only [found] at other ⊢
      split_ifs at other ⊢
      · exact absurd rfl other
      · rfl

/-- The listing of a location agrees with the reported states exactly if it is settled. -/
theorem listsReported_iff (s : LiveScans) (loc : UUID) (state : State) (limit : Int) :
    s.ListsReported loc state limit ↔ s.Settled loc limit state := by
  by_cases stored : state = .cancelling
  · subst stored
    exact listsReported_cancelling_iff
  rw [listsReported_stored_iff stored]
  have selected : (∀ row ∈ s.selected loc state, (s.overlay (scanScan row)).state = state) ↔
      ∀ row ∈ s.db.storage.scans, inLocation loc row.locationID = true → row.state = state →
        ¬(row.state = .running ∧ ∃ r ∈ s.byScan, r.scanID = row.id ∧ r.cancelling = true) := by
    unfold LiveScans.selected
    simp only [List.mem_filter, Bool.and_eq_true, decide_eq_true_eq, and_imp]
    refine forall₄_congr fun row member here same => ?_
    rw [← overlay_stored_iff member, same]
  rw [selected]
  cases state with
  | cancelling => exact absurd rfl stored
  | running =>
    refine forall₄_congr fun row _ _ running => ?_
    simp [running]
  | done => exact iff_of_true (fun row _ _ state both => by simp [state] at both) trivial
  | failed => exact iff_of_true (fun row _ _ state both => by simp [state] at both) trivial
  | aborted => exact iff_of_true (fun row _ _ state both => by simp [state] at both) trivial

/-- One scan, which is being cancelled. -/
def unwinding : LiveScans where
  db := Database.afterWrites [.insertLocation 1 "file:///music", .beginScan 0 3 1] (by decide)
  byScan := [⟨3, 1, ⟨0, 0, 0, 0⟩, true⟩]
  checked := by decide
  timed := by decide
  distinct := by decide
  located := by decide

/-- It is listed as running, and reported as cancelling. -/
theorem unwinding_listed_running : ¬ unwinding.ListsReported .nil .running 50 := by
  have stored : State.running ≠ .cancelling := nofun
  rw [listsReported_stored_iff stored]
  decide

end Byom.Scan.LiveScans
