import Byom.Paging.Newest
import Byom.Sqlite.Listings

/-!
# Listing scans by state

`Scanner.Scans` selects by the state that is stored, or by the runs in memory, and reports
what `overlay` makes of the record. A cancellation is in memory only.
-/

namespace Byom.Scan.State

theorem ofText_text (state : Option State) : ofText (text state) = some state := by
  rcases state with _ | state
  · decide
  · cases state <;> decide

end Byom.Scan.State

namespace Byom.Sqlite

open Encoding

theorem ScanCursor.decode_json {c : ScanCursor}
    (timed : -2 ^ 63 ≤ c.startTime ∧ c.startTime < 2 ^ 63) :
    Field.decode ScanCursor.fields c.json {} = some c := by
  have state : (fun json : Json => json.text.bind Scan.State.ofText)
      (.string (Scan.State.text c.state)) = some c.state := Scan.State.ofText_text c.state
  have given : Json.string (Scan.State.text c.state) ≠ .null := nofun
  have start : Json.int64 (.number c.startTime) = some c.startTime := if_pos timed
  unfold ScanCursor.json
  rw [Field.decode_object, Field.decodeMembers_value rfl (jsonUUID_uuidJson _) nofun,
    Field.decodeMembers_value rfl state given, Field.decodeMembers_value rfl start nofun,
    Field.decodeMembers_value rfl (jsonUUID_uuidJson _) nofun]
  rfl

end Byom.Sqlite

namespace Byom.Scan

open Storage Relational Sqlite Paging Page Encoding

/-- What the listings read of a `run`. -/
structure LiveRun where
  scanID : UUID
  locationID : UUID
  progress : Progress
  cancelling : Bool
  deriving DecidableEq, Repr

/-- The database beside `byScan`. The table has a `CHECK` on the state, and start times that
Unix nanoseconds hold; a run is of the location of its scan. -/
structure LiveScans where
  db : Database
  byScan : List LiveRun
  checked : ∀ row ∈ db.storage.scans, row.state ≠ .cancelling
  timed : ∀ row ∈ db.storage.scans, -2 ^ 63 ≤ row.startTime ∧ row.startTime < 2 ^ 63
  distinct : UniqueOn LiveRun.scanID byScan
  located : ∀ r ∈ byScan, ∀ row ∈ db.storage.scans, row.id = r.scanID →
    row.locationID = r.locationID

inductive ListError where
  | page (err : Page.Error)
  | notFound
  deriving DecidableEq, Repr

/-- `slices.SortFunc` by the start time. -/
abbrev NewestFirst := UnstableSort ScanRecord.startTime

namespace LiveScans

def overlay (s : LiveScans) (sc : ScanRecord) : ScanRecord :=
  match lookup LiveRun.scanID sc.id s.byScan with
  | none => sc
  | some r =>
    { sc with
      progress := r.progress
      state := if sc.state = .running ∧ r.cancelling then .cancelling else sc.state }

/-- `Scanner.Scan`, with none for `ErrNotFound`. -/
def scan (s : LiveScans) (id : UUID) : Option ScanRecord :=
  (lookup ScanRow.id id s.db.storage.scans).map fun row => s.overlay (scanScan row)

/-- The filter of a listing; a nil ID is no filter. -/
def inLocation (loc id : UUID) : Bool := loc = .nil || id = loc

def cancellingRuns (s : LiveScans) (loc : UUID) : List LiveRun :=
  s.byScan.filter fun r => r.cancelling && inLocation loc r.locationID

def cancellingScans (sorts : NewestFirst) (s : LiveScans) (loc : UUID) (limit : Int) :
    Except ListError (List ScanRecord × Token) :=
  match (s.cancellingRuns loc).mapM fun r => s.scan r.scanID with
  | none => .error .notFound
  | some found =>
    let found := sorts.sort found
    .ok (if 0 < limit ∧ limit < found.length then found.take limit.toNat else found, .empty)

/-- `Scanner.Scans`. -/
def scans (sorts : NewestFirst) (s : LiveScans) (loc : UUID) (state : Option State)
    (token : Token) (limit : Int) : Except ListError (List ScanRecord × Token) :=
  if state = some .cancelling then s.cancellingScans sorts loc limit
  else
    match s.db.scans loc state token limit with
    | .error err => .error (.page err)
    | .ok (got, next) => .ok (got.map s.overlay, next)

/-- The pages from a token on, if they end within some calls. -/
def listAll (sorts : NewestFirst) (s : LiveScans) (loc : UUID) (state : Option State)
    (limit : Int) : Nat → Token → Option (Except ListError (List ScanRecord))
  | 0, _ => none
  | calls + 1, token =>
    match s.scans sorts loc state token limit with
    | .error err => some (.error err)
    | .ok (got, .empty) => some (.ok got)
    | .ok (got, next) =>
      (s.listAll sorts loc state limit calls next).map fun rest => rest.map (got ++ ·)

/-- The scans of a location that `Scanner.Scan` reports in a state. -/
def reported (s : LiveScans) (loc : UUID) (state : State) : List ScanRecord :=
  ((s.db.storage.scans.map scanScan).map s.overlay).filter fun sc =>
    inLocation loc sc.locationID && sc.state = state

/-- The pages end, and have these scans once each and no others. -/
def ListsReported (s : LiveScans) (loc : UUID) (state : State) (limit : Int) : Prop :=
  ∀ sorts : NewestFirst, ∃ calls got,
    s.listAll sorts loc (some state) limit calls .empty = some (.ok got) ∧
      got.Perm (s.reported loc state)

/-- The cancelling runs of a location whose scans started at a time or later. -/
def startedSince (s : LiveScans) (loc : UUID) (start : Int) : Nat :=
  (s.cancellingRuns loc).countP fun r =>
    (lookup ScanRow.id r.scanID s.db.storage.scans).any fun row => start ≤ row.startTime

def startedAfter (s : LiveScans) (loc : UUID) (start : Int) : Nat :=
  (s.cancellingRuns loc).countP fun r =>
    (lookup ScanRow.id r.scanID s.db.storage.scans).any fun row => start < row.startTime

/-- A cancelling run has to be within the limit, wherever ties fall, if its scan is recorded as
running, and beyond it otherwise. -/
def RoomFor (s : LiveScans) (loc : UUID) (limit : Int) (row : ScanRow) : Prop :=
  if row.state = .running then limit ≤ 0 ∨ s.startedSince loc row.startTime ≤ limit
  else 0 < limit ∧ limit ≤ s.startedAfter loc row.startTime

/-- What the listing of a state relies on. -/
def Settled (s : LiveScans) (loc : UUID) (limit : Int) : State → Prop
  | .running => ∀ row ∈ s.db.storage.scans, inLocation loc row.locationID = true →
    row.state = .running → ∀ r ∈ s.byScan, r.scanID = row.id → r.cancelling = false
  | .cancelling => ∀ r ∈ s.cancellingRuns loc, ∃ row ∈ s.db.storage.scans, row.id = r.scanID ∧
    s.RoomFor loc limit row
  | _ => True

variable {s : LiveScans} {loc : UUID} {state : State} {limit : Int} {sorts : NewestFirst}

/-! ### By the stored state -/

/-- The rows that `ScanStore.Scans` selects. -/
def selected (s : LiveScans) (loc : UUID) (state : State) : List ScanRow :=
  s.db.storage.scans.filter fun row => inLocation loc row.locationID && row.state = state

def records (s : LiveScans) (loc : UUID) (state : State) : List ScanRecord :=
  (s.selected loc state).map scanScan

/-- `start_time DESC, id`. -/
def listKey (sc : ScanRecord) : Intᵒᵈ ×ₗ Nat :=
  toLex (OrderDual.toDual sc.startTime, sc.id.toNat)

def cursorOf (loc : UUID) (state : State) (sc : ScanRecord) : ScanCursor :=
  ⟨loc, some state, sc.startTime, sc.id⟩

theorem listKey_inj {a b : ScanRecord} (same : listKey a = listKey b) :
    a.startTime = b.startTime ∧ a.id = b.id := by
  obtain ⟨start, id⟩ := Prod.mk.inj (toLex.injective same)
  exact ⟨OrderDual.toDual_inj.mp start, BitVec.eq_of_toNat_eq id⟩

theorem records_distinct (s : LiveScans) (loc : UUID) (state : State) :
    ((s.records loc state).map listKey).Nodup := by
  rw [records, List.map_map]
  have ids : UniqueOn ScanRow.id (s.selected loc state) := s.db.wellFormed.scanIDs.filter _
  rw [List.nodup_map_iff_inj_on (ids.of_map _)]
  intro a ha b hb same
  exact List.inj_on_of_nodup_map ids ha hb (listKey_inj same).2

/-- The token leads on from the cursor. -/
def Leads (loc : UUID) (state : State) : Option (Intᵒᵈ ×ₗ Nat) → Token → Prop
  | none, token => token = .empty
  | some k, token => ∃ sc, listKey sc = k ∧ (-2 ^ 63 ≤ sc.startTime ∧ sc.startTime < 2 ^ 63) ∧
      token = Page.encode ScanCursor.json (cursorOf loc state sc)

theorem db_scans_of_leads {cursor : Option (Intᵒᵈ ×ₗ Nat)} {token : Token}
    (leads : Leads loc state cursor token) (s : LiveScans) (limit : Int) :
    s.db.scans loc (some state) token limit =
      .ok (Page.read (· < ·) listKey cursor
        (fun sc => Page.encode ScanCursor.json (cursorOf loc state sc)) limit
        (s.records loc state)) := by
  cases cursor with
  | none =>
    cases leads
    rfl
  | some k =>
    obtain ⟨sc, rfl, timed, rfl⟩ := leads
    have decoded : Field.decode ScanCursor.fields (cursorOf loc state sc).json {} =
        some (cursorOf loc state sc) := ScanCursor.decode_json timed
    have accepted : (cursorOf loc state sc).locationID = loc ∧
        (cursorOf loc state sc).state = some state := ⟨rfl, rfl⟩
    unfold Database.scans
    rw [Page.encode, Page.resume_document decoded]
    simp only [accepted, and_self, decide_true, if_true]
    rfl

theorem timed_of_records {sc : ScanRecord} (member : sc ∈ s.records loc state) :
    -2 ^ 63 ≤ sc.startTime ∧ sc.startTime < 2 ^ 63 := by
  obtain ⟨row, selected, rfl⟩ := List.mem_map.mp member
  exact s.timed row (List.mem_of_mem_filter selected)

/-- One call reads the page after the cursor. -/
theorem scans_of_leads (stored : state ≠ .cancelling) {cursor : Option (Intᵒᵈ ×ₗ Nat)}
    {token : Token} (leads : Leads loc state cursor token) :
    ∃ next, s.scans sorts loc (some state) token limit =
        .ok ((page (· < ·) listKey cursor (size limit) (s.records loc state)).1.map s.overlay, next) ∧
      match (page (· < ·) listKey cursor (size limit) (s.records loc state)).2 with
      | none => next = .empty
      | some k => next ≠ .empty ∧ Leads loc state (some k) next := by
  obtain ⟨next, read, ends⟩ := Page.read_eq_page (· < ·) listKey cursor
    (fun sc => Page.encode ScanCursor.json (cursorOf loc state sc)) limit (s.records loc state)
  refine ⟨next, ?_, ?_⟩
  · have other : some state ≠ some State.cancelling := fun same => stored (Option.some.inj same)
    rw [scans, if_neg other, db_scans_of_leads leads, read]
  · cases paged : page (· < ·) listKey cursor (size limit) (s.records loc state) with
    | mk got more =>
      rw [paged] at ends
      cases more with
      | none => exact ends
      | some k =>
        obtain ⟨sc, same, rfl⟩ := ends
        obtain ⟨_, _, x, member, key, _⟩ := page_more paged
        have listed := (page_sublist paged).mem member
        obtain ⟨start, _⟩ := listKey_inj (same.trans key.symm)
        have timed := timed_of_records (mem_rowsAfter.mp listed).1
        rw [← start] at timed
        exact ⟨nofun, sc, same, timed, rfl⟩

theorem listAll_more {filter : Option State} {token next : Token} {got : List ScanRecord}
    (read : s.scans sorts loc filter token limit = .ok (got, next)) (onward : next ≠ .empty)
    (calls : Nat) : s.listAll sorts loc filter limit (calls + 1) token =
      (s.listAll sorts loc filter limit calls next).map fun rest => rest.map (got ++ ·) := by
  rw [listAll, read]
  cases next with
  | empty => exact absurd rfl onward
  | document json => rfl
  | malformed => rfl

/-- Following tokens is following keys. -/
theorem listAll_follow (stored : state ≠ .cancelling) {cursor : Option (Intᵒᵈ ×ₗ Nat)}
    {token : Token} (leads : Leads loc state cursor token) (calls : Nat) :
    s.listAll sorts loc (some state) limit calls token =
      match follow (· < ·) listKey cursor
        (List.replicate calls (s.records loc state, size limit)) with
      | (pages, true) => some (.ok (pages.flatten.map s.overlay))
      | (_, false) => none := by
  induction calls generalizing cursor token with
  | zero => rfl
  | succ calls ih =>
    obtain ⟨next, read, ends⟩ : ∃ next, s.scans sorts loc (some state) token limit = _ ∧ _ :=
      scans_of_leads stored leads
    rw [List.replicate_succ, follow]
    cases paged : page (· < ·) listKey cursor (size limit) (s.records loc state) with
    | mk got more =>
      rw [paged] at ends read
      cases more with
      | none =>
        obtain rfl : next = .empty := ends
        simp [listAll, read]
      | some k =>
        rw [listAll_more read ends.1, ih ends.2]
        simp only
        cases follow (· < ·) listKey (some k)
          (List.replicate calls (s.records loc state, size limit)) with
        | mk pages ended =>
          cases ended with
          | false => rfl
          | true => simp [Except.map]

theorem overlay_id (s : LiveScans) (sc : ScanRecord) : (s.overlay sc).id = sc.id := by
  unfold overlay
  split <;> rfl

theorem overlay_locationID (s : LiveScans) (sc : ScanRecord) :
    (s.overlay sc).locationID = sc.locationID := by
  unfold overlay
  split <;> rfl

theorem overlay_startTime (s : LiveScans) (sc : ScanRecord) :
    (s.overlay sc).startTime = sc.startTime := by
  unfold overlay
  split <;> rfl

/-- The state changes from running to cancelling only. -/
theorem state_of_overlay {sc : ScanRecord} (stored : state ≠ .cancelling)
    (same : (s.overlay sc).state = state) : sc.state = state := by
  unfold overlay at same
  split at same
  · exact same
  · simp only at same
    split at same
    · exact absurd same.symm stored
    · exact same

/-- The pages of a stored state end, and have what is selected. -/
theorem listAll_stored (stored : state ≠ .cancelling) {calls : Nat} {got : List ScanRecord}
    (all : s.listAll sorts loc (some state) limit calls .empty = some (.ok got)) :
    got = (ordered (· < ·) listKey (s.records loc state)).map s.overlay := by
  have start : Leads loc state none .empty := rfl
  rw [listAll_follow stored start] at all
  cases followed : follow (· < ·) listKey none
    (List.replicate calls (s.records loc state, size limit)) with
  | mk pages ended =>
    rw [followed] at all
    cases ended with
    | false => cases all
    | true =>
      have whole : pages.flatten = rowsAfter (· < ·) listKey none (s.records loc state) := by
        refine follow_constant (records_distinct s loc state) ?_ ?_ followed
        · exact fun input member => by rw [List.eq_of_mem_replicate member]
        · exact fun input member => List.eq_of_mem_replicate member ▸ size_pos limit
      rw [rowsAfter_none] at whole
      obtain rfl := Except.ok.inj (Option.some.inj all)
      rw [whole]

theorem listAll_ends (stored : state ≠ .cancelling) : ∃ calls got,
    s.listAll sorts loc (some state) limit calls .empty = some (.ok got) := by
  have start : Leads loc state none .empty := rfl
  refine ⟨(s.records loc state).length + 1, ?_⟩
  have ended : (follow (· < ·) listKey none
      (List.replicate ((s.records loc state).length + 1) (s.records loc state, size limit))).2 =
        true := by
    apply follow_ends (records_distinct s loc state)
    · exact fun input member => by rw [List.eq_of_mem_replicate member]
    · exact fun input member => List.eq_of_mem_replicate member ▸ size_pos limit
    · rw [List.length_replicate, rowsAfter_none, (ordered_perm _).length_eq]
      exact Nat.lt_succ_self _
  rw [listAll_follow stored start]
  cases followed : follow (· < ·) listKey none
    (List.replicate ((s.records loc state).length + 1) (s.records loc state, size limit)) with
  | mk pages last =>
    rw [followed] at ended
    obtain rfl : last = true := ended
    exact ⟨_, rfl⟩

/-- With a stored state, a selected scan is missing from no page, and none is reported in
another state. -/
theorem listsReported_stored_iff (stored : state ≠ .cancelling) :
    s.ListsReported loc state limit ↔
      ∀ row ∈ s.selected loc state, (s.overlay (scanScan row)).state = state := by
  have within : s.reported loc state = ((s.selected loc state).filter fun row =>
      (s.overlay (scanScan row)).state = state).map fun row => s.overlay (scanScan row) := by
    unfold reported selected
    rw [List.map_map, List.filter_map, List.filter_filter]
    refine congrArg _ (List.filter_congr ?_)
    intro row _
    have location : (s.overlay (scanScan row)).locationID = row.locationID :=
      overlay_locationID s _
    by_cases same : (s.overlay (scanScan row)).state = state
    · have own : row.state = state := state_of_overlay stored same
      simp [location, same, own]
    · simp [same]
  have perm : ((ordered (· < ·) listKey (s.records loc state)).map s.overlay).Perm
      ((s.selected loc state).map fun row => s.overlay (scanScan row)) := by
    have unsorted : ((ordered (· < ·) listKey (s.records loc state)).map s.overlay).Perm
        ((s.records loc state).map s.overlay) := (ordered_perm _).map _
    rwa [records, List.map_map] at unsorted
  constructor
  · intro lists
    obtain ⟨calls, got, all, same⟩ := lists (UnstableSort.byTie _ fun _ => 0)
    rw [listAll_stored stored all] at same
    have length := (perm.symm.trans same).length_eq
    rw [within, List.length_map, List.length_map] at length
    have every := List.length_filter_eq_length_iff.mp length.symm
    exact fun row member => of_decide_eq_true (every row member)
  · intro every sorts
    obtain ⟨calls, got, all⟩ :
        ∃ calls got, s.listAll sorts loc (some state) limit calls .empty = some (.ok got) :=
      listAll_ends stored
    refine ⟨calls, got, all, ?_⟩
    have kept : ((s.selected loc state).filter fun row =>
        (s.overlay (scanScan row)).state = state) = s.selected loc state :=
      List.filter_eq_self.mpr fun row member => decide_eq_true (every row member)
    rw [listAll_stored stored all, within, kept]
    exact perm

end LiveScans

end Byom.Scan
