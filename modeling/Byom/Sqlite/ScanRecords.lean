import Byom.Sqlite.ScanSchema

/-!
# The records of scans

`recordAt` is the row of a scan. A row starts as running, and only a running row
is ever written again.
-/

namespace Byom.Sqlite.ScanTables

open Storage Relational

def recordAt (id : UUID) (t : ScanTables) : Option ScanRow := lookup ScanRow.id id t.scans

/-- The state that `FinishScan` writes for the error it is given. -/
def outcome : Option Scan.ScanError → Scan.State
  | none => .done
  | some .canceled => .aborted
  | some (.other _) => .failed

variable {t t' : ScanTables} {id scanID loc : UUID} {now gen : Int} {row : ScanRow}

theorem recordAt_of_eq (scans : t'.scans = t.scans) (id : UUID) :
    t'.recordAt id = t.recordAt id := by
  unfold recordAt
  rw [scans]

theorem recordAt_updateWhere {p : ScanRow → Bool} {set : ScanRow → ScanRow}
    (scans : t'.scans = updateWhere p set t.scans) (keys : ∀ s, (set s).id = s.id) (id : UUID) :
    t'.recordAt id = (t.recordAt id).map fun s => if p s then set s else s := by
  unfold recordAt
  rw [scans, lookup_updateWhere keys]

theorem id_of_recordAt (h : t.recordAt id = some row) : row.id = id := key_of_lookup h

theorem insertLocation_scans {uri : String} (h : insertLocation id uri t = .ok t') :
    t'.scans = t.scans := by
  unfold insertLocation at h
  split at h
  · cases h
  · cases h
    rfl

theorem syncDir_scans {newDirID d : UUID} {newFileID : Path → UUID} {p : Scan.SyncPayload}
    (h : syncDir newDirID newFileID p t = .ok (t', d)) : t'.scans = t.scans := by
  obtain ⟨u, first, second⟩ := syncDir_spec h
  obtain ⟨rfl, _⟩ := upsertDir_spec first
  exact (upsertFiles_frame second).2.2

/-- The row that `BeginScan` inserts. -/
def startedRow (scanID loc : UUID) (gen now : Int) : ScanRow :=
  ⟨scanID, loc, gen, .running, now, none, none, ⟨0, 0, 0, 0⟩⟩

theorem beginScan_scans (h : beginScan now scanID loc t = .ok (t', gen)) :
    t.recordAt scanID = none ∧
      t'.scans = updateWhere (fun s => s.locationID = loc ∧ s.state = .running)
        (fun s => { s with state := .aborted, finishTime := some now }) t.scans ++
          [startedRow scanID loc gen now] := by
  unfold beginScan at h
  cases found : lookup LocationRow.id loc t.locations with
  | none => simp [found] at h
  | some location =>
    simp only [found] at h
    split at h
    · cases h
    · rename_i fresh
      injection h with h
      injection h with tables generation
      subst tables generation
      refine ⟨lookup_eq_none_iff.mpr ?_, rfl⟩
      intro s hs same
      exact fresh (List.any_eq_true.mpr ⟨s, hs, by simpa using same⟩)

/-- The row of a new scan was not there before, and the running rows of its location
are aborted. -/
theorem beginScan_records (h : beginScan now scanID loc t = .ok (t', gen)) :
    t.recordAt scanID = none ∧ t'.recordAt scanID = some (startedRow scanID loc gen now) ∧
      ∀ id, id ≠ scanID → t'.recordAt id = (t.recordAt id).map fun s =>
        if s.locationID = loc ∧ s.state = .running then
          { s with state := .aborted, finishTime := some now } else s := by
  obtain ⟨absent, scans⟩ := beginScan_scans h
  have keys : ∀ s : ScanRow,
      ({ s with state := .aborted, finishTime := some now } : ScanRow).id = s.id := fun _ => rfl
  refine ⟨absent, ?_, ?_⟩
  · have new : lookup ScanRow.id (startedRow scanID loc gen now).id
        (updateWhere (fun s => s.locationID = loc ∧ s.state = .running)
          (fun s => { s with state := .aborted, finishTime := some now }) t.scans) = none := by
      rw [lookup_updateWhere keys]
      exact congrArg (Option.map _) absent
    unfold recordAt
    rw [scans]
    exact lookup_append_self new
  · intro id apart
    have other : (startedRow scanID loc gen now).id ≠ id := Ne.symm apart
    unfold recordAt
    rw [scans, lookup_append_ne other, lookup_updateWhere keys]
    simp

/-- What a new scan leaves of the row of another one. -/
theorem beginScan_keeps (h : beginScan now scanID loc t = .ok (t', gen))
    (found : t.recordAt id = some row) (closed : row.locationID = loc → row.state ≠ .running) :
    t'.recordAt id = some row := by
  obtain ⟨absent, _, others⟩ := beginScan_records h
  have apart : id ≠ scanID := by
    rintro rfl
    rw [absent] at found
    cases found
  rw [others id apart, found, Option.map_some, if_neg]
  exact fun both => closed both.1 both.2

/-- A row that is done after a statement that makes no row done was done before. -/
theorem done_of_map {set : ScanRow → ScanRow} (rows : t'.recordAt id = (t.recordAt id).map set)
    (same : ∀ s, (set s).state = .done → s.state = .done)
    (done : (t'.recordAt id).map ScanRow.state = some .done) :
    (t.recordAt id).map ScanRow.state = some .done := by
  rw [rows, Option.map_map] at done
  obtain ⟨row, found, state⟩ := Option.map_eq_some_iff.mp done
  rw [found, Option.map_some, same row state]

/-- `BeginScan` only aborts, so a scan that is done was done before. -/
theorem beginScan_done (h : beginScan now scanID loc t = .ok (t', gen))
    (done : (t'.recordAt id).map ScanRow.state = some .done) :
    (t.recordAt id).map ScanRow.state = some .done := by
  obtain ⟨_, opened, others⟩ := beginScan_records h
  by_cases own : id = scanID
  · subst own
    rw [opened] at done
    cases done
  · refine done_of_map (others id own) ?_ done
    intro s state
    split at state
    · cases state
    · exact state

variable {progress : Scan.Progress} {scanErr : Option Scan.ScanError}

/-- The row that `FinishScan` writes over a running one. -/
def finished (now : Int) (progress : Scan.Progress) (scanErr : Option Scan.ScanError)
    (s : ScanRow) : ScanRow :=
  { s with
    state := outcome scanErr
    finishTime := some now
    error := match scanErr with
      | some (.other text) => some text
      | _ => none
    progress := progress }

theorem finishScan_recordAt (id : UUID) : (finishScan now scanID progress scanErr t).recordAt id =
    (t.recordAt id).map fun s =>
      if s.id = scanID ∧ s.state = .running then finished now progress scanErr s else s := by
  have scans : (finishScan now scanID progress scanErr t).scans =
      updateWhere (fun s => s.id = scanID ∧ s.state = .running)
        (finished now progress scanErr) t.scans := by
    rcases scanErr with _ | ⟨_ | text⟩ <;> rfl
  rw [recordAt_updateWhere scans (fun _ => rfl)]
  simp

theorem finishScan_stateAt (found : t.recordAt scanID = some row) (running : row.state = .running) :
    ((finishScan now scanID progress scanErr t).recordAt scanID).map ScanRow.state =
      some (outcome scanErr) := by
  rw [finishScan_recordAt, found]
  simp [id_of_recordAt found, running, finished]

theorem finishScan_keeps (found : t.recordAt id = some row)
    (other : id ≠ scanID ∨ row.state ≠ .running) :
    (finishScan now scanID progress scanErr t).recordAt id = some row := by
  rw [finishScan_recordAt, found, Option.map_some, if_neg]
  rintro ⟨same, running⟩
  rcases other with apart | closed
  · exact apart ((id_of_recordAt found).symm.trans same)
  · exact closed running

theorem finishScan_recordAt_ne (apart : id ≠ scanID) :
    (finishScan now scanID progress scanErr t).recordAt id = t.recordAt id := by
  cases found : t.recordAt id with
  | none => rw [finishScan_recordAt, found, Option.map_none]
  | some row => exact finishScan_keeps found (.inl apart)

theorem abortRunningScans_recordAt (id : UUID) : (abortRunningScans now t).recordAt id =
    (t.recordAt id).map fun s =>
      if s.state = .running ∨ s.state = .cancelling then
        { s with state := .aborted, finishTime := some now } else s := by
  have scans : (abortRunningScans now t).scans =
      updateWhere (fun s => s.state = .running ∨ s.state = .cancelling)
        (fun s => { s with state := .aborted, finishTime := some now }) t.scans := rfl
  rw [recordAt_updateWhere scans (fun _ => rfl)]
  simp

theorem abortRunningScans_done
    (done : ((abortRunningScans now t).recordAt id).map ScanRow.state = some .done) :
    (t.recordAt id).map ScanRow.state = some .done := by
  refine done_of_map (abortRunningScans_recordAt id) ?_ done
  intro s state
  split at state
  · cases state
  · exact state

theorem abortRunningScans_keeps (found : t.recordAt id = some row)
    (closed : row.state ≠ .running ∧ row.state ≠ .cancelling) :
    (abortRunningScans now t).recordAt id = some row := by
  rw [abortRunningScans_recordAt, found]
  simp [closed]

end Byom.Sqlite.ScanTables
