import Byom.Sqlite.ScanRecords
import Byom.Transition.Run

/-!
# The life of a scan row

Three methods write the `scans` table, each with a guard of its own. `Lifecycle` is
what every order of their calls leaves true of it. The rows are listed in the order
in which they were created.
-/

namespace Byom.Sqlite

open Storage Relational Transition

/-- A call that writes scan rows. -/
inductive RecordAction where
  | beginScan (now : Int) (scanID loc : UUID)
  | finishScan (now : Int) (scanID : UUID) (progress : Scan.Progress)
      (scanErr : Option Scan.ScanError)
  | abortRunningScans (now : Int)

namespace ScanTables

/-- A call that fails is rolled back. -/
def record (t : ScanTables) : RecordAction → Option ScanTables
  | .beginScan now scanID loc =>
    match t.beginScan now scanID loc with
    | .ok (t', _) => some t'
    | .error _ => some t
  | .finishScan now scanID progress scanErr => some (t.finishScan now scanID progress scanErr)
  | .abortRunningScans now => some (t.abortRunningScans now)

/-- The generations of the scans of a location, oldest scan first. -/
def generationsOf (loc : UUID) (t : ScanTables) : List Int :=
  (t.scans.filter fun r => r.locationID = loc).map ScanRow.generation

/-- What holds of the rows in whatever order they were written. -/
structure Lifecycle (t : ScanTables) : Prop where
  oneRunning : ∀ r ∈ t.scans, ∀ r' ∈ t.scans, r.state = .running → r'.state = .running →
    r.locationID = r'.locationID → r = r'
  stored : ∀ r ∈ t.scans, r.state ≠ .cancelling
  finishTime : ∀ r ∈ t.scans, r.finishTime.isSome ↔ r.state ≠ .running
  error : ∀ r ∈ t.scans, r.error.isSome ↔ r.state = .failed
  increasing : ∀ loc, (t.generationsOf loc).Pairwise (· < ·)
  newest : ∀ l ∈ t.locations, ∀ gen ∈ (t.generationsOf l.id).getLast?, gen = l.scanGeneration

variable {t t' : ScanTables} {now gen : Int} {scanID loc : UUID}

theorem lifecycle_of_noScans (none_ : t.scans = []) : t.Lifecycle := by
  constructor <;> simp [generationsOf, none_]

/-! ### Rows that are closed -/

/-- Closing some of the running rows: what `FinishScan` and `AbortRunningScans` do, and
the first statement of `BeginScan`. -/
structure Closes (p : ScanRow → Bool) (close : ScanRow → ScanRow) : Prop where
  id : ∀ r, (close r).id = r.id
  locationID : ∀ r, (close r).locationID = r.locationID
  generation : ∀ r, (close r).generation = r.generation
  closed : ∀ r, (close r).state ≠ .running ∧ (close r).state ≠ .cancelling
  finishTime : ∀ r, (close r).finishTime.isSome
  error : ∀ r, p r = true → r.error = none →
    ((close r).error.isSome ↔ (close r).state = .failed)
  running : ∀ r, p r = true → r.state = .running ∨ r.state = .cancelling

section Closes

variable {p : ScanRow → Bool} {close : ScanRow → ScanRow}

theorem Closes.generationsOf (closes : Closes p close)
    (scans : t'.scans = updateWhere p close t.scans) (loc : UUID) :
    t'.generationsOf loc = t.generationsOf loc := by
  have read : ∀ rows : List ScanRow, (rows.filter fun r => r.locationID = loc).map
      ScanRow.generation =
        ((rows.map fun r => (r.locationID, r.generation)).filter fun r => r.1 = loc).map
          Prod.snd := by
    intro rows
    rw [List.filter_map, List.map_map]
    rfl
  have columns : (updateWhere p close t.scans).map (fun r => (r.locationID, r.generation)) =
      t.scans.map fun r => (r.locationID, r.generation) := by
    apply map_key_updateWhere
    intro r
    rw [closes.locationID, closes.generation]
  unfold ScanTables.generationsOf
  rw [scans, read, columns, ← read]

/-- A row that is running afterwards was running before, and is the same. -/
theorem Closes.eq_of_running (closes : Closes p close) {r : ScanRow}
    (h : r ∈ updateWhere p close t.scans) (running : r.state = .running) : r ∈ t.scans := by
  obtain ⟨old, hold, rfl⟩ := mem_updateWhere.mp h
  by_cases hit : p old = true
  · rw [if_pos hit] at running
    exact absurd running (closes.closed old).1
  · rw [if_neg hit]
    exact hold

/-- The columns of the row stay in step when some rows are closed. -/
theorem Lifecycle.closed_row (life : t.Lifecycle) (closes : Closes p close) {r : ScanRow}
    (h : r ∈ updateWhere p close t.scans) :
    r.state ≠ .cancelling ∧ (r.finishTime.isSome ↔ r.state ≠ .running) ∧
      (r.error.isSome ↔ r.state = .failed) := by
  obtain ⟨old, hold, rfl⟩ := mem_updateWhere.mp h
  by_cases hit : p old = true
  · rw [if_pos hit]
    have open_ : old.state = .running := by
      rcases closes.running old hit with running | cancelling
      · exact running
      · exact absurd cancelling (life.stored old hold)
    have clean : old.error = none := by
      have := life.error old hold
      simpa [open_] using this
    refine ⟨(closes.closed old).2, ?_, closes.error old hit clean⟩
    exact ⟨fun _ => (closes.closed old).1, fun _ => closes.finishTime old⟩
  · rw [if_neg hit]
    exact ⟨life.stored old hold, life.finishTime old hold, life.error old hold⟩

theorem Lifecycle.closing (life : t.Lifecycle) (closes : Closes p close)
    (scans : t'.scans = updateWhere p close t.scans) (locations : t'.locations = t.locations) :
    t'.Lifecycle where
  oneRunning := by
    intro r hr r' hr' running running' same
    rw [scans] at hr hr'
    exact life.oneRunning r (closes.eq_of_running hr running) r'
      (closes.eq_of_running hr' running') running running' same
  stored := fun r hr => (life.closed_row closes (scans ▸ hr)).1
  finishTime := fun r hr => (life.closed_row closes (scans ▸ hr)).2.1
  error := fun r hr => (life.closed_row closes (scans ▸ hr)).2.2
  increasing := by
    intro loc
    rw [closes.generationsOf scans]
    exact life.increasing loc
  newest := by
    intro l hl
    rw [closes.generationsOf scans]
    exact life.newest l (locations ▸ hl)

end Closes

theorem finished_closes (now : Int) (scanID : UUID) (progress : Scan.Progress)
    (scanErr : Option Scan.ScanError) :
    Closes (fun s => s.id = scanID ∧ s.state = .running) (finished now progress scanErr) where
  id := fun _ => rfl
  locationID := fun _ => rfl
  generation := fun _ => rfl
  closed := by
    intro r
    rcases scanErr with _ | ⟨_ | text⟩ <;> simp [finished, outcome]
  finishTime := fun _ => rfl
  error := by
    intro r _ _
    rcases scanErr with _ | ⟨_ | text⟩ <;> simp [finished, outcome]
  running := fun r hit => .inl (by simpa using And.right (by simpa using hit))

theorem aborted_closes (now : Int) {p : ScanRow → Bool}
    (running : ∀ r, p r = true → r.state = .running ∨ r.state = .cancelling) :
    Closes p fun s => { s with state := .aborted, finishTime := some now } where
  id := fun _ => rfl
  locationID := fun _ => rfl
  generation := fun _ => rfl
  closed := by simp
  finishTime := fun _ => rfl
  error := by
    intro r _ clean
    simp [clean]
  running := running

/-! ### One call -/

/-- The location that is scanned, and its new generation. -/
theorem beginScan_locations (h : t.beginScan now scanID loc = .ok (t', gen)) :
    ∃ l ∈ t.locations, l.id = loc ∧ gen = l.scanGeneration + 1 ∧
      t'.locations = updateWhere (fun l => l.id = loc)
        (fun l => { l with scanGeneration := l.scanGeneration + 1 }) t.locations := by
  unfold beginScan at h
  cases found : lookup LocationRow.id loc t.locations with
  | none => simp [found] at h
  | some l =>
    simp only [found] at h
    split at h
    · cases h
    · cases h
      exact ⟨l, mem_of_lookup found, key_of_lookup found, rfl, rfl⟩

theorem le_of_getLast {l : List Int} (sorted : l.Pairwise (· < ·)) {last : Int}
    (h : last ∈ l.getLast?) {x : Int} (hx : x ∈ l) : x ≤ last := by
  obtain ⟨front, rfl⟩ : ∃ front, l = front ++ [last] := List.getLast?_eq_some_iff.mp h
  rcases List.mem_append.mp hx with before | here
  · have apart := (List.pairwise_append.mp sorted).2.2 x before last (by simp)
    exact le_of_lt apart
  · exact le_of_eq (List.mem_singleton.mp here)

/-- The generation of a location is not below that of any of its scans. -/
theorem Lifecycle.generation_le (life : t.Lifecycle) {l : LocationRow} (hl : l ∈ t.locations)
    {g : Int} (hg : g ∈ t.generationsOf l.id) : g ≤ l.scanGeneration := by
  cases last : (t.generationsOf l.id).getLast? with
  | none =>
    rw [List.getLast?_eq_none_iff.mp last] at hg
    cases hg
  | some newest =>
    have top : newest = l.scanGeneration := life.newest l hl newest last
    rw [← top]
    exact le_of_getLast (life.increasing l.id) last hg

theorem Lifecycle.beginScan (life : t.Lifecycle) (unique : UniqueOn LocationRow.id t.locations)
    (h : t.beginScan now scanID loc = .ok (t', gen)) : t'.Lifecycle := by
  obtain ⟨_, scans⟩ := beginScan_scans h
  obtain ⟨l, hl, rfl, rfl, locations⟩ := beginScan_locations h
  let aborted : ScanTables := { t with
    scans := updateWhere (fun s => s.locationID = l.id ∧ s.state = .running)
      (fun s => { s with state := .aborted, finishTime := some now }) t.scans }
  have closes := aborted_closes now
    (p := fun s => decide (s.locationID = l.id ∧ s.state = .running))
    fun r hit => .inl (by simpa using And.right (by simpa using hit))
  have mid : aborted.Lifecycle := life.closing closes rfl rfl
  have idle : ∀ r ∈ aborted.scans, r.state = .running → r.locationID ≠ l.id := by
    intro r hr running here
    obtain ⟨old, _, rfl⟩ := mem_updateWhere.mp hr
    split at running
    · cases running
    · rename_i missed
      rw [if_neg missed] at here
      exact missed (by simp [here, running])
  have rows : ∀ {r}, r ∈ t'.scans →
      r ∈ aborted.scans ∨ r = startedRow scanID l.id (l.scanGeneration + 1) now := by
    intro r hr
    rw [scans] at hr
    simpa [aborted] using hr
  have own : t'.generationsOf l.id = aborted.generationsOf l.id ++ [l.scanGeneration + 1] := by
    unfold generationsOf
    rw [scans, List.filter_append, List.map_append]
    simp [startedRow, aborted]
  have others : ∀ other, other ≠ l.id → t'.generationsOf other = aborted.generationsOf other := by
    intro other apart
    unfold generationsOf
    rw [scans, List.filter_append]
    simp [startedRow, aborted, apart.symm]
  refine ⟨?_, ?_, ?_, ?_, ?_, ?_⟩
  · intro r hr r' hr' running running' same
    rcases rows hr with old | new
    · rcases rows hr' with old' | new'
      · exact mid.oneRunning r old r' old' running running' same
      · subst new'
        exact absurd same (idle r old running)
    · subst new
      rcases rows hr' with old' | new'
      · exact absurd same.symm (idle r' old' running')
      · exact new'.symm
  · intro r hr
    rcases rows hr with old | rfl
    · exact mid.stored r old
    · simp [startedRow]
  · intro r hr
    rcases rows hr with old | rfl
    · exact mid.finishTime r old
    · simp [startedRow]
  · intro r hr
    rcases rows hr with old | rfl
    · exact mid.error r old
    · simp [startedRow]
  · intro other
    by_cases here : other = l.id
    · subst here
      rw [own, List.pairwise_append]
      refine ⟨mid.increasing l.id, List.pairwise_singleton _ _, ?_⟩
      intro g hg g' hg'
      have below : g ≤ l.scanGeneration := mid.generation_le hl hg
      rw [List.mem_singleton.mp hg']
      omega
    · rw [others other here]
      exact mid.increasing other
  · intro k hk g hg
    rw [locations] at hk
    obtain ⟨old, hold, rfl⟩ := mem_updateWhere.mp hk
    by_cases here : old.id = l.id
    · obtain rfl : old = l := unique.eq_of_key hold hl here
      simp only [decide_true, if_true] at hg ⊢
      rw [own, List.getLast?_concat, Option.mem_some_iff] at hg
      exact hg.symm
    · simp only [here, decide_false, Bool.false_eq_true, if_false] at hg ⊢
      rw [others old.id here] at hg
      exact mid.newest old hold g hg

theorem record_beginScan {now : Int} {scanID loc : UUID}
    (h : t.record (.beginScan now scanID loc) = some t') :
    t' = t ∨ ∃ gen, t.beginScan now scanID loc = .ok (t', gen) := by
  cases began : t.beginScan now scanID loc with
  | error e =>
    simp only [record, began, Option.some.injEq] at h
    exact .inl h.symm
  | ok result =>
    obtain ⟨u, gen⟩ := result
    simp only [record, began, Option.some.injEq] at h
    exact .inr ⟨gen, by rw [h]⟩

theorem record_locationIDs {a : RecordAction} (h : t.record a = some t') :
    t'.locations.map LocationRow.id = t.locations.map LocationRow.id := by
  cases a with
  | beginScan now scanID loc =>
    rcases record_beginScan h with rfl | ⟨gen, began⟩
    · rfl
    · exact (beginScan_spec began).1.locations
  | finishScan now scanID progress scanErr =>
    cases h
    rfl
  | abortRunningScans now =>
    cases h
    rfl

theorem Lifecycle.record {a : RecordAction} (life : t.Lifecycle)
    (unique : UniqueOn LocationRow.id t.locations) (h : t.record a = some t') :
    t'.Lifecycle := by
  cases a with
  | beginScan now scanID loc =>
    rcases record_beginScan h with rfl | ⟨gen, began⟩
    · exact life
    · exact life.beginScan unique began
  | finishScan now scanID progress scanErr =>
    cases h
    have scans : (t.finishScan now scanID progress scanErr).scans =
        updateWhere (fun s => s.id = scanID ∧ s.state = .running)
          (finished now progress scanErr) t.scans := by
      rcases scanErr with _ | ⟨_ | text⟩ <;> rfl
    exact life.closing (finished_closes now scanID progress scanErr) scans rfl
  | abortRunningScans now =>
    cases h
    have closes := aborted_closes now
      (p := fun s => decide (s.state = .running ∨ s.state = .cancelling)) fun r hit => by
        simpa using hit
    exact life.closing closes rfl rfl

/-- A closed row is not written again. -/
theorem record_keeps {a : RecordAction} {id : UUID} {row : ScanRow}
    (found : t.recordAt id = some row)
    (closed : row.state = .done ∨ row.state = .failed ∨ row.state = .aborted)
    (h : t.record a = some t') : t'.recordAt id = some row := by
  have ended : row.state ≠ .running ∧ row.state ≠ .cancelling := by
    rcases closed with state | state | state <;> simp [state]
  cases a with
  | beginScan now scanID loc =>
    rcases record_beginScan h with rfl | ⟨gen, began⟩
    · exact found
    · exact beginScan_keeps began found fun _ => ended.1
  | finishScan now scanID progress scanErr =>
    cases h
    exact finishScan_keeps found (.inr ended.1)
  | abortRunningScans now =>
    cases h
    exact abortRunningScans_keeps found ended

/-! ### Every order of calls -/

theorem run_keeps {as : List RecordAction} {id : UUID} {row : ScanRow}
    (found : t.recordAt id = some row)
    (closed : row.state = .done ∨ row.state = .failed ∨ row.state = .aborted)
    (ends : run record t as = some t') : t'.recordAt id = some row := by
  apply invariant_of_run (I := fun u => u.recordAt id = some row) _ found ends
  intro u a u' kept taken
  exact record_keeps kept closed taken

/-- From tables without scans on, whatever is called in whatever order: the rows are
in step, and once a row is closed no later call changes it. -/
theorem scanRecords_lifecycle {u : ScanTables} {as bs : List RecordAction}
    (wf : t.WellFormed) (fresh : t.scans = []) (first : run record t as = some u)
    (later : run record u bs = some t') :
    u.Lifecycle ∧ ∀ id row, u.recordAt id = some row →
      row.state = .done ∨ row.state = .failed ∨ row.state = .aborted →
        t'.recordAt id = some row := by
  have both : UniqueOn LocationRow.id u.locations ∧ u.Lifecycle := by
    apply invariant_of_run (I := fun v => UniqueOn LocationRow.id v.locations ∧ v.Lifecycle)
      _ ⟨wf.locationIDs, lifecycle_of_noScans fresh⟩ first
    intro v a v' inv taken
    refine ⟨?_, inv.2.record inv.1 taken⟩
    unfold UniqueOn
    rw [record_locationIDs taken]
    exact inv.1
  exact ⟨both.2, fun id row found closed => run_keeps found closed later⟩

/-- A database with one location, not scanned yet. -/
def unscanned : ScanTables := { empty with locations := [⟨1, "/music", 0, true⟩] }

/-- A second scan aborts the first, whose own `FinishScan` comes late. -/
theorem lateFinish_lifecycle : ∃ u t', run record unscanned
      [.beginScan 10 7 1, .beginScan 20 8 1] = some u ∧
    run record u [.finishScan 30 7 ⟨1, 0, 2, 0⟩ none, .abortRunningScans 40] = some t' ∧
    u.Lifecycle ∧ t'.recordAt 7 = some ⟨7, 1, 1, .aborted, 10, some 20, none, ⟨0, 0, 0, 0⟩⟩ := by
  have wf : unscanned.WellFormed := by
    constructor <;> simp [unscanned, empty, UniqueOn]
  refine ⟨_, _, rfl, rfl, ?_⟩
  have first : run record unscanned [.beginScan 10 7 1, .beginScan 20 8 1] = some _ := rfl
  have life := scanRecords_lifecycle wf rfl first
    (show run record _ [.finishScan 30 7 ⟨1, 0, 2, 0⟩ none, .abortRunningScans 40] = some _ from rfl)
  exact ⟨life.1, life.2 7 _ rfl (by decide)⟩

end ScanTables

end Byom.Sqlite
