import Mathlib.Data.List.Nodup

/-!
# Keyed tables as lists of rows

A table is the list of its rows, and a unique constraint says that the rows
have pairwise different keys. Under that constraint a table is a finite map
from keys to rows; `lookup` reads it, and the lemmas below say what the SQL
write statements do to that map.
-/

namespace Byom.Relational

universe u v

variable {Row : Type u} {Key : Type v}

/-- The unique constraint on the columns `key` reads. -/
def UniqueOn (key : Row → Key) (rows : List Row) : Prop := (rows.map key).Nodup

instance [DecidableEq Key] (key : Row → Key) (rows : List Row) : Decidable (UniqueOn key rows) :=
  inferInstanceAs (Decidable (rows.map key).Nodup)

/-- `UPDATE rows SET set WHERE p`. -/
def updateWhere (p : Row → Bool) (set : Row → Row) (rows : List Row) : List Row :=
  rows.map fun r => if p r then set r else r

/-- `DELETE FROM rows WHERE p`. -/
def deleteWhere (p : Row → Bool) (rows : List Row) : List Row :=
  rows.filter fun r => !p r

@[simp] theorem mem_updateWhere {p : Row → Bool} {set : Row → Row} {rows : List Row} {r : Row} :
    r ∈ updateWhere p set rows ↔ ∃ a ∈ rows, (if p a then set a else a) = r := by
  simp [updateWhere]

@[simp] theorem mem_deleteWhere {p : Row → Bool} {rows : List Row} {r : Row} :
    r ∈ deleteWhere p rows ↔ r ∈ rows ∧ p r = false := by
  simp [deleteWhere]

@[simp] theorem updateWhere_nil (p : Row → Bool) (set : Row → Row) :
    updateWhere p set [] = [] := rfl

@[simp] theorem uniqueOn_nil (key : Row → Key) : UniqueOn key [] := List.nodup_nil

theorem UniqueOn.eq_of_key {key : Row → Key} {rows : List Row} (unique : UniqueOn key rows)
    {a b : Row} (ha : a ∈ rows) (hb : b ∈ rows) (same : key a = key b) : a = b :=
  List.inj_on_of_nodup_map unique ha hb same

theorem UniqueOn.append {key : Row → Key} {rows : List Row} (unique : UniqueOn key rows)
    {fresh : Row} (new : ∀ r ∈ rows, key r ≠ key fresh) : UniqueOn key (rows ++ [fresh]) := by
  unfold UniqueOn
  rw [List.map_append, List.nodup_append]
  refine ⟨unique, by simp, ?_⟩
  intro a ha b hb
  obtain ⟨r, hr, rfl⟩ := List.mem_map.mp ha
  obtain rfl : b = key fresh := by simpa using hb
  exact new r hr

theorem map_key_updateWhere {key : Row → Key} {p : Row → Bool} {set : Row → Row}
    (keeps : ∀ r, key (set r) = key r) (rows : List Row) :
    (updateWhere p set rows).map key = rows.map key := by
  rw [updateWhere, List.map_map]
  apply List.map_congr_left
  intro r _
  by_cases h : p r <;> simp [h, keeps]

/-- An update that no row qualifies for. -/
theorem updateWhere_eq_self {p : Row → Bool} (set : Row → Row) {rows : List Row}
    (outside : ∀ r ∈ rows, p r = false) : updateWhere p set rows = rows := by
  unfold updateWhere
  rw [List.map_congr_left (g := id)]
  · exact List.map_id rows
  · intro r hr
    simp [outside r hr]

theorem UniqueOn.updateWhere {key : Row → Key} {rows : List Row} (unique : UniqueOn key rows)
    {p : Row → Bool} {set : Row → Row} (keeps : ∀ r, key (set r) = key r) :
    UniqueOn key (updateWhere p set rows) := by
  unfold UniqueOn
  rw [map_key_updateWhere keeps]
  exact unique

theorem UniqueOn.filter {key : Row → Key} {rows : List Row} (unique : UniqueOn key rows)
    (p : Row → Bool) : UniqueOn key (rows.filter p) :=
  (List.Sublist.map key List.filter_sublist).nodup unique

theorem UniqueOn.deleteWhere {key : Row → Key} {rows : List Row} (unique : UniqueOn key rows)
    (p : Row → Bool) : UniqueOn key (deleteWhere p rows) :=
  unique.filter _

/-- An update of rows outside a selection leaves the selection as it was. -/
theorem filter_updateWhere_of_disjoint {p q : Row → Bool} {set : Row → Row} {rows : List Row}
    (apart : ∀ r ∈ rows, p r = true → q r = false ∧ q (set r) = false) :
    (updateWhere p set rows).filter q = rows.filter q := by
  induction rows with
  | nil => rfl
  | cons r rows ih =>
    obtain ⟨first, rest⟩ := List.forall_mem_cons.mp apart
    have tail := ih rest
    unfold Relational.updateWhere at tail ⊢
    by_cases h : p r = true
    · obtain ⟨old, new⟩ := first h
      simp [h, old, new, tail]
    · simp [h, List.filter_cons, tail]

/-- Of rows that all share one key, a unique constraint leaves one. -/
theorem UniqueOn.filter_eq_singleton {key : Row → Key} {rows : List Row}
    (unique : UniqueOn key rows) {p : Row → Bool} {r : Row} (hr : r ∈ rows) (selected : p r = true)
    (same : ∀ a ∈ rows, p a = true → key a = key r) : rows.filter p = [r] := by
  have only : ∀ a ∈ rows.filter p, a = r := by
    intro a ha
    obtain ⟨ha, picked⟩ := List.mem_filter.mp ha
    exact unique.eq_of_key ha hr (same a ha picked)
  have repeated := List.eq_replicate_of_mem only
  have nodup : (rows.filter p).Nodup := List.Nodup.of_map key (unique.filter p)
  rw [repeated, List.nodup_replicate] at nodup
  have inhabited : r ∈ rows.filter p := List.mem_filter.mpr ⟨hr, selected⟩
  have positive := List.length_pos_of_mem inhabited
  rw [repeated, show (rows.filter p).length = 1 by omega]
  rfl

section Lookup

variable [DecidableEq Key] {key : Row → Key} {k : Key} {rows : List Row} {r : Row}

/-- The row with a key, read through a unique index. -/
def lookup (key : Row → Key) (k : Key) (rows : List Row) : Option Row :=
  rows.find? fun r => key r = k

@[simp] theorem lookup_nil : lookup key k [] = none := rfl

theorem mem_of_lookup (h : lookup key k rows = some r) : r ∈ rows :=
  List.mem_of_find?_eq_some h

theorem key_of_lookup (h : lookup key k rows = some r) : key r = k := by
  simpa using List.find?_some h

theorem lookup_eq_none_iff : lookup key k rows = none ↔ ∀ r ∈ rows, key r ≠ k := by
  simp [lookup]

theorem UniqueOn.lookup_eq_some_iff (unique : UniqueOn key rows) :
    lookup key k rows = some r ↔ r ∈ rows ∧ key r = k := by
  constructor
  · exact fun h => ⟨mem_of_lookup h, key_of_lookup h⟩
  · rintro ⟨hr, rfl⟩
    cases h : lookup key (key r) rows with
    | none => exact absurd rfl (lookup_eq_none_iff.mp h r hr)
    | some a =>
      rw [unique.eq_of_key (mem_of_lookup h) hr (key_of_lookup h)]

theorem UniqueOn.lookup_of_mem (unique : UniqueOn key rows) (hr : r ∈ rows) :
    lookup key (key r) rows = some r :=
  unique.lookup_eq_some_iff.mpr ⟨hr, rfl⟩

/-- What a key reads does not depend on the order of the rows. -/
theorem UniqueOn.lookup_perm (unique : UniqueOn key rows) {rows' : List Row}
    (same : rows.Perm rows') : lookup key k rows = lookup key k rows' := by
  have unique' : UniqueOn key rows' := (same.map key).nodup unique
  apply Option.ext
  intro r
  rw [unique.lookup_eq_some_iff, unique'.lookup_eq_some_iff, same.mem_iff]

/-- An update that keeps keys acts on the row a key reads, and nowhere else. -/
theorem lookup_updateWhere {p : Row → Bool} {set : Row → Row}
    (keeps : ∀ r, key (set r) = key r) :
    lookup key k (updateWhere p set rows) =
      (lookup key k rows).map fun r => if p r then set r else r := by
  unfold lookup Relational.updateWhere
  rw [List.find?_map]
  congr 2
  funext r
  by_cases h : p r <;> simp [h, keeps]

theorem UniqueOn.lookup_deleteWhere (unique : UniqueOn key rows) (p : Row → Bool) :
    lookup key k (Relational.deleteWhere p rows) = (lookup key k rows).filter fun r => !p r := by
  cases h : lookup key k rows with
  | none =>
    rw [lookup_eq_none_iff] at h
    exact lookup_eq_none_iff.mpr fun r hr => h r (mem_deleteWhere.mp hr).1
  | some a =>
    by_cases gone : p a
    · simp only [Option.filter, gone, Bool.not_true]
      apply lookup_eq_none_iff.mpr
      intro r hr same
      obtain ⟨hr, kept⟩ := mem_deleteWhere.mp hr
      obtain rfl := unique.eq_of_key hr (mem_of_lookup h) (same.trans (key_of_lookup h).symm)
      simp [gone] at kept
    · simp only [Option.filter, gone, Bool.not_false]
      apply (unique.deleteWhere p).lookup_eq_some_iff.mpr
      exact ⟨mem_deleteWhere.mpr ⟨mem_of_lookup h, by simpa using gone⟩, key_of_lookup h⟩

theorem lookup_append_ne {fresh : Row} (other : key fresh ≠ k) :
    lookup key k (rows ++ [fresh]) = lookup key k rows := by
  simp [lookup, other]

theorem lookup_append_of_found {r : Row} (found : lookup key k rows = some r) (more : List Row) :
    lookup key k (rows ++ more) = some r := by
  unfold lookup at found ⊢
  rw [List.find?_append, found, Option.some_or]

theorem lookup_append_self {fresh : Row} (new : lookup key (key fresh) rows = none) :
    lookup key (key fresh) (rows ++ [fresh]) = some fresh := by
  have absent : rows.find? (fun r => key r = key fresh) = none := new
  simp [lookup, absent]

end Lookup

section Upsert

variable [DecidableEq Key] {key : Row → Key} {merge : Row → Row} {fresh : Row} {rows : List Row}

/-- `INSERT fresh ON CONFLICT (key) DO UPDATE SET merge`. -/
def upsertOn (key : Row → Key) (merge : Row → Row) (fresh : Row) (rows : List Row) : List Row :=
  if (lookup key (key fresh) rows).isSome then
    updateWhere (fun r => key r = key fresh) merge rows
  else rows ++ [fresh]

/-- The row that `RETURNING` reads after the upsert. -/
def upserted (key : Row → Key) (merge : Row → Row) (fresh : Row) (rows : List Row) : Row :=
  ((lookup key (key fresh) rows).map merge).getD fresh

theorem upsertOn_of_lookup (fresh : Row) {old : Row}
    (h : lookup key (key fresh) rows = some old) :
    upsertOn key merge fresh rows = updateWhere (fun r => key r = key fresh) merge rows := by
  simp [upsertOn, h]

theorem upsertOn_of_absent (fresh : Row) (h : lookup key (key fresh) rows = none) :
    upsertOn key merge fresh rows = rows ++ [fresh] := by
  simp [upsertOn, h]

theorem lookup_upsertOn_self (fresh : Row) (rows : List Row)
    (keeps : ∀ r, key (merge r) = key r) :
    lookup key (key fresh) (upsertOn key merge fresh rows) =
      some (upserted key merge fresh rows) := by
  unfold upserted
  cases h : lookup key (key fresh) rows with
  | none => rw [upsertOn_of_absent _ h, lookup_append_self h]; rfl
  | some old =>
    rw [upsertOn_of_lookup _ h, lookup_updateWhere keeps, h]
    simp [key_of_lookup h]

theorem lookup_upsertOn_ne {k : Key} (keeps : ∀ r, key (merge r) = key r)
    (other : k ≠ key fresh) :
    lookup key k (upsertOn key merge fresh rows) = lookup key k rows := by
  cases h : lookup key (key fresh) rows with
  | none => rw [upsertOn_of_absent _ h, lookup_append_ne other.symm]
  | some old =>
    rw [upsertOn_of_lookup _ h, lookup_updateWhere keeps]
    cases found : lookup key k rows with
    | none => rfl
    | some r =>
      have apart : key r ≠ key fresh := by rw [key_of_lookup found]; exact other
      simp [apart]

theorem UniqueOn.upsertOn (unique : UniqueOn key rows) (keeps : ∀ r, key (merge r) = key r) :
    UniqueOn key (upsertOn key merge fresh rows) := by
  cases h : lookup key (key fresh) rows with
  | none =>
    rw [upsertOn_of_absent _ h]
    exact unique.append (lookup_eq_none_iff.mp h)
  | some old =>
    rw [upsertOn_of_lookup _ h]
    exact unique.updateWhere keeps

theorem mem_upsertOn {r : Row} : r ∈ upsertOn key merge fresh rows →
    r = fresh ∧ lookup key (key fresh) rows = none ∨ r ∈ rows ∧ key r ≠ key fresh ∨
      ∃ old ∈ rows, key old = key fresh ∧ r = merge old := by
  intro hr
  cases h : lookup key (key fresh) rows with
  | none =>
    rw [upsertOn_of_absent _ h, List.mem_append, List.mem_singleton] at hr
    rcases hr with old | new
    · exact .inr (.inl ⟨old, lookup_eq_none_iff.mp h r old⟩)
    · exact .inl ⟨new, rfl⟩
  | some found =>
    rw [upsertOn_of_lookup _ h, mem_updateWhere] at hr
    obtain ⟨old, hold, rfl⟩ := hr
    by_cases same : key old = key fresh
    · exact .inr (.inr ⟨old, hold, same, by simp [same]⟩)
    · exact .inr (.inl (by simpa [same] using hold))

/-- No row is lost. -/
theorem upsertOn_keeps {r : Row} (hr : r ∈ rows) :
    (if key r = key fresh then merge r else r) ∈ upsertOn key merge fresh rows := by
  cases h : lookup key (key fresh) rows with
  | none =>
    rw [upsertOn_of_absent _ h, if_neg (lookup_eq_none_iff.mp h r hr)]
    exact List.mem_append_left _ hr
  | some found =>
    rw [upsertOn_of_lookup _ h]
    exact mem_updateWhere.mpr ⟨r, hr, by simp⟩

theorem upsertOn_keeps_of_ne {r : Row} (hr : r ∈ rows) (other : key r ≠ key fresh) :
    r ∈ upsertOn key merge fresh rows := by
  have kept : (if key r = key fresh then merge r else r) ∈ upsertOn key merge fresh rows :=
    upsertOn_keeps hr
  rwa [if_neg other] at kept

theorem upsertOn_keeps_map {Col : Type*} {col : Row → Col} (keeps : ∀ r, col (merge r) = col r)
    (fresh : Row) (rows : List Row) : rows.map col ⊆ (upsertOn key merge fresh rows).map col := by
  intro c hc
  obtain ⟨r, hr, rfl⟩ := List.mem_map.mp hc
  refine List.mem_map.mpr ⟨_, upsertOn_keeps hr, ?_⟩
  split
  · exact keeps r
  · rfl

/-- Only the row that is inserted brings a new value into a column that is kept. -/
theorem mem_map_upsertOn {Col : Type*} {col : Row → Col} {c : Col}
    (hc : c ∈ (upsertOn key merge fresh rows).map col) (keeps : ∀ r, col (merge r) = col r) :
    c = col fresh ∨ c ∈ rows.map col := by
  obtain ⟨r, hr, rfl⟩ := List.mem_map.mp hc
  rcases mem_upsertOn hr with ⟨rfl, _⟩ | ⟨old, _⟩ | ⟨old, hold, _, rfl⟩
  · exact .inl rfl
  · exact .inr (List.mem_map_of_mem old)
  · exact .inr (List.mem_map.mpr ⟨old, hold, (keeps old).symm⟩)

/-- An upsert of rows that are seen through `f`. -/
theorem map_upsertOn {Seen : Type*} {f : Row → Seen} {key' : Seen → Key} {merge' : Seen → Seen}
    (keys : ∀ r, key' (f r) = key r) (merges : ∀ r, f (merge r) = merge' (f r)) :
    (upsertOn key merge fresh rows).map f = upsertOn key' merge' (f fresh) (rows.map f) := by
  have found : lookup key' (key' (f fresh)) (rows.map f) =
      (lookup key (key fresh) rows).map f := by
    unfold lookup
    rw [List.find?_map]
    simp only [Function.comp_def, keys]
  cases h : lookup key (key fresh) rows with
  | none =>
    rw [h] at found
    rw [upsertOn_of_absent _ h, upsertOn_of_absent _ found, List.map_append]
    rfl
  | some old =>
    rw [h] at found
    rw [upsertOn_of_lookup _ h, upsertOn_of_lookup _ found, Relational.updateWhere,
      Relational.updateWhere, List.map_map, List.map_map]
    apply List.map_congr_left
    intro r _
    by_cases same : key r = key fresh
    · simp [keys, merges, same]
    · simp [keys, same]

theorem filter_upsertOn_of_disjoint {q : Row → Bool} (outside : q fresh = false)
    (apart : ∀ r ∈ rows, key r = key fresh → q r = false ∧ q (merge r) = false) :
    (upsertOn key merge fresh rows).filter q = rows.filter q := by
  cases h : lookup key (key fresh) rows with
  | none => simp [upsertOn_of_absent _ h, outside]
  | some old =>
    rw [upsertOn_of_lookup _ h]
    exact filter_updateWhere_of_disjoint fun r hr same => apart r hr (by simpa using same)

end Upsert

end Byom.Relational
