import Byom.Relational.Table

/-!
# Foreign keys and partial indexes

A foreign key says that the values of a column are among the keys of the parent
table. A delete on the parent that cascades deletes the rows that refer to what
is gone.
-/

namespace Byom.Relational

universe u v w

variable {Row : Type u} {Parent : Type w} {Key : Type v}

/-- The values of the column `col` are among `keys`. -/
def References (col : Row → Key) (rows : List Row) (keys : List Key) : Prop :=
  ∀ r ∈ rows, col r ∈ keys

instance [DecidableEq Key] (col : Row → Key) (rows : List Row) (keys : List Key) :
    Decidable (References col rows keys) :=
  inferInstanceAs (Decidable (∀ r ∈ rows, col r ∈ keys))

@[simp] theorem references_nil (col : Row → Key) (keys : List Key) : References col [] keys := by
  simp [References]

theorem References.exists_parent {col : Row → Key} {rows : List Row} {pk : Parent → Key}
    {parents : List Parent} (refs : References col rows (parents.map pk)) {r : Row}
    (hr : r ∈ rows) : ∃ p ∈ parents, pk p = col r :=
  List.mem_map.mp (refs r hr)

theorem References.mono {col : Row → Key} {rows rows' : List Row} {keys keys' : List Key}
    (refs : References col rows keys) (fewer : rows' ⊆ rows) (more : keys ⊆ keys') :
    References col rows' keys' :=
  fun r hr => more (refs r (fewer hr))

theorem deleteWhere_subset (p : Row → Bool) (rows : List Row) : deleteWhere p rows ⊆ rows :=
  fun _ hr => (mem_deleteWhere.mp hr).1

/-- The keys of the rows that `DELETE WHERE p` deletes. -/
def deletedKeys (pk : Parent → Key) (p : Parent → Bool) (parents : List Parent) : List Key :=
  (parents.filter p).map pk

theorem mem_deletedKeys {pk : Parent → Key} {p : Parent → Bool} {parents : List Parent} {k : Key} :
    k ∈ deletedKeys pk p parents ↔ ∃ a ∈ parents, p a = true ∧ pk a = k := by
  simp [deletedKeys, and_assoc]

/-- `ON DELETE CASCADE`, for parents with the keys `gone`. -/
def cascade [DecidableEq Key] (col : Row → Key) (gone : List Key) (rows : List Row) : List Row :=
  deleteWhere (fun r => col r ∈ gone) rows

theorem mem_cascade [DecidableEq Key] {col : Row → Key} {gone : List Key} {rows : List Row}
    {r : Row} : r ∈ cascade col gone rows ↔ r ∈ rows ∧ col r ∉ gone := by
  simp [cascade]

theorem cascade_subset [DecidableEq Key] (col : Row → Key) (gone : List Key) (rows : List Row) :
    cascade col gone rows ⊆ rows := deleteWhere_subset _ rows

/-- A delete that cascades leaves no reference without its parent. -/
theorem References.cascade [DecidableEq Key] {col : Row → Key} {rows : List Row}
    {pk : Parent → Key} {parents : List Parent} (refs : References col rows (parents.map pk))
    (p : Parent → Bool) :
    References col (cascade col (deletedKeys pk p parents) rows)
      ((deleteWhere p parents).map pk) := by
  intro r hr
  obtain ⟨hr, kept⟩ := mem_cascade.mp hr
  obtain ⟨a, ha, same⟩ := refs.exists_parent hr
  refine List.mem_map.mpr ⟨a, mem_deleteWhere.mpr ⟨ha, ?_⟩, same⟩
  cases deleted : p a with
  | false => rfl
  | true => exact absurd (mem_deletedKeys.mpr ⟨a, ha, deleted, same⟩) kept

/-- Under its own key, a row that is deleted is not among the keys that are left. -/
theorem UniqueOn.key_deleted {pk : Parent → Key} {parents : List Parent}
    (unique : UniqueOn pk parents) {p : Parent → Bool} {a : Parent} (ha : a ∈ parents) :
    pk a ∈ deletedKeys pk p parents ↔ p a = true := by
  rw [mem_deletedKeys]
  constructor
  · rintro ⟨b, hb, deleted, same⟩
    rwa [← unique.eq_of_key hb ha same]
  · exact fun deleted => ⟨a, ha, deleted, rfl⟩

theorem UniqueOn.sublist {key : Row → Key} {rows rows' : List Row} (unique : UniqueOn key rows)
    (fewer : rows'.Sublist rows) : UniqueOn key rows' :=
  (fewer.map key).nodup unique

/-- A unique index over the rows with `q` survives a delete. -/
theorem UniqueOn.partialIndex {key : Row → Key} {q : Row → Bool} {rows : List Row}
    (unique : UniqueOn key (rows.filter q)) (p : Row → Bool) :
    UniqueOn key ((Relational.deleteWhere p rows).filter q) :=
  unique.sublist (List.filter_sublist.filter q)

/-- What `LEFT JOIN rows ON on` pairs one row with. -/
def leftMatches (on : Row → Bool) (rows : List Row) : List (Option Row) :=
  if (rows.filter on).isEmpty then [none] else (rows.filter on).map some

/-- A left join on unique values neither drops nor repeats the row. -/
theorem UniqueOn.leftMatches_eq {key : Row → Key} {q on : Row → Bool} {rows : List Row}
    (unique : UniqueOn key (rows.filter q)) (indexed : ∀ r, on r = true → q r = true)
    (same : ∀ a b, on a = true → on b = true → key a = key b) :
    leftMatches on rows = [rows.find? on] := by
  unfold leftMatches
  rw [← List.head?_filter]
  cases h : rows.filter on with
  | nil => rfl
  | cons r rest =>
    have found : r ∈ rows.filter on := h ▸ List.mem_cons_self
    obtain ⟨hr, hit⟩ := List.mem_filter.mp found
    have narrowed : rows.filter on = (rows.filter q).filter on := by
      rw [List.filter_filter]
      apply List.filter_congr
      intro a _
      cases hit : on a <;> simp [hit, indexed]
    have alone := unique.filter_eq_singleton (p := on)
      (List.mem_filter.mpr ⟨hr, indexed r hit⟩) hit fun a _ hitA => same a r hitA hit
    rw [narrowed, alone] at h
    rw [← h]
    rfl

/-- `INSERT fresh ON CONFLICT DO NOTHING`. -/
def insertOrIgnore (conflict : Row → Row → Bool) (fresh : Row) (rows : List Row) : List Row :=
  if rows.any (conflict fresh) then rows else rows ++ [fresh]

/-- The rows of an owner that a sync against the list `keep` deletes. -/
def stale [DecidableEq Key] (idCol ownerCol : Row → Key) (owner : Key) (keep : List Key)
    (r : Row) : Bool :=
  ownerCol r = owner ∧ idCol r ∉ keep

end Byom.Relational
