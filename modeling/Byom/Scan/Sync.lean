import Byom.Scan.Walk
import Byom.Sqlite.ScanStore

/-!
# Change sets

`computeChangeset` compares the known files of a dir with the walked ones, and
`syncPayload` is what a sync worker hands to the store for one walked dir.
-/

namespace Byom.Scan

open Storage Relational

/-- The known file of that name; Go reads a zero `File` when there is none. -/
def previous (known : List File) (name : Path) : File :=
  (lookup File.name name known).getD File.zero

/-- The comparison of `computeChangeset`, on what it takes for the known file. -/
def unchanged (old : File) (info : FileInfo) : Bool :=
  !old.missing && old.info.size == info.size && old.info.modTime == info.modTime

/-- The first loop of `computeChangeset`: changed files, missing IDs, and the part
of `known` that is left over. -/
def compareWalked : List WalkEntry → List File → List File × List UUID × List File
  | [], known => ([], [], known)
  | f :: fs, known =>
    let old := previous known f.name
    let ok := (lookup File.name f.name known).isSome
    let (changed, missing, leftover) :=
      compareWalked fs (deleteWhere (fun k => k.name = f.name) known)
    match f.info with
    | none => (changed, if ok then old.id :: missing else missing, leftover)
    | some info =>
      if unchanged old info then (changed, missing, leftover)
      else (⟨old.id, f.name, f.kind, info, false⟩ :: changed, missing, leftover)

def computeChangeset (known : List File) (res : WalkResult) : List File × List UUID × Bool :=
  let (changed, missing, leftover) := compareWalked res.files known
  let missing := missing ++ leftover.map File.id
  (changed, missing, 0 < missing.length || 0 < changed.length)

/-- What `syncDir` loads for a walked dir: nothing if the dir is new. -/
def knownIn (locationID : UUID) (relPath : Path) (t : Sqlite.ScanTables) : List File :=
  match t.dirID locationID relPath with
  | none => []
  | some dirID => t.knownFiles dirID

/-- The payload `syncDir` builds. -/
def syncPayload (locationID : UUID) (gen : Int) (force : Bool) (known : List File)
    (res : WalkResult) : SyncPayload :=
  let (changed, missing, dirty) := computeChangeset known res
  ⟨locationID, res.dir, gen, changed, missing, dirty || force⟩

theorem unchanged_iff {old : File} {info : FileInfo} :
    unchanged old info = true ↔ old.missing = false ∧ old.info = info := by
  cases info
  cases h : old.info
  simp [unchanged, h, and_assoc]

section Spec

variable {files : List WalkEntry} {known : List File}

theorem previous_delete_ne {name other : Path} (apart : name ≠ other) :
    previous (deleteWhere (fun k => k.name = other) known) name = previous known name := by
  unfold previous lookup deleteWhere
  rw [List.find?_filter]
  congr 2
  funext k
  by_cases same : k.name = name <;> simp [same, apart]

theorem walked_apart {f : WalkEntry} {fs : List WalkEntry}
    (distinct : UniqueOn WalkEntry.name (f :: fs)) :
    (∀ g ∈ fs, g.name ≠ f.name) ∧ UniqueOn WalkEntry.name fs := by
  obtain ⟨new, rest⟩ := List.nodup_cons.mp distinct
  exact ⟨fun g hg same => new (same ▸ List.mem_map_of_mem hg), rest⟩

/-- A file is changed when its stat succeeded and differs from what is known. -/
theorem mem_changed_iff (distinct : UniqueOn WalkEntry.name files) {c : File} :
    c ∈ (compareWalked files known).1 ↔ ∃ f ∈ files, ∃ info, f.info = some info ∧
      unchanged (previous known f.name) info = false ∧
      c = ⟨(previous known f.name).id, f.name, f.kind, info, false⟩ := by
  induction files generalizing known with
  | nil => simp [compareWalked]
  | cons f fs ih =>
    obtain ⟨apart, rest⟩ := walked_apart distinct
    -- Deleting the name of `f` hides no other walked file from the map.
    have tail : c ∈ (compareWalked fs (deleteWhere (fun k => k.name = f.name) known)).1 ↔
        ∃ g ∈ fs, ∃ info, g.info = some info ∧ unchanged (previous known g.name) info = false ∧
          c = ⟨(previous known g.name).id, g.name, g.kind, info, false⟩ := by
      rw [ih rest]
      apply exists_congr
      intro g
      apply and_congr_right
      intro hg
      rw [previous_delete_ne (apart g hg)]
    unfold compareWalked
    cases stat : f.info with
    | none => simp only [List.mem_cons, exists_eq_or_imp, stat, tail]; simp
    | some info =>
      simp only [List.mem_cons, exists_eq_or_imp, stat, Option.some.injEq, exists_eq_left']
      by_cases same : unchanged (previous known f.name) info = true
      · simp only [same, if_true, tail, Bool.true_eq_false, false_and, false_or]
      · have differs : unchanged (previous known f.name) info = false := by simpa using same
        simp only [differs, Bool.false_eq_true, if_false, List.mem_cons, tail, true_and]

/-- The IDs that end up missing are those of the known files that no walked file
with a successful stat is named like. -/
theorem mem_missing_iff (distinct : UniqueOn WalkEntry.name files)
    (unique : UniqueOn File.name known) (id : UUID) :
    id ∈ (compareWalked files known).2.1 ++ (compareWalked files known).2.2.map File.id ↔
      ∃ k ∈ known, k.id = id ∧ ∀ f ∈ files, f.name = k.name → f.info = none := by
  induction files generalizing known with
  | nil => simp [compareWalked]
  | cons f fs ih =>
    obtain ⟨apart, rest⟩ := walked_apart distinct
    have tail := ih rest (unique.deleteWhere fun k => k.name = f.name)
    simp only [mem_deleteWhere, decide_eq_false_iff_not] at tail
    simp only [List.forall_mem_cons]
    unfold compareWalked
    cases stat : f.info with
    | none =>
      cases found : lookup File.name f.name known with
      | none =>
        have absent := lookup_eq_none_iff.mp found
        simp only [Option.isSome_none, Bool.false_eq_true, if_false, tail]
        constructor
        · rintro ⟨k, ⟨hk, _⟩, same, clear⟩
          exact ⟨k, hk, same, fun _ => trivial, clear⟩
        · rintro ⟨k, hk, same, clear⟩
          exact ⟨k, ⟨hk, absent k hk⟩, same, clear.2⟩
      | some old =>
        have loaded : previous known f.name = old := by simp [previous, found]
        simp only [Option.isSome_some, if_true, List.cons_append, List.mem_cons, tail, loaded]
        constructor
        · rintro (rfl | ⟨k, ⟨hk, _⟩, same, clear⟩)
          · refine ⟨old, mem_of_lookup found, rfl, fun _ => trivial, ?_⟩
            intro g hg named
            exact absurd (named.trans (key_of_lookup found)) (apart g hg)
          · exact ⟨k, hk, same, fun _ => trivial, clear⟩
        · rintro ⟨k, hk, same, clear⟩
          by_cases named : k.name = f.name
          · left
            rw [← same, unique.eq_of_key hk (mem_of_lookup found)
              (named.trans (key_of_lookup found).symm)]
          · exact .inr ⟨k, ⟨hk, named⟩, same, clear.2⟩
    | some info =>
      have step : id ∈ (compareWalked fs (deleteWhere (fun k => k.name = f.name) known)).2.1 ++
          (compareWalked fs (deleteWhere (fun k => k.name = f.name) known)).2.2.map File.id ↔
          ∃ k ∈ known, k.id = id ∧ (f.name = k.name → f.info = none) ∧
            ∀ g ∈ fs, g.name = k.name → g.info = none := by
        rw [tail]
        constructor
        · rintro ⟨k, ⟨hk, other⟩, same, clear⟩
          exact ⟨k, hk, same, fun named => absurd named.symm other, clear⟩
        · rintro ⟨k, hk, same, first, clear⟩
          refine ⟨k, ⟨hk, ?_⟩, same, clear⟩
          intro named
          simpa [stat] using first named.symm
      simp only [stat] at step
      by_cases same : unchanged (previous known f.name) info = true
      · simpa only [same, if_true] using step
      · simpa only [if_neg same] using step

end Spec

end Byom.Scan
