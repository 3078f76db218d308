import Byom.Scan.Coverage
import Byom.Scan.EmittedNames

/-!
# Soundness of walk and merge

Whatever the order in which the merger goes through its map, a directory that is no disc
folder is emitted once, after those below it, and the name of an emitted file leads from the
emitted directory to the file.
-/

namespace Byom.Scan

open Storage Relational

/-- The path of an emitted file: its name, joined to the emitted directory. -/
def WalkResult.paths (r : WalkResult) : List Path := r.files.map fun f => r.dir ++ f.name

/-- The file lies in the emitted directory, or in a disc folder directly inside it. -/
def TakenFrom (dir p : Path) : Prop := p = dir ∨ isDisc p = true ∧ p.dir = dir

structure WalkSound (emitted : List WalkResult) (tree : Tree) : Prop where
  once : ∀ p d, tree.entries.DirAt p d → isDisc p = false →
    (emitted.map WalkResult.dir).count p = 1
  bottomUp : emitted.Pairwise NotBelow
  dirs : ∀ e ∈ emitted, isDisc e.dir = false ∧ ∃ d, tree.entries.DirAt e.dir d
  injective : (emitted.flatMap WalkResult.paths).Nodup
  real : ∀ e ∈ emitted, ∀ f ∈ e.files, ∃ p name, e.dir ++ f.name = p ++ [name] ∧
    TakenFrom e.dir p ∧ tree.entries.MediaAt p name f.kind

section

variable {order : MapOrder} {tree : Tree} {e : WalkResult}

theorem dir_of_emitted (he : e ∈ (walk order tree).emitted) :
    isDisc e.dir = false ∧ ∃ d, tree.entries.DirAt e.dir d := by
  obtain ⟨r, hr, ordinary, same⟩ := (walk_merged order tree).dir_of_emitted he
  obtain ⟨p, d, at_, rfl⟩ := mem_visits.mp hr
  rw [← same]
  exact ⟨ordinary, d, at_⟩

theorem emitted_count {p : Path} {d : Entries} (at_ : tree.entries.DirAt p d)
    (ordinary : isDisc p = false) :
    ((walk order tree).emitted.map WalkResult.dir).count p = 1 := by
  have visited : ⟨p, walkFiles d⟩ ∈ visits [] tree.entries := mem_visits.mpr ⟨p, d, at_, rfl⟩
  obtain ⟨e, he, rfl⟩ := (walk_merged order tree).emitted_of_mem visited ordinary
  exact List.count_eq_one_of_mem (emitted_dir_unique order tree) (List.mem_map_of_mem he)

theorem emitted_bottomUp (order : MapOrder) (tree : Tree) :
    (walk order tree).emitted.Pairwise NotBelow := by
  have byDir : ∀ rs : List WalkResult,
      rs.Pairwise NotBelow ↔ (rs.map WalkResult.dir).Pairwise fun p q => ¬ p <+: q := by
    intro rs
    rw [List.pairwise_map]
    rfl
  rw [byDir, (walk_merged order tree).dirs, ← byDir]
  exact (visits_notBelow tree.distinct).filter _

/-- The name of an emitted file leads to a file on the disk. -/
theorem emitted_real (he : e ∈ (walk order tree).emitted) {f : WalkEntry} (hf : f ∈ e.files) :
    ∃ p name, e.dir ++ f.name = p ++ [name] ∧ TakenFrom e.dir p ∧
      tree.entries.MediaAt p name f.kind := by
  obtain ⟨own, hown, same, contents⟩ := (walk_merged order tree).files e he
  rcases (contents f).mp hf with inOwn | ⟨d, hd, disc, parent, g, hg, rfl⟩
  · obtain ⟨name, named, media⟩ := media_of_visit hown inOwn
    refine ⟨own.dir, name, ?_, .inl same, media⟩
    rw [named, same]
  · obtain ⟨name, named, media⟩ := media_of_visit hd hg
    refine ⟨d.dir, name, ?_, .inr ⟨disc, parent.trans same⟩, media⟩
    rw [← same, ← parent, prefixedEntry, named]
    conv_rhs => rw [← dir_base_of_isDisc disc]
    simp

theorem emitted_paths_nodup (order : MapOrder) (tree : Tree) :
    ((walk order tree).emitted.flatMap WalkResult.paths).Nodup := by
  rw [List.nodup_flatMap]
  refine ⟨?_, ?_⟩
  · intro e he
    have names := emitted_names_unique he
    have joined : e.paths = (e.files.map WalkEntry.name).map (e.dir ++ ·) := by
      rw [List.map_map]
      rfl
    rw [joined]
    exact names.map fun _ _ same => List.append_cancel_left same
  · have apart : (walk order tree).emitted.Pairwise fun a b => a.dir ≠ b.dir :=
      List.pairwise_map.mp (emitted_dir_unique order tree)
    refine apart.imp_of_mem ?_
    intro a b ha hb differ
    apply List.disjoint_left.mpr
    intro q inA inB
    obtain ⟨f, hf, rfl⟩ := List.mem_map.mp inA
    obtain ⟨g, hg, same⟩ := List.mem_map.mp inB
    -- Both hold the file at one path, and a file is held once.
    obtain ⟨p, name, path, _⟩ := emitted_real ha hf
    apply differ
    apply dir_eq_of_holds ha hb
    · exact WalkResult.holds_iff.mpr ⟨f, hf, path⟩
    · exact WalkResult.holds_iff.mpr ⟨g, hg, same.trans path⟩

end

/-- A walk is sound, for every tree and every order of the map. -/
theorem walk_sound (order : MapOrder) (tree : Tree) :
    WalkSound (walk order tree).emitted tree where
  once _ _ at_ ordinary := emitted_count at_ ordinary
  bottomUp := emitted_bottomUp order tree
  dirs _ he := dir_of_emitted he
  injective := emitted_paths_nodup order tree
  real _ he _ hf := emitted_real he hf

end Byom.Scan
