import Mathlib.Data.List.Nodup
import Byom.Scan.DiscMerging

/-!
# File names in one emitted result

The names in one emitted result are pairwise different: folded files carry the
name of their disc folder, and a folder's own files carry none.
-/

namespace Byom.Scan

open Storage Relational

theorem Entries.Distinct.of_subdirs {e : Entries} (distinct : e.Distinct) {name : String}
    {sub : Entries} (h : (name, sub) ∈ e.subdirs) : sub.Distinct := by
  induction e with
  | nil => simp [subdirs] at h
  | file other regular info rest ih => exact ih distinct.2 h
  | dir other below rest _ ih =>
    rcases List.mem_cons.mp h with same | inRest
    · obtain ⟨rfl, rfl⟩ := Prod.mk.inj same
      exact distinct.2.1
    · exact ih distinct.2.2 inRest

theorem Entries.DirAt.distinct {root d : Entries} {p : Path} (h : DirAt root p d)
    (distinct : root.Distinct) : d.Distinct := by
  induction h with
  | here => exact distinct
  | inside member _ _ ih => exact ih (distinct.of_subdirs member)

theorem name_of_walkFiles {e : Entries} {f : WalkEntry} (h : f ∈ walkFiles e) :
    ∃ name ∈ e.names, f.name = [name] := by
  induction e with
  | nil => simp [walkFiles] at h
  | dir other below rest _ ih =>
    obtain ⟨name, member, named⟩ := ih h
    exact ⟨name, List.mem_cons_of_mem _ member, named⟩
  | file other regular info rest ih =>
    have inRest : f ∈ walkFiles rest → ∃ name ∈ (Entries.file other regular info rest).names,
        f.name = [name] := by
      intro inRest
      obtain ⟨name, member, named⟩ := ih inRest
      exact ⟨name, List.mem_cons_of_mem _ member, named⟩
    unfold walkFiles at h
    split at h
    · exact inRest h
    · split at h
      · exact inRest h
      · rcases List.mem_cons.mp h with rfl | tail
        · exact ⟨other, List.mem_cons_self .., rfl⟩
        · exact inRest tail

theorem walkFiles_names_nodup {e : Entries} (distinct : e.Distinct) :
    UniqueOn WalkEntry.name (walkFiles e) := by
  induction e with
  | nil => exact uniqueOn_nil _
  | dir other below rest _ ih => exact ih distinct.2.2
  | file other regular info rest ih =>
    obtain ⟨new, restDistinct⟩ := distinct
    unfold walkFiles
    split
    · exact ih restDistinct
    · split
      · exact ih restDistinct
      · refine List.nodup_cons.mpr ⟨?_, ih restDistinct⟩
        intro again
        obtain ⟨f, hf, same⟩ := List.mem_map.mp again
        obtain ⟨name, member, named⟩ := name_of_walkFiles hf
        obtain rfl : name = other := by simpa [named] using same
        exact new member

/-- A visited result: different file names, each a single component. -/
structure WalkResult.Plain (r : WalkResult) : Prop where
  unique : UniqueOn WalkEntry.name r.files
  single : ∀ f ∈ r.files, ∃ name, f.name = [name]

theorem plain_of_visit (tree : Tree) {r : WalkResult} (h : r ∈ visits [] tree.entries) :
    r.Plain := by
  obtain ⟨p, d, at_, rfl⟩ := mem_visits.mp h
  refine ⟨walkFiles_names_nodup (at_.distinct tree.distinct), ?_⟩
  intro f hf
  obtain ⟨name, _, named⟩ := name_of_walkFiles hf
  exact ⟨name, named⟩

/-- Discs of one folder have different base names, so no two folded files clash. -/
theorem merge_names_nodup {res : WalkResult} {discs : List WalkResult} (plain : res.Plain)
    (discsPlain : ∀ d ∈ discs, d.Plain) (unique : UniqueOn WalkResult.dir discs)
    (inside : ∀ d ∈ discs, isDisc d.dir = true ∧ d.dir.dir = res.dir) :
    UniqueOn WalkEntry.name (DiscMerger.merge res discs).files := by
  unfold UniqueOn DiscMerger.merge
  rw [List.map_append, List.map_flatMap, List.nodup_append, List.nodup_flatMap]
  refine ⟨plain.unique, ⟨?_, ?_⟩, ?_⟩
  · intro d hd
    have prefixed : (d.files.map (prefixedEntry d.dir.base)).map WalkEntry.name =
        (d.files.map WalkEntry.name).map (d.dir.base :: ·) := by
      simp [prefixedEntry, Function.comp_def]
    rw [prefixed]
    exact (discsPlain d hd).unique.map fun _ _ same => (List.cons.inj same).2
  · have apart : discs.Pairwise fun a b => a.dir ≠ b.dir := List.pairwise_map.mp unique
    refine apart.imp_of_mem ?_
    intro a b ha hb differ
    refine List.disjoint_left.mpr ?_
    intro name inA inB
    obtain ⟨f, hf, rfl⟩ := List.mem_map.mp inA
    obtain ⟨f', _, rfl⟩ := List.mem_map.mp hf
    obtain ⟨g, hg, same⟩ := List.mem_map.mp inB
    obtain ⟨g', _, rfl⟩ := List.mem_map.mp hg
    have bases : b.dir.base = a.dir.base := (List.cons.inj same).1
    apply differ
    rw [← dir_base_of_isDisc (inside a ha).1, ← dir_base_of_isDisc (inside b hb).1, bases,
      (inside a ha).2, (inside b hb).2]
  · intro name own other folded
    obtain ⟨f, hf, rfl⟩ := List.mem_map.mp own
    obtain ⟨d, hd, inDisc⟩ := List.mem_flatMap.mp folded
    obtain ⟨g, hg, rfl⟩ := List.mem_map.mp inDisc
    obtain ⟨g', hg', rfl⟩ := List.mem_map.mp hg
    obtain ⟨a, single⟩ := plain.single f hf
    obtain ⟨b, single'⟩ := (discsPlain d hd).single g' hg'
    simp [single, single', prefixedEntry]

/-- What the merger has put out and kept has no clashing names. -/
structure Tidy (w : Walk) : Prop where
  emitted : ∀ e ∈ w.emitted, UniqueOn WalkEntry.name e.files
  plain : ∀ d ∈ w.pending, d.Plain
  unique : UniqueOn WalkResult.dir w.pending
  discs : ∀ d ∈ w.pending, isDisc d.dir = true

theorem Tidy.step (order : MapOrder) {w : Walk} (tidy : Tidy w) {res : WalkResult}
    (plain : res.Plain) : Tidy (mergeStep order w res) := by
  unfold mergeStep
  split
  · rename_i disc
    refine ⟨tidy.emitted, ?_, ?_, ?_⟩
    · intro d hd
      rcases List.mem_append.mp hd with old | new
      · exact tidy.plain d (List.mem_of_mem_filter old)
      · obtain rfl := List.mem_singleton.mp new
        exact plain
    · apply (tidy.unique.filter _).append
      intro d hd
      simpa using (List.mem_filter.mp hd).2
    · intro d hd
      rcases List.mem_append.mp hd with old | new
      · exact tidy.discs d (List.mem_of_mem_filter old)
      · obtain rfl := List.mem_singleton.mp new
        exact disc
  · refine ⟨?_, ?_, tidy.unique.filter _, ?_⟩
    · intro e he
      rcases List.mem_append.mp he with old | new
      · exact tidy.emitted e old
      · obtain rfl := List.mem_singleton.mp new
        have visited : UniqueOn WalkResult.dir (DiscMerger.folded order res.dir w.pending) := by
          apply UniqueOn.filter
          exact ((order.perm res.dir w.pending).map WalkResult.dir).nodup_iff.mpr tidy.unique
        refine merge_names_nodup plain ?_ visited ?_
        · intro d hd
          exact tidy.plain d (DiscMerger.mem_folded.mp hd).1
        · intro d hd
          obtain ⟨inPending, parent⟩ := DiscMerger.mem_folded.mp hd
          exact ⟨tidy.discs d inPending, parent⟩
    · exact fun d hd => tidy.plain d (List.mem_of_mem_filter hd)
    · exact fun d hd => tidy.discs d (List.mem_of_mem_filter hd)

theorem tidy_foldl (order : MapOrder) {rs : List WalkResult} (plain : ∀ r ∈ rs, r.Plain)
    {w : Walk} (tidy : Tidy w) : Tidy (rs.foldl (mergeStep order) w) := by
  induction rs generalizing w with
  | nil => exact tidy
  | cons res rs ih =>
    obtain ⟨first, rest⟩ := List.forall_mem_cons.mp plain
    exact ih rest (tidy.step order first)

/-- The names in one emitted result are pairwise different. -/
theorem emitted_names_unique {order : MapOrder} {tree : Tree} {e : WalkResult}
    (he : e ∈ (walk order tree).emitted) : UniqueOn WalkEntry.name e.files := by
  have start : Tidy ⟨[], []⟩ := ⟨by simp, by simp, uniqueOn_nil _, by simp⟩
  have tidy := tidy_foldl order (fun _ hr => plain_of_visit tree hr) start
  rw [walk_eq_foldl] at he
  exact tidy.emitted e he

end Byom.Scan
