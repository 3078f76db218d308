import Byom.Relational.Table
import Byom.Scan.PostOrder

/-!
# What the disc merger emits

The merger sees the visited results one by one. `Merged` describes its map and
its output after a prefix of them; it relies on children coming first.
-/

namespace Byom.Scan

open Storage Relational

/-- One call of `DiscMerger.process` with an `emit` that appends. -/
def mergeStep (order : MapOrder) (w : Walk) (res : WalkResult) : Walk :=
  if isDisc res.dir then
    { w with pending := w.pending.filter (fun old => old.dir ≠ res.dir) ++ [res] }
  else
    ⟨w.emitted ++ [DiscMerger.merge res (DiscMerger.folded order res.dir w.pending)],
      w.pending.filter fun disc => disc.dir.dir ≠ res.dir⟩

theorem run_process_forM (order : MapOrder) (rs : List WalkResult) (w : Walk) :
    ((rs.forM (DiscMerger.process order
        fun res => (modify (· ++ [res]) : StateM (List WalkResult) Unit))).run w.pending).run
      w.emitted =
      (((), (rs.foldl (mergeStep order) w).pending), (rs.foldl (mergeStep order) w).emitted) := by
  induction rs generalizing w with
  | nil => rfl
  | cons res rs ih =>
    rw [List.foldl_cons, ← ih (mergeStep order w res)]
    by_cases disc : isDisc res.dir = true
    · simp [DiscMerger.process, mergeStep, disc]
    · simp [DiscMerger.process, mergeStep, disc]
      rfl

/-- The merger only sees the visited results, in the order visited. -/
theorem walk_eq_foldl (order : MapOrder) (tree : Tree) :
    walk order tree = (visits [] tree.entries).foldl (mergeStep order) ⟨[], []⟩ := by
  unfold walk
  simp only [walkPostOrder_eq_forM]
  rw [run_process_forM order (visits [] tree.entries) ⟨[], []⟩]

theorem DiscMerger.mem_folded {order : MapOrder} {dir : Path} {pending : List WalkResult}
    {d : WalkResult} : d ∈ folded order dir pending ↔ d ∈ pending ∧ d.dir.dir = dir := by
  simp [folded, (order.perm dir pending).mem_iff]

theorem DiscMerger.mem_files_merge {res : WalkResult} {discs : List WalkResult} {f : WalkEntry} :
    f ∈ (merge res discs).files ↔
      f ∈ res.files ∨ ∃ d ∈ discs, ∃ g ∈ d.files, f = prefixedEntry d.dir.base g := by
  simp [merge, eq_comm]

/-- A disc folder is never the root, so it has a parent and a name. -/
theorem dir_base_of_isDisc {p : Path} (disc : isDisc p = true) : p.dir ++ [p.base] = p := by
  have nonempty : p ≠ [] := by
    rintro rfl
    exact absurd disc (by decide)
  rw [Path.dir, Path.base, List.getLast?_eq_some_getLast nonempty]
  exact List.dropLast_concat_getLast nonempty

/-- The merger after the results `done`. -/
structure Merged (done : List WalkResult) (w : Walk) : Prop where
  pending : ∀ d, d ∈ w.pending ↔ d ∈ done ∧ isDisc d.dir = true ∧
    ∀ r ∈ done, isDisc r.dir = false → r.dir ≠ d.dir.dir
  dirs : w.emitted.map WalkResult.dir =
    (done.filter fun r => !isDisc r.dir).map WalkResult.dir
  files : ∀ e ∈ w.emitted, ∃ r ∈ done, r.dir = e.dir ∧ ∀ f, f ∈ e.files ↔ f ∈ r.files ∨
    ∃ d ∈ done, isDisc d.dir = true ∧ d.dir.dir = r.dir ∧
      ∃ g ∈ d.files, f = prefixedEntry d.dir.base g

theorem Merged.nil : Merged [] ⟨[], []⟩ := ⟨by simp, rfl, by simp⟩

theorem Merged.dir_of_emitted {done : List WalkResult} {w : Walk} (merged : Merged done w)
    {e : WalkResult} (he : e ∈ w.emitted) : ∃ r ∈ done, isDisc r.dir = false ∧ r.dir = e.dir := by
  have listed : e.dir ∈ (done.filter fun r => !isDisc r.dir).map WalkResult.dir := by
    rw [← merged.dirs]
    exact List.mem_map_of_mem he
  obtain ⟨r, hr, same⟩ := List.mem_map.mp listed
  obtain ⟨inDone, ordinary⟩ := List.mem_filter.mp hr
  exact ⟨r, inDone, by simpa using ordinary, same⟩

theorem Merged.emitted_of_mem {done : List WalkResult} {w : Walk} (merged : Merged done w)
    {r : WalkResult} (hr : r ∈ done) (ordinary : isDisc r.dir = false) :
    ∃ e ∈ w.emitted, e.dir = r.dir := by
  have listed : r.dir ∈ w.emitted.map WalkResult.dir := by
    rw [merged.dirs]
    exact List.mem_map_of_mem (List.mem_filter.mpr ⟨hr, by simp [ordinary]⟩)
  exact List.mem_map.mp listed

/-- A disc folder waits in the map; no ordinary folder seen so far contains it. -/
theorem Merged.hold {done : List WalkResult} {w : Walk} {res : WalkResult}
    (merged : Merged done w) (before : ∀ a ∈ done, VisitedBefore a res)
    (disc : isDisc res.dir = true) :
    Merged (done ++ [res]) ⟨w.emitted, w.pending.filter (fun old => old.dir ≠ res.dir) ++ [res]⟩ := by
  have childless : ∀ a ∈ done, a.dir ≠ res.dir.dir := by
    intro a ha same
    apply (before a ha).2 res.dir.base
    rw [same, dir_base_of_isDisc disc]
  refine ⟨?_, ?_, ?_⟩
  · intro d
    simp only [List.mem_append, List.mem_filter, decide_eq_true_eq, List.mem_singleton,
      merged.pending]
    constructor
    · rintro (⟨⟨inDone, isDiscDir, orphan⟩, _⟩ | rfl)
      · refine ⟨.inl inDone, isDiscDir, ?_⟩
        rintro r (hr | rfl) ordinary
        · exact orphan r hr ordinary
        · simp [disc] at ordinary
      · refine ⟨.inr rfl, disc, ?_⟩
        rintro r (hr | rfl) ordinary
        · exact childless r hr
        · simp [disc] at ordinary
    · rintro ⟨inDone | rfl, isDiscDir, orphan⟩
      · exact .inl ⟨⟨inDone, isDiscDir, fun r hr => orphan r (.inl hr)⟩, (before d inDone).1⟩
      · exact .inr rfl
  · simp [merged.dirs, List.filter_append, disc]
  · intro e he
    obtain ⟨r, hr, same, contents⟩ := merged.files e he
    refine ⟨r, List.mem_append_left _ hr, same, ?_⟩
    intro f
    rw [contents]
    constructor
    · rintro (own | ⟨d, hd, rest⟩)
      · exact .inl own
      · exact .inr ⟨d, List.mem_append_left _ hd, rest⟩
    · rintro (own | ⟨d, hd, isDiscDir, parent, rest⟩)
      · exact .inl own
      · rcases List.mem_append.mp hd with inDone | here
        · exact .inr ⟨d, inDone, isDiscDir, parent, rest⟩
        · obtain rfl := List.mem_singleton.mp here
          exact absurd parent.symm (childless r hr)

/-- An ordinary folder is emitted with every disc folder directly inside it. -/
theorem Merged.emit {done : List WalkResult} {w : Walk} {res : WalkResult} (order : MapOrder)
    (merged : Merged done w) (before : ∀ a ∈ done, VisitedBefore a res)
    (ordinary : isDisc res.dir = false) :
    Merged (done ++ [res])
      ⟨w.emitted ++ [DiscMerger.merge res (DiscMerger.folded order res.dir w.pending)],
        w.pending.filter fun disc => disc.dir.dir ≠ res.dir⟩ := by
  refine ⟨?_, ?_, ?_⟩
  · intro d
    simp only [List.mem_filter, decide_eq_true_eq, merged.pending, List.mem_append,
      List.mem_singleton]
    constructor
    · rintro ⟨⟨inDone, isDiscDir, orphan⟩, apart⟩
      refine ⟨.inl inDone, isDiscDir, ?_⟩
      rintro r (hr | rfl) ordinary'
      · exact orphan r hr ordinary'
      · exact apart.symm
    · rintro ⟨inDone | rfl, isDiscDir, orphan⟩
      · exact ⟨⟨inDone, isDiscDir, fun r hr => orphan r (.inl hr)⟩,
          (orphan res (.inr rfl) ordinary).symm⟩
      · simp [ordinary] at isDiscDir
  · simp [merged.dirs, List.filter_append, ordinary, DiscMerger.merge]
  · intro e he
    rcases List.mem_append.mp he with old | new
    · obtain ⟨r, hr, same, contents⟩ := merged.files e old
      refine ⟨r, List.mem_append_left _ hr, same, ?_⟩
      intro f
      rw [contents]
      constructor
      · rintro (own | ⟨d, hd, rest⟩)
        · exact .inl own
        · exact .inr ⟨d, List.mem_append_left _ hd, rest⟩
      · rintro (own | ⟨d, hd, isDiscDir, rest⟩)
        · exact .inl own
        · rcases List.mem_append.mp hd with inDone | here
          · exact .inr ⟨d, inDone, isDiscDir, rest⟩
          · obtain rfl := List.mem_singleton.mp here
            simp [ordinary] at isDiscDir
    · obtain rfl := List.mem_singleton.mp new
      refine ⟨res, by simp, rfl, ?_⟩
      intro f
      rw [DiscMerger.mem_files_merge]
      constructor
      · rintro (own | ⟨d, hd, contents⟩)
        · exact .inl own
        · obtain ⟨inPending, parent⟩ := DiscMerger.mem_folded.mp hd
          obtain ⟨inDone, isDiscDir, _⟩ := (merged.pending d).mp inPending
          exact .inr ⟨d, List.mem_append_left _ inDone, isDiscDir, parent, contents⟩
      · rintro (own | ⟨d, hd, isDiscDir, parent, contents⟩)
        · exact .inl own
        · rcases List.mem_append.mp hd with inDone | here
          · refine .inr ⟨d, DiscMerger.mem_folded.mpr ⟨?_, parent⟩, contents⟩
            -- `d` still waits: its parent is `res`, which is new.
            refine (merged.pending d).mpr ⟨inDone, isDiscDir, ?_⟩
            intro r hr _ same
            exact (before r hr).1 (same.trans parent)
          · obtain rfl := List.mem_singleton.mp here
            simp [ordinary] at isDiscDir

theorem merged_foldl (order : MapOrder) {rest done : List WalkResult} {w : Walk}
    (merged : Merged done w) (ordered : (done ++ rest).Pairwise VisitedBefore) :
    Merged (done ++ rest) (rest.foldl (mergeStep order) w) := by
  induction rest generalizing done w with
  | nil => simpa using merged
  | cons res rest ih =>
    have before : ∀ a ∈ done, VisitedBefore a res := by
      intro a ha
      exact (List.pairwise_append.mp ordered).2.2 a ha res (List.mem_cons_self ..)
    have next : Merged (done ++ [res]) (mergeStep order w res) := by
      unfold mergeStep
      split
      · exact merged.hold before ‹_›
      · exact merged.emit order before (by simpa using ‹¬ isDisc res.dir = true›)
    have := ih next (by simpa using ordered)
    simpa using this

theorem walk_merged (order : MapOrder) (tree : Tree) :
    Merged (visits [] tree.entries) (walk order tree) := by
  rw [walk_eq_foldl]
  exact merged_foldl order Merged.nil (visits_pairwise tree.distinct)

theorem visits_dir_nodup (tree : Tree) : UniqueOn WalkResult.dir (visits [] tree.entries) := by
  unfold UniqueOn
  rw [List.Nodup, List.pairwise_map]
  exact (visits_pairwise tree.distinct).imp fun before => before.1

/-- A directory is emitted at most once. -/
theorem emitted_dir_unique (order : MapOrder) (tree : Tree) :
    UniqueOn WalkResult.dir (walk order tree).emitted := by
  unfold UniqueOn
  rw [(walk_merged order tree).dirs]
  exact (visits_dir_nodup tree).filter _

end Byom.Scan
