import Byom.Scan.DiscMerging

/-!
# Which media files a walk emits

Every media file is emitted once, except in a disc folder that lies directly
inside another disc folder: the inner one waits for a parent that is never
emitted, and its files stay in the merger's map.
-/

namespace Byom.Scan

open Storage Relational

/-- The emitted result names the file at the path `q`. -/
def WalkResult.holds (r : WalkResult) (q : Path) : Bool :=
  r.files.any fun f => r.dir ++ f.name = q

/-- Every media file is in exactly one emitted result, and the merger keeps none. -/
structure DropsNothing (w : Walk) (tree : Tree) : Prop where
  emitted : ∀ p name kind, tree.entries.MediaAt p name kind →
    (w.emitted.filter fun r => r.holds (p ++ [name])).length = 1
  flushed : ∀ r ∈ w.pending, r.files = []

/-- No media file lies in a disc folder directly inside a disc folder. -/
def NoNestedDisc (tree : Tree) : Prop :=
  ∀ p name kind, tree.entries.MediaAt p name kind → isDisc p = true → isDisc p.dir = false

theorem WalkResult.holds_iff {r : WalkResult} {q : Path} :
    r.holds q = true ↔ ∃ f ∈ r.files, r.dir ++ f.name = q := by
  simp [holds]

theorem visit_of_media {tree : Tree} {p : Path} {name : String} {kind : FileKind}
    (media : tree.entries.MediaAt p name kind) :
    ∃ r ∈ visits [] tree.entries, r.dir = p ∧ ∃ f ∈ r.files, f.name = [name] := by
  obtain ⟨d, info, at_, listed⟩ := media.listed
  exact ⟨⟨p, walkFiles d⟩, mem_visits.mpr ⟨p, d, at_, rfl⟩, rfl, _,
    mem_walkFiles.mpr ⟨name, kind, info, listed, media.shown, media.recognised, rfl⟩, rfl⟩

theorem media_of_visit {tree : Tree} {r : WalkResult} (hr : r ∈ visits [] tree.entries)
    {f : WalkEntry} (hf : f ∈ r.files) :
    ∃ name, f.name = [name] ∧ tree.entries.MediaAt r.dir name f.kind := by
  obtain ⟨p, d, at_, rfl⟩ := mem_visits.mp hr
  obtain ⟨name, kind, info, listed, shown, recognised, rfl⟩ := mem_walkFiles.mp hf
  exact ⟨name, rfl, ⟨d, info, at_, listed⟩, shown, recognised⟩

theorem parent_visit {tree : Tree} {r : WalkResult} (hr : r ∈ visits [] tree.entries)
    (disc : isDisc r.dir = true) : ∃ parent ∈ visits [] tree.entries, parent.dir = r.dir.dir := by
  obtain ⟨p, d, at_, rfl⟩ := mem_visits.mp hr
  rw [← dir_base_of_isDisc (p := p) disc] at at_
  obtain ⟨above, found⟩ := at_.parent
  exact ⟨_, mem_visits.mpr ⟨_, above, found, rfl⟩, rfl⟩

section

variable {order : MapOrder} {tree : Tree} {e : WalkResult} {p : Path} {name : String}

/-- An emitted file is one of the folder's own, or of a disc folder directly inside it. -/
theorem holds_emitted_iff (he : e ∈ (walk order tree).emitted) :
    e.holds (p ++ [name]) = true ↔
      ∃ r ∈ visits [] tree.entries, r.dir = p ∧ (∃ f ∈ r.files, f.name = [name]) ∧
        (r.dir = e.dir ∨ isDisc r.dir = true ∧ r.dir.dir = e.dir) := by
  obtain ⟨own, hown, same, contents⟩ := (walk_merged order tree).files e he
  rw [WalkResult.holds_iff]
  constructor
  · rintro ⟨f, hf, path⟩
    rcases (contents f).mp hf with inOwn | ⟨d, hd, isDiscDir, parent, g, hg, rfl⟩
    · obtain ⟨other, named, _⟩ := media_of_visit hown inOwn
      rw [named, ← same] at path
      obtain ⟨rfl, rfl⟩ : own.dir = p ∧ other = name := by simpa using path
      exact ⟨own, hown, rfl, ⟨f, inOwn, named⟩, .inl same⟩
    · obtain ⟨other, named, _⟩ := media_of_visit hd hg
      have path' : d.dir ++ [other] = p ++ [name] := by
        rw [← path, ← same, ← parent, prefixedEntry, named]
        conv_lhs => rw [← dir_base_of_isDisc isDiscDir]
        simp
      obtain ⟨rfl, rfl⟩ : d.dir = p ∧ other = name := by simpa using path'
      exact ⟨d, hd, rfl, ⟨g, hg, named⟩, .inr ⟨isDiscDir, parent.trans same⟩⟩
  · rintro ⟨r, hr, rfl, ⟨f, hf, named⟩, sameDir | ⟨isDiscDir, parent⟩⟩
    · obtain rfl : r = own := (visits_dir_nodup tree).eq_of_key hr hown (sameDir.trans same.symm)
      exact ⟨f, (contents f).mpr (.inl hf), by rw [named, sameDir]⟩
    · refine ⟨prefixedEntry r.dir.base f,
        (contents _).mpr (.inr ⟨r, hr, isDiscDir, parent.trans same.symm, f, hf, rfl⟩), ?_⟩
      rw [← parent, prefixedEntry, named]
      conv_rhs => rw [← dir_base_of_isDisc isDiscDir]
      simp

/-- Two emitted results that hold one file are the same directory. -/
theorem dir_eq_of_holds {a b : WalkResult} (ha : a ∈ (walk order tree).emitted)
    (hb : b ∈ (walk order tree).emitted) (holdsA : a.holds (p ++ [name]) = true)
    (holdsB : b.holds (p ++ [name]) = true) : a.dir = b.dir := by
  have ordinary : ∀ e ∈ (walk order tree).emitted, isDisc e.dir = false := by
    intro e he
    obtain ⟨r, _, ordinary, same⟩ := (walk_merged order tree).dir_of_emitted he
    rw [← same]
    exact ordinary
  obtain ⟨r, _, rfl, _, fromA⟩ := (holds_emitted_iff ha).mp holdsA
  obtain ⟨s, _, same, _, fromB⟩ := (holds_emitted_iff hb).mp holdsB
  rw [same] at fromB
  rcases fromA with ownA | ⟨discA, parentA⟩ <;> rcases fromB with ownB | ⟨discB, parentB⟩
  · exact ownA.symm.trans ownB
  · simp [ownA, ordinary a ha] at discB
  · simp [ownB, ordinary b hb] at discA
  · exact parentA.symm.trans parentB

end

theorem emitted_once_of_noNestedDisc {order : MapOrder} {tree : Tree} (flat : NoNestedDisc tree)
    {p : Path} {name : String} {kind : FileKind} (media : tree.entries.MediaAt p name kind) :
    ((walk order tree).emitted.filter fun r => r.holds (p ++ [name])).length = 1 := by
  have merged := walk_merged order tree
  obtain ⟨r, hr, rfl, named⟩ := visit_of_media media
  -- The folder that takes the file: its own, or the one around its disc folder.
  obtain ⟨e, he, takes⟩ : ∃ e ∈ (walk order tree).emitted,
      r.dir = e.dir ∨ isDisc r.dir = true ∧ r.dir.dir = e.dir := by
    by_cases disc : isDisc r.dir = true
    · obtain ⟨parent, hparent, above⟩ := parent_visit hr disc
      have ordinary : isDisc parent.dir = false := by
        rw [above]
        exact flat r.dir name kind media disc
      obtain ⟨e, he, same⟩ := merged.emitted_of_mem hparent ordinary
      exact ⟨e, he, .inr ⟨disc, (same.trans above).symm⟩⟩
    · obtain ⟨e, he, same⟩ := merged.emitted_of_mem hr (by simpa using disc)
      exact ⟨e, he, .inl same.symm⟩
  have holds := (holds_emitted_iff he).mpr ⟨r, hr, rfl, named, takes⟩
  rw [(emitted_dir_unique order tree).filter_eq_singleton he holds
    fun a ha holdsA => dir_eq_of_holds ha he holdsA holds]
  rfl

theorem flushed_of_noNestedDisc {order : MapOrder} {tree : Tree} (flat : NoNestedDisc tree)
    {r : WalkResult} (hr : r ∈ (walk order tree).pending) : r.files = [] := by
  obtain ⟨visited, disc, orphan⟩ := ((walk_merged order tree).pending r).mp hr
  obtain ⟨parent, hparent, above⟩ := parent_visit visited disc
  apply List.eq_nil_iff_forall_not_mem.mpr
  intro f hf
  obtain ⟨name, _, media⟩ := media_of_visit visited hf
  have ordinary := flat r.dir name f.kind media disc
  exact orphan parent hparent (by rw [above]; exact ordinary) above

theorem noNestedDisc_of_flushed {order : MapOrder} {tree : Tree}
    (flushed : ∀ r ∈ (walk order tree).pending, r.files = []) : NoNestedDisc tree := by
  intro p name kind media disc
  obtain ⟨r, hr, rfl, f, hf, _⟩ := visit_of_media media
  by_contra nested
  have waiting : r ∈ (walk order tree).pending := by
    refine ((walk_merged order tree).pending r).mpr ⟨hr, disc, ?_⟩
    intro s _ ordinary same
    rw [same] at ordinary
    exact nested ordinary
  rw [flushed r waiting] at hf
  simp at hf

/-- A walk drops no media file exactly when no disc folder with media in it lies
directly inside another disc folder. -/
theorem walk_dropsNothing_iff (order : MapOrder) (tree : Tree) :
    DropsNothing (walk order tree) tree ↔ NoNestedDisc tree :=
  ⟨fun drops => noNestedDisc_of_flushed drops.flushed,
    fun flat => ⟨fun _ _ _ media => emitted_once_of_noNestedDisc flat media,
      fun _ hr => flushed_of_noNestedDisc flat hr⟩⟩

/-- `Album/CD1/CD2/01.flac`. -/
def nestedDiscs : Tree where
  entries := .dir "Album" (.dir "CD1" (.dir "CD2" (.file "01.flac" true none .nil) .nil) .nil) .nil
  distinct := by decide

theorem nestedDiscs_dropped :
    ¬ ∀ order tree, DropsNothing (walk order tree) tree := by
  intro drops
  have left : (⟨["Album", "CD1", "CD2"], [⟨["01.flac"], .audio, none⟩]⟩ : WalkResult) ∈
      (walk .insertion nestedDiscs).pending := by decide
  exact absurd ((drops .insertion nestedDiscs).flushed _ left) (by simp)

end Byom.Scan
