import Mathlib.Data.List.Nodup
import Byom.Scan.Walk

/-!
# The results a walk visits

`visits` lists what `walkPostOrder` hands to its callback. Directories are
visited once each, and never after a directory they are directly inside of.
-/

namespace Byom.Scan

open Storage

namespace Entries

def subdirs : Entries → List (String × Entries)
  | .nil => []
  | .file _ _ _ rest => rest.subdirs
  | .dir name sub rest => (name, sub) :: rest.subdirs

/-- The names of the regular files, each with what a stat returns. -/
def regularFiles : Entries → List (String × Option FileInfo)
  | .nil => []
  | .file name regular info rest =>
    if regular then (name, info) :: rest.regularFiles else rest.regularFiles
  | .dir _ _ rest => rest.regularFiles

/-- `DirAt root p d`: the directory `d` is at `p`, and no component of `p` is hidden. -/
inductive DirAt : Entries → Path → Entries → Prop
  | here (e : Entries) : DirAt e [] e
  | inside {e sub d : Entries} {name : String} {p : Path} :
      (name, sub) ∈ e.subdirs → hidden name = false → DirAt sub p d → DirAt e (name :: p) d

theorem DirAt.parent {root d : Entries} {p : Path} {name : String}
    (h : DirAt root (p ++ [name]) d) : ∃ parent, DirAt root p parent := by
  induction p generalizing root with
  | nil => exact ⟨root, .here root⟩
  | cons first p ih =>
    cases h with
    | inside member shown rest =>
      obtain ⟨parent, found⟩ := ih rest
      exact ⟨parent, .inside member shown found⟩

/-- The file `name` is regular, not hidden, and of a recognised kind, and lies in
a directory reached without passing a hidden one. -/
structure MediaAt (root : Entries) (p : Path) (name : String) (kind : FileKind) : Prop where
  listed : ∃ d info, DirAt root p d ∧ (name, info) ∈ d.regularFiles
  shown : hidden name = false
  recognised : classifyKind name = some kind

end Entries

theorem mem_walkFiles {e : Entries} {f : WalkEntry} :
    f ∈ walkFiles e ↔ ∃ name kind info, (name, info) ∈ e.regularFiles ∧ hidden name = false ∧
      classifyKind name = some kind ∧ f = ⟨[name], kind, info⟩ := by
  induction e with
  | nil => simp [walkFiles, Entries.regularFiles]
  | dir name sub rest _ ih => exact ih
  | file name regular info rest ih =>
    unfold walkFiles
    by_cases skip : (!regular || hidden name) = true
    · rw [if_pos skip, ih]
      cases regular with
      | false => rfl
      | true =>
        have isHidden : hidden name = true := by simpa using skip
        constructor
        · rintro ⟨other, kind, found, member, rest⟩
          exact ⟨other, kind, found, by simp [Entries.regularFiles, member], rest⟩
        · rintro ⟨other, kind, found, member, shown, rest⟩
          have apart : other ≠ name := by rintro rfl; simp [isHidden] at shown
          exact ⟨other, kind, found, by simpa [Entries.regularFiles, apart] using member,
            shown, rest⟩
    · rw [if_neg skip]
      obtain ⟨rfl, shown⟩ : regular = true ∧ hidden name = false := by simpa using skip
      cases found : classifyKind name with
      | none =>
        simp only [ih, Entries.regularFiles, if_true, List.mem_cons, Prod.mk.injEq]
        constructor
        · rintro ⟨other, kind, info', member, rest⟩
          exact ⟨other, kind, info', .inr member, rest⟩
        · rintro ⟨other, kind, info', ⟨rfl, rfl⟩ | member, shown', recognised, same⟩
          · simp [found] at recognised
          · exact ⟨other, kind, info', member, shown', recognised, same⟩
      | some kind =>
        simp only [List.mem_cons, ih, Entries.regularFiles, if_true, Prod.mk.injEq]
        constructor
        · rintro (rfl | ⟨other, kind', info', member, rest⟩)
          · exact ⟨name, kind, info, .inl ⟨rfl, rfl⟩, shown, found, rfl⟩
          · exact ⟨other, kind', info', .inr member, rest⟩
        · rintro ⟨other, kind', info', ⟨rfl, rfl⟩ | member, shown', recognised, rfl⟩
          · obtain rfl : kind = kind' := by simpa [found] using recognised
            exact .inl rfl
          · exact .inr ⟨other, kind', info', member, shown', recognised, rfl⟩

/-- The results of the directories strictly inside `dir`, in the order visited. -/
def visitsBelow (dir : Path) : Entries → List WalkResult
  | .nil => []
  | .file _ _ _ rest => visitsBelow dir rest
  | .dir name sub rest =>
    if hidden name then visitsBelow dir rest
    else visitsBelow (dir ++ [name]) sub ++
      ⟨dir ++ [name], walkFiles sub⟩ :: visitsBelow dir rest

def visits (dir : Path) (e : Entries) : List WalkResult :=
  visitsBelow dir e ++ [⟨dir, walkFiles e⟩]

section Monadic

variable {m : Type → Type} [Monad m] [LawfulMonad m]

theorem walkDirs_eq_forM (process : WalkResult → m Unit) (dir : Path) (e : Entries) :
    walkDirs process dir e = (visitsBelow dir e).forM process := by
  induction e generalizing dir with
  | nil => rfl
  | file name regular info rest ih => exact ih dir
  | dir name sub rest ihSub ihRest =>
    unfold walkDirs visitsBelow
    split
    · exact ihRest dir
    · simp [ihSub, ihRest]

theorem walkPostOrder_eq_forM (process : WalkResult → m Unit) (dir : Path) (e : Entries) :
    walkPostOrder process dir e = (visits dir e).forM process := by
  simp [walkPostOrder, visits, walkDirs_eq_forM]

end Monadic

/-- Every directory visited below `dir` starts with `dir` and one of its names. -/
theorem prefix_of_visitsBelow {dir : Path} {e : Entries} {r : WalkResult}
    (h : r ∈ visitsBelow dir e) : ∃ name ∈ e.names, dir ++ [name] <+: r.dir := by
  induction e generalizing dir with
  | nil => simp [visitsBelow] at h
  | file name regular info rest ih =>
    obtain ⟨other, member, isPrefix⟩ := ih h
    exact ⟨other, List.mem_cons_of_mem _ member, isPrefix⟩
  | dir name sub rest ihSub ihRest =>
    unfold visitsBelow at h
    split at h
    · obtain ⟨other, member, isPrefix⟩ := ihRest h
      exact ⟨other, List.mem_cons_of_mem _ member, isPrefix⟩
    · rcases List.mem_append.mp h with inSub | here
      · obtain ⟨other, _, isPrefix⟩ := ihSub inSub
        exact ⟨name, by simp [Entries.names], (List.prefix_append _ _).trans isPrefix⟩
      · rcases List.mem_cons.mp here with rfl | inRest
        · exact ⟨name, by simp [Entries.names], List.prefix_refl _⟩
        · obtain ⟨other, member, isPrefix⟩ := ihRest inRest
          exact ⟨other, List.mem_cons_of_mem _ member, isPrefix⟩

theorem mem_visitsBelow {dir : Path} {e : Entries} {r : WalkResult} :
    r ∈ visitsBelow dir e ↔
      ∃ p d, p ≠ [] ∧ e.DirAt p d ∧ r = ⟨dir ++ p, walkFiles d⟩ := by
  induction e generalizing dir with
  | nil =>
    simp only [visitsBelow, List.not_mem_nil, false_iff]
    rintro ⟨p, d, nonempty, at_, rfl⟩
    cases at_ with
    | here => exact nonempty rfl
    | inside member => simp [Entries.subdirs] at member
  | file name regular info rest ih =>
    simp only [visitsBelow, ih]
    -- A file adds no subdirectory, so both sides reach the same directories.
    constructor <;>
    · rintro ⟨p, d, nonempty, at_, rfl⟩
      cases at_ with
      | here => exact absurd rfl nonempty
      | inside member shown below => exact ⟨_, d, nonempty, .inside member shown below, rfl⟩
  | dir name sub rest ihSub ihRest =>
    have split : ∀ p d, p ≠ [] → ((Entries.dir name sub rest).DirAt p d ↔
        rest.DirAt p d ∨ ∃ q, p = name :: q ∧ hidden name = false ∧ sub.DirAt q d) := by
      intro p d nonempty
      constructor
      · intro at_
        cases at_ with
        | here => exact absurd rfl nonempty
        | inside member shown below =>
          rcases List.mem_cons.mp member with same | inRest
          · obtain ⟨rfl, rfl⟩ := Prod.mk.inj same
            exact .inr ⟨_, rfl, shown, below⟩
          · exact .inl (.inside inRest shown below)
      · rintro (at_ | ⟨q, rfl, shown, below⟩)
        · cases at_ with
          | here => exact absurd rfl nonempty
          | inside member shown below => exact .inside (List.mem_cons_of_mem _ member) shown below
        · exact .inside (List.mem_cons_self ..) shown below
    unfold visitsBelow
    by_cases isHidden : hidden name = true
    · rw [if_pos isHidden, ihRest]
      constructor
      · rintro ⟨p, d, nonempty, at_, rfl⟩
        exact ⟨p, d, nonempty, (split p d nonempty).mpr (.inl at_), rfl⟩
      · rintro ⟨p, d, nonempty, at_, rfl⟩
        rcases (split p d nonempty).mp at_ with at_ | ⟨q, rfl, shown, _⟩
        · exact ⟨p, d, nonempty, at_, rfl⟩
        · simp [isHidden] at shown
    · have shown : hidden name = false := by simpa using isHidden
      rw [if_neg isHidden, List.mem_append, List.mem_cons, ihSub, ihRest]
      constructor
      · rintro (⟨p, d, _, at_, rfl⟩ | rfl | ⟨p, d, nonempty, at_, rfl⟩)
        · exact ⟨name :: p, d, by simp, .inside (List.mem_cons_self ..) shown at_, by simp⟩
        · exact ⟨[name], sub, by simp, .inside (List.mem_cons_self ..) shown (.here _), rfl⟩
        · exact ⟨p, d, nonempty, (split p d nonempty).mpr (.inl at_), rfl⟩
      · rintro ⟨p, d, nonempty, at_, rfl⟩
        rcases (split p d nonempty).mp at_ with at_ | ⟨q, rfl, _, below⟩
        · exact .inr (.inr ⟨p, d, nonempty, at_, rfl⟩)
        · cases q with
          | nil =>
            cases below
            exact .inr (.inl rfl)
          | cons first q => exact .inl ⟨first :: q, d, by simp, below, by simp⟩

theorem mem_visits {e : Entries} {r : WalkResult} :
    r ∈ visits [] e ↔ ∃ p d, e.DirAt p d ∧ r = ⟨p, walkFiles d⟩ := by
  simp only [visits, List.mem_append, List.mem_singleton, mem_visitsBelow, List.nil_append]
  constructor
  · rintro (⟨p, d, _, at_, rfl⟩ | rfl)
    · exact ⟨p, d, at_, rfl⟩
    · exact ⟨[], e, .here e, rfl⟩
  · rintro ⟨p, d, at_, rfl⟩
    cases p with
    | nil =>
      cases at_
      exact .inr rfl
    | cons first p => exact .inl ⟨first :: p, d, by simp, at_, rfl⟩

theorem eq_of_common_child {dir q : Path} {a b : String} (ha : dir ++ [a] <+: q)
    (hb : dir ++ [b] <+: q) : a = b := by
  have same := (List.prefix_of_prefix_length_le ha hb (by simp)).eq_of_length (by simp)
  simpa using same

/-- The later directory is neither the earlier one nor below it. -/
def NotBelow (a b : WalkResult) : Prop := ¬ a.dir <+: b.dir

theorem notBelow_of_siblings {dir : Path} {x y : String} {a b : WalkResult} (apart : x ≠ y)
    (ha : dir ++ [x] <+: a.dir) (hb : dir ++ [y] <+: b.dir) : NotBelow a b :=
  fun below => apart (eq_of_common_child (ha.trans below) hb)

theorem notBelow_of_prefix {dir : Path} {x : String} {a b : WalkResult} (hb : b.dir = dir)
    (ha : dir ++ [x] <+: a.dir) : NotBelow a b := by
  intro below
  have longer := (ha.trans below).length_le
  rw [hb, List.length_append, List.length_singleton] at longer
  omega

theorem visitsBelow_notBelow {dir : Path} {e : Entries} (distinct : e.Distinct) :
    (visitsBelow dir e).Pairwise NotBelow := by
  induction e generalizing dir with
  | nil => exact .nil
  | file name regular info rest ih => exact ih distinct.2
  | dir name sub rest ihSub ihRest =>
    obtain ⟨new, subDistinct, restDistinct⟩ := distinct
    unfold visitsBelow
    split
    · exact ihRest restDistinct
    · -- Everything in `rest` lies under a name other than `name`.
      have later : ∀ a : WalkResult, dir ++ [name] <+: a.dir → ∀ b ∈ visitsBelow dir rest,
          NotBelow a b := by
        intro a ha b hb
        obtain ⟨other, member, isPrefix⟩ := prefix_of_visitsBelow hb
        have apart : name ≠ other := by rintro rfl; exact new member
        exact notBelow_of_siblings apart ha isPrefix
      rw [List.pairwise_append]
      refine ⟨ihSub subDistinct, List.pairwise_cons.mpr
        ⟨fun b hb => later _ (List.prefix_refl _) b hb, ihRest restDistinct⟩, ?_⟩
      intro a ha b hb
      obtain ⟨x, _, below⟩ := prefix_of_visitsBelow ha
      rcases List.mem_cons.mp hb with rfl | inRest
      · exact notBelow_of_prefix rfl below
      · exact later a ((List.prefix_append _ _).trans below) b inRest

theorem visits_notBelow {e : Entries} (distinct : e.Distinct) :
    (visits [] e).Pairwise NotBelow := by
  rw [visits, List.pairwise_append]
  refine ⟨visitsBelow_notBelow distinct, by simp, ?_⟩
  intro a ha b hb
  obtain ⟨x, _, below⟩ := prefix_of_visitsBelow ha
  obtain rfl := List.mem_singleton.mp hb
  exact notBelow_of_prefix rfl below

/-- What an earlier and a later visit have in common: different directories, and
the later one is not directly inside the earlier one. -/
def VisitedBefore (a b : WalkResult) : Prop :=
  a.dir ≠ b.dir ∧ ∀ name, b.dir ≠ a.dir ++ [name]

theorem NotBelow.visitedBefore {a b : WalkResult} (apart : NotBelow a b) : VisitedBefore a b := by
  refine ⟨?_, ?_⟩
  · intro same
    exact apart (same ▸ List.prefix_refl _)
  · intro name same
    exact apart (same ▸ List.prefix_append _ _)

theorem visits_pairwise {e : Entries} (distinct : e.Distinct) :
    (visits [] e).Pairwise VisitedBefore :=
  (visits_notBelow distinct).imp NotBelow.visitedBefore

end Byom.Scan
