import Mathlib.Data.Finset.Card
import Mathlib.Data.List.Dedup
import Mathlib.Data.List.Perm.Lattice
import Byom.Relational.Table

/-!
# Grouping rows by a key

`groupOn` collects the rows of each key, in order, by upserts. If a key is computed from an
identity, its groups are those of the identity exactly if it tells identities apart.
-/

namespace Byom.Relational

universe u v w

variable {Row : Type u} {Key : Type v} {Ident : Type w}

/-- The rows by key, each group in the order of the rows. -/
def groupOn [DecidableEq Key] (key : Row → Key) (rows : List Row) : List (Key × List Row) :=
  rows.foldl (fun groups r =>
    upsertOn Prod.fst (fun (k, g) => (k, g ++ [r])) (key r, [r]) groups) []

/-- The groups have each row once and in order, and rows share a group exactly if they have
the same identity. -/
structure GroupedBy (ident : Row → Ident) (rows : List Row) (groups : List (List Row)) : Prop where
  each : groups.flatten.Perm rows
  order : ∀ g ∈ groups, g.Sublist rows
  share : ∀ g ∈ groups, ∀ a ∈ g, ∀ b ∈ g, ident a = ident b
  apart : groups.Pairwise fun g h => ∀ a ∈ g, ∀ b ∈ h, ident a ≠ ident b

variable {ident : Row → Ident} {rows : List Row} {groups groups' : List (List Row)}

theorem GroupedBy.perm (grouped : GroupedBy ident rows groups) (same : groups'.Perm groups) :
    GroupedBy ident rows groups' where
  each := same.flatten.trans grouped.each
  order := fun g hg => grouped.order g (same.mem_iff.mp hg)
  share := fun g hg => grouped.share g (same.mem_iff.mp hg)
  apart := (same.pairwise_iff fun away a ha b hb => (away b hb a ha).symm).mpr grouped.apart

/-- Identities that tell the same rows apart have the same groups. -/
theorem GroupedBy.congr {other : Row → Key} (grouped : GroupedBy ident rows groups)
    (same : ∀ a ∈ rows, ∀ b ∈ rows, other a = other b ↔ ident a = ident b) :
    GroupedBy other rows groups where
  each := grouped.each
  order := grouped.order
  share := fun g hg a ha b hb =>
    (same a ((grouped.order g hg).subset ha) b ((grouped.order g hg).subset hb)).mpr
      (grouped.share g hg a ha b hb)
  apart := by
    refine grouped.apart.imp_of_mem ?_
    intro g h hg hh away a ha b hb
    rw [ne_eq, same a ((grouped.order g hg).subset ha) b ((grouped.order h hh).subset hb)]
    exact away a ha b hb

/-- There are as many groups as identities. -/
theorem GroupedBy.length_eq [DecidableEq Ident] (grouped : GroupedBy ident rows groups)
    (some_ : ∀ g ∈ groups, g ≠ []) : groups.length = (rows.map ident).toFinset.card := by
  have first : ∀ g ∈ groups, ∃ a ∈ g, (g.head?).map ident = some (ident a) := by
    intro g hg
    obtain ⟨a, rest, rfl⟩ := List.exists_cons_of_ne_nil (some_ g hg)
    exact ⟨a, List.mem_cons_self, rfl⟩
  have distinct : (groups.map fun g => g.head?.map ident).Nodup := by
    refine List.pairwise_map.mpr (grouped.apart.imp_of_mem ?_)
    intro g h hg hh away same
    obtain ⟨a, ha, readA⟩ := first g hg
    obtain ⟨b, hb, readB⟩ := first h hh
    rw [readA, readB] at same
    exact away a ha b hb (Option.some.inj same)
  have same : (groups.map fun g => g.head?.map ident).toFinset =
      (rows.map ident).toFinset.image some := by
    ext i
    simp only [List.mem_toFinset, Finset.mem_image, List.mem_map]
    constructor
    · rintro ⟨g, hg, rfl⟩
      obtain ⟨a, ha, read⟩ := first g hg
      exact ⟨ident a, ⟨a, (grouped.order g hg).subset ha, rfl⟩, read.symm⟩
    · rintro ⟨_, ⟨a, ha, rfl⟩, rfl⟩
      obtain ⟨g, hg, inside⟩ := List.mem_flatten.mp (grouped.each.mem_iff.mpr ha)
      obtain ⟨b, hb, read⟩ := first g hg
      exact ⟨g, hg, read.trans (congrArg some (grouped.share g hg b hb a inside))⟩
  have count := List.toFinset_card_of_nodup distinct
  rw [same, Finset.card_image_of_injective _ (Option.some_injective _), List.length_map] at count
  exact count.symm

/-- As many groups by identity as by a key computed from it: the key tells them apart. -/
theorem GroupedBy.injOn [DecidableEq Ident] [DecidableEq Key] {f : Ident → Key}
    (grouped : GroupedBy ident rows groups) (some_ : ∀ g ∈ groups, g ≠ [])
    (keyed : GroupedBy (fun r => f (ident r)) rows groups') (some' : ∀ g ∈ groups', g ≠ [])
    (length : groups.length = groups'.length) :
    ∀ a ∈ rows, ∀ b ∈ rows, f (ident a) = f (ident b) → ident a = ident b := by
  rw [grouped.length_eq some_, keyed.length_eq some'] at length
  have images : (rows.map fun r => f (ident r)).toFinset = (rows.map ident).toFinset.image f := by
    ext k
    simp
  rw [images] at length
  have inj := Finset.card_image_iff.mp length.symm
  intro a ha b hb same
  exact inj (by simpa using ⟨a, ha, rfl⟩) (by simpa using ⟨b, hb, rfl⟩) same

section GroupOn

variable [DecidableEq Key] {key : Row → Key}

/-- What `groupOn` has collected from the rows so far. -/
structure Collected (key : Row → Key) (rows : List Row) (groups : List (Key × List Row)) : Prop where
  keys : UniqueOn Prod.fst groups
  group : ∀ e ∈ groups, e.2 = rows.filter fun r => key r = e.1
  some_ : ∀ e ∈ groups, e.2 ≠ []
  all : ∀ r ∈ rows, ∃ e ∈ groups, e.1 = key r

theorem groupOn_concat (key : Row → Key) (rows : List Row) (r : Row) :
    groupOn key (rows ++ [r]) =
      upsertOn Prod.fst (fun (k, g) => (k, g ++ [r])) (key r, [r]) (groupOn key rows) := by
  rw [groupOn, List.foldl_append]
  rfl

theorem groupOn_collected (key : Row → Key) (rows : List Row) :
    Collected key rows (groupOn key rows) := by
  induction rows using List.reverseRecOn with
  | nil => exact ⟨uniqueOn_nil _, by simp [groupOn], by simp [groupOn], by simp⟩
  | append_singleton rows r ih =>
    rw [groupOn_concat]
    refine ⟨ih.keys.upsertOn fun _ => rfl, ?_, ?_, ?_⟩
    · intro e he
      rcases mem_upsertOn he with ⟨rfl, absent⟩ | ⟨old, other⟩ | ⟨old, hold, same, rfl⟩
      · have none_ : rows.filter (fun a => key a = key r) = [] := by
          rw [List.filter_eq_nil_iff]
          intro a ha same
          obtain ⟨e, he, keyed⟩ := ih.all a ha
          exact lookup_eq_none_iff.mp absent e he (keyed.trans (by simpa using same))
        simp [none_]
      · rw [ih.group e old]
        simp [Ne.symm other]
      · have keyed : key r = old.1 := same.symm
        simp [← ih.group old hold, keyed]
    · intro e he
      rcases mem_upsertOn he with ⟨rfl, _⟩ | ⟨old, _⟩ | ⟨old, hold, _, rfl⟩
      · exact List.cons_ne_nil _ _
      · exact ih.some_ e old
      · exact List.append_ne_nil_of_right_ne_nil _ (List.cons_ne_nil _ _)
    · intro a ha
      rcases List.mem_append.mp ha with before | last
      · obtain ⟨e, he, keyed⟩ := ih.all a before
        refine ⟨_, upsertOn_keeps he, ?_⟩
        split
        · exact keyed
        · exact keyed
      · obtain rfl := List.mem_singleton.mp last
        have found : lookup Prod.fst (key a) (upsertOn Prod.fst (fun (k, g) => (k, g ++ [a]))
            (key a, [a]) (groupOn key rows)) = some _ :=
          lookup_upsertOn_self (key a, [a]) (groupOn key rows) fun _ => rfl
        exact ⟨_, mem_of_lookup found, key_of_lookup found⟩

theorem flatMap_single {keys : List Key} (distinct : keys.Nodup) {k : Key} (listed : k ∈ keys)
    (r : Row) : (keys.flatMap fun k' => if k = k' then [r] else []) = [r] := by
  induction keys with
  | nil => cases listed
  | cons first rest ih =>
    obtain ⟨new, distinct⟩ := List.nodup_cons.mp distinct
    rw [List.flatMap_cons]
    rcases List.mem_cons.mp listed with rfl | later
    · have none_ : (rest.flatMap fun k' => if k = k' then [r] else []) = [] := by
        rw [List.flatMap_eq_nil_iff]
        intro k' hk'
        have other : k ≠ k' := fun same => new (same ▸ hk')
        exact if_neg other
      rw [none_, if_pos rfl]
      rfl
    · have other : k ≠ first := fun same => new (same ▸ later)
      rw [ih distinct later, if_neg other]
      rfl

/-- The rows of every key, one key after the other, are the rows in another order. -/
theorem flatMap_filter_perm (key : Row → Key) {keys : List Key} (distinct : keys.Nodup)
    {rows : List Row} (all : ∀ r ∈ rows, key r ∈ keys) :
    (keys.flatMap fun k => rows.filter fun r => key r = k).Perm rows := by
  induction rows with
  | nil => simp
  | cons r rows ih =>
    obtain ⟨first, later⟩ := List.forall_mem_cons.mp all
    have cons : ∀ k, (r :: rows).filter (fun a => key a = k) =
        (if key r = k then [r] else []) ++ rows.filter fun a => key a = k := by
      intro k
      by_cases here : key r = k
      · simp [here]
      · simp [here]
    simp only [cons]
    have parts := List.flatMap_append_perm keys (fun k => if key r = k then [r] else [])
      fun k => rows.filter fun a => key a = k
    rw [flatMap_single distinct first r] at parts
    exact parts.symm.trans ((ih later).cons r)

/-- Rows in the order of their keys stay as they are, when the keys are taken in that order. -/
theorem flatMap_filter_eq {Key : Type v} [LinearOrder Key] {key : Row → Key} {keys : List Key}
    (increasing : keys.Pairwise (· < ·)) {rows : List Row}
    (sorted : rows.Pairwise fun a b => key a ≤ key b) (all : ∀ r ∈ rows, key r ∈ keys) :
    (keys.flatMap fun k => rows.filter fun r => key r = k) = rows := by
  induction keys generalizing rows with
  | nil =>
    cases rows with
    | nil => rfl
    | cons r rows => cases all r List.mem_cons_self
  | cons k keys ih =>
    obtain ⟨least, increasing⟩ := List.pairwise_cons.mp increasing
    have others : (keys.flatMap fun k' => rows.filter fun r => key r = k') =
        rows.filter fun r => key r ≠ k := by
      have rest : ∀ r ∈ rows.filter (fun r => key r ≠ k), key r ∈ keys := by
        intro r hr
        obtain ⟨listed, other⟩ := List.mem_filter.mp hr
        exact List.mem_of_ne_of_mem (by simpa using other) (all r listed)
      rw [← ih increasing (sorted.filter _) rest]
      refine List.flatMap_congr fun k' hk' => ?_
      rw [List.filter_filter]
      refine List.filter_congr fun r _ => ?_
      have apart : k' ≠ k := (least k' hk').ne'
      by_cases here : key r = k' <;> simp [here, apart]
    rw [List.flatMap_cons, others]
    clear ih others
    induction rows with
    | nil => rfl
    | cons r rows ih =>
      obtain ⟨below, sorted⟩ := List.pairwise_cons.mp sorted
      obtain ⟨first, later⟩ := List.forall_mem_cons.mp all
      by_cases here : key r = k
      · rw [List.filter_cons_of_pos (by simpa using here),
          List.filter_cons_of_neg (by simpa using here), List.cons_append, ih sorted later]
      · have past : ∀ a ∈ rows, key a ≠ k := by
          have above := least (key r) (List.mem_of_ne_of_mem here first)
          exact fun a ha => (above.trans_le (below a ha)).ne'
        rw [List.filter_cons_of_neg (by simpa using here),
          List.filter_cons_of_pos (by simpa using here),
          List.filter_eq_nil_iff.mpr fun a ha => by simpa using past a ha,
          List.filter_eq_self.mpr fun a ha => by simpa using past a ha]
        rfl

theorem Collected.groupedBy {groups : List (Key × List Row)} (collected : Collected key rows groups) :
    GroupedBy key rows (groups.map Prod.snd) where
  each := by
    have groups_eq : groups.map Prod.snd =
        (groups.map Prod.fst).map fun k => rows.filter fun r => key r = k := by
      rw [List.map_map]
      exact List.map_congr_left collected.group
    rw [groups_eq]
    refine flatMap_filter_perm key collected.keys fun r hr => ?_
    obtain ⟨e, he, keyed⟩ := collected.all r hr
    exact keyed ▸ List.mem_map_of_mem he
  order := by
    intro g hg
    obtain ⟨e, he, rfl⟩ := List.mem_map.mp hg
    rw [collected.group e he]
    exact List.filter_sublist
  share := by
    intro g hg a ha b hb
    obtain ⟨e, he, rfl⟩ := List.mem_map.mp hg
    rw [collected.group e he] at ha hb
    have keyA : key a = e.1 := by simpa using (List.mem_filter.mp ha).2
    have keyB : key b = e.1 := by simpa using (List.mem_filter.mp hb).2
    exact keyA.trans keyB.symm
  apart := by
    refine List.pairwise_map.mpr ((List.pairwise_map.mp collected.keys).imp_of_mem ?_)
    intro e f he hf away a ha b hb
    rw [collected.group e he] at ha
    rw [collected.group f hf] at hb
    have keyA : key a = e.1 := by simpa using (List.mem_filter.mp ha).2
    have keyB : key b = f.1 := by simpa using (List.mem_filter.mp hb).2
    rw [keyA, keyB]
    exact away

end GroupOn

end Byom.Relational
