import Mathlib.Data.List.Sort

/-!
# Keyset pages over a changing table

A page is what comes after a key, in order and up to a limit, and the key of its
last row leads to the next page if there is more. `follow` reads one page after the
other, each from a table of its own.
-/

namespace Byom.Paging

universe u v

variable {Row : Type u} {Key : Type v} (before : Key → Key → Prop) [DecidableRel before]
  (key : Row → Key)

/-- `ORDER BY key`. -/
def ordered (rows : List Row) : List Row :=
  rows.insertionSort fun a b => ¬before (key b) (key a)

/-- Without a cursor every key is on the pages that follow. -/
def After : Option Key → Key → Prop
  | none, _ => True
  | some cursor, k => before cursor k

instance (cursor : Option Key) : DecidablePred (After before cursor) :=
  match cursor with
  | none => fun _ => .isTrue trivial
  | some cursor => fun k => inferInstanceAs (Decidable (before cursor k))

/-- `WHERE key > cursor ORDER BY key`. -/
def rowsAfter (cursor : Option Key) (rows : List Row) : List Row :=
  ordered before key (rows.filter fun x => After before cursor (key x))

/-- The rows of a page, and the key the next one starts after. -/
def page (cursor : Option Key) (limit : Nat) (rows : List Row) : List Row × Option Key :=
  let got := (rowsAfter before key cursor rows).take (limit + 1)
  if limit < got.length then (got.take limit, (got.take limit).getLast?.map key)
  else (got, none)

/-- The pages from a cursor on, and whether the last of them was. -/
def follow : Option Key → List (List Row × Nat) → List (List Row) × Bool
  | _, [] => ([], false)
  | cursor, (rows, limit) :: rest =>
    match page before key cursor limit rows with
    | (got, none) => ([got], true)
    | (got, some last) =>
      let (pages, ended) := follow (some last) rest
      (got :: pages, ended)

variable {before key} {cursor : Option Key} {limit : Nat} {rows : List Row}
  {inputs : List (List Row × Nat)} {x : Row} {k : Key}

@[simp] theorem mem_ordered : x ∈ ordered before key rows ↔ x ∈ rows := List.mem_insertionSort _

theorem ordered_perm (rows : List Row) : (ordered before key rows).Perm rows :=
  List.perm_insertionSort _ rows

@[simp] theorem mem_rowsAfter :
    x ∈ rowsAfter before key cursor rows ↔ x ∈ rows ∧ After before cursor (key x) := by
  simp [rowsAfter]

/-- Without a cursor nothing is left out. -/
theorem rowsAfter_none : rowsAfter before key none rows = ordered before key rows := by
  have all : rows.filter (fun x => After before none (key x)) = rows :=
    List.filter_eq_self.mpr fun _ _ => decide_eq_true trivial
  rw [rowsAfter, all]

/-- Where no row of a kind comes after one of the other, its rows lead. -/
theorem leading_append {kind : Row → Bool}
    (leads : rows.Pairwise fun a b => kind b = true → kind a = true) :
    rows = rows.filter kind ++ rows.filter fun x => !kind x := by
  induction rows with
  | nil => rfl
  | cons x rest ih =>
    obtain ⟨first, later⟩ := List.pairwise_cons.mp leads
    cases own : kind x with
    | true => simpa [own] using ih later
    | false =>
      have others : ∀ y ∈ rest, kind y = false := by
        intro y member
        cases other : kind y with
        | false => rfl
        | true => exact absurd (first y member other) (by simp [own])
      have none_ : rest.filter kind = [] := by simpa using others
      have all : (rest.filter fun y => !kind y) = rest := by simpa using others
      simp [own, none_, all]

/-! ### One page -/

theorem page_sublist {got : List Row} {next : Option Key}
    (h : page before key cursor limit rows = (got, next)) :
    got.Sublist (rowsAfter before key cursor rows) := by
  unfold page at h
  simp only at h
  split at h
  · obtain ⟨rfl, _⟩ := Prod.mk.inj h
    exact (List.take_sublist _ _).trans (List.take_sublist _ _)
  · obtain ⟨rfl, _⟩ := Prod.mk.inj h
    exact List.take_sublist _ _

theorem page_rows (before : Key → Key → Prop) [DecidableRel before] (key : Row → Key)
    (cursor : Option Key) (limit : Nat) (rows : List Row) :
    (page before key cursor limit rows).1 = (rowsAfter before key cursor rows).take limit := by
  unfold page
  simp only
  split
  · rw [List.take_take, min_eq_left (Nat.le_succ limit)]
  · rename_i fits
    rw [List.length_take] at fits
    rw [List.take_of_length_le (by omega), List.take_of_length_le (by omega)]

/-- The last page has all that is left. -/
theorem page_last {got : List Row} (h : page before key cursor limit rows = (got, none))
    (positive : 0 < limit) : got = rowsAfter before key cursor rows := by
  unfold page at h
  simp only at h
  split at h
  · rename_i more
    obtain ⟨_, ended⟩ := Prod.mk.inj h
    rw [Option.map_eq_none_iff, List.getLast?_eq_none_iff, List.take_eq_nil_iff] at ended
    rcases ended with zero | empty
    · omega
    · simp [empty] at more
  · rename_i fits
    obtain ⟨rfl, _⟩ := Prod.mk.inj h
    rw [List.length_take] at fits
    exact List.take_of_length_le (by omega)

/-- Any other page is cut at its last key: what comes after is all after it. -/
theorem page_more {got : List Row} {last : Key}
    (h : page before key cursor limit rows = (got, some last)) :
    got = (rowsAfter before key cursor rows).take limit ∧
      limit < (rowsAfter before key cursor rows).length ∧ ∃ x ∈ got, key x = last ∧
        got.getLast? = some x := by
  have cut := page_rows before key cursor limit rows
  rw [h] at cut
  unfold page at h
  simp only at h
  split at h
  · rename_i more
    obtain ⟨rfl, ends⟩ := Prod.mk.inj h
    obtain ⟨x, found, rfl⟩ := Option.map_eq_some_iff.mp ends
    rw [List.length_take] at more
    exact ⟨cut, by omega, x, List.mem_of_getLast? found, rfl, found⟩
  · cases h

section Order

variable [IsStrictTotalOrder Key before]

theorem ordered_weak (rows : List Row) :
    (ordered before key rows).Pairwise fun a b => ¬before (key b) (key a) := by
  have : Std.Total fun a b : Row => ¬before (key b) (key a) := by
    refine ⟨fun a b => ?_⟩
    rw [← not_and_or]
    exact fun both => asymm_of before both.1 both.2
  have : IsTrans Row fun a b => ¬before (key b) (key a) := by
    refine ⟨fun a b c ab bc ca => ?_⟩
    rcases trichotomous_of before (key a) (key b) with less | same | more
    · exact bc (trans_of before ca less)
    · exact bc (same ▸ ca)
    · exact ab more
  exact List.pairwise_insertionSort _ rows

/-- Rows with keys of their own are in strict order. -/
theorem ordered_pairwise (distinct : (rows.map key).Nodup) :
    (ordered before key rows).Pairwise fun a b => before (key a) (key b) := by
  have apart : (ordered before key rows).Pairwise fun a b => key a ≠ key b := by
    have nodup : ((ordered before key rows).map key).Nodup :=
      ((ordered_perm rows).map key).nodup_iff.mpr distinct
    exact List.pairwise_map.mp nodup
  refine (ordered_weak rows).imp₂ ?_ apart
  intro a b later other
  rcases trichotomous_of before (key a) (key b) with less | same | more
  · exact less
  · exact absurd same other
  · exact absurd more later

theorem rowsAfter_pairwise (distinct : (rows.map key).Nodup) (cursor : Option Key) :
    (rowsAfter before key cursor rows).Pairwise fun a b => before (key a) (key b) :=
  ordered_pairwise (distinct.sublist ((List.filter_sublist).map key))

omit [DecidableRel before] in
theorem After.trans {last : Key} (first : After before cursor last) (second : before last k) :
    After before cursor k := by
  cases cursor with
  | none => trivial
  | some c => exact trans_of before first second

theorem page_before {got : List Row} {last : Key} (distinct : (rows.map key).Nodup)
    (h : page before key cursor limit rows = (got, some last)) :
    ∀ x ∈ got, key x = last ∨ before (key x) last := by
  obtain ⟨cut, _, y, hy, rfl, ends⟩ := page_more h
  have sorted : got.Pairwise fun a b => before (key a) (key b) :=
    cut ▸ (rowsAfter_pairwise distinct cursor).sublist (List.take_sublist _ _)
  have split : got = got.dropLast ++ [y] := (List.dropLast_append_getLast? y ends).symm
  intro x hx
  rw [split] at sorted hx
  rcases List.mem_append.mp hx with earlier | same
  · exact .inr ((List.pairwise_append.mp sorted).2.2 x earlier y (by simp))
  · rw [List.mem_singleton.mp same]
    exact .inl rfl

/-- What a page leaves out comes after its last key. -/
theorem page_drop {got : List Row} {last : Key} (distinct : (rows.map key).Nodup)
    (h : page before key cursor limit rows = (got, some last)) :
    ∀ x ∈ (rowsAfter before key cursor rows).drop limit, before last (key x) := by
  obtain ⟨cut, _, y, hy, rfl, _⟩ := page_more h
  have sorted : (rowsAfter before key cursor rows).Pairwise fun a b => before (key a) (key b) :=
    rowsAfter_pairwise distinct cursor
  rw [← List.take_append_drop limit (rowsAfter before key cursor rows), ← cut] at sorted
  exact fun x hx => (List.pairwise_append.mp sorted).2.2 y hy x hx

/-- A row after the cursor is on the page or after its last key. -/
theorem mem_page {got : List Row} {last : Key} (distinct : (rows.map key).Nodup)
    (h : page before key cursor limit rows = (got, some last)) (hx : x ∈ rows)
    (after : After before cursor (key x)) : x ∈ got ∨ before last (key x) := by
  have listed : x ∈ rowsAfter before key cursor rows := mem_rowsAfter.mpr ⟨hx, after⟩
  rw [← List.take_append_drop limit (rowsAfter before key cursor rows), ← (page_more h).1] at listed
  exact (List.mem_append.mp listed).imp_right (page_drop distinct h x)

omit [IsStrictTotalOrder Key before] in
theorem After.last {got : List Row} {last : Key}
    (h : page before key cursor limit rows = (got, some last)) : After before cursor last := by
  obtain ⟨cut, _, y, hy, rfl, _⟩ := page_more h
  rw [cut] at hy
  exact (mem_rowsAfter.mp (List.mem_of_mem_take hy)).2

/-- In the same table the next page starts where this one is cut. -/
theorem rowsAfter_last {got : List Row} {last : Key} (distinct : (rows.map key).Nodup)
    (h : page before key cursor limit rows = (got, some last)) :
    rowsAfter before key (some last) rows = (rowsAfter before key cursor rows).drop limit := by
  have after := After.last h
  obtain ⟨cut, _⟩ := page_more h
  have sorted : (rowsAfter before key cursor rows).Pairwise fun a b => before (key a) (key b) :=
    rowsAfter_pairwise distinct cursor
  have rest : (rowsAfter before key cursor rows).filter (fun x => before last (key x)) =
      (rowsAfter before key cursor rows).drop limit := by
    conv_lhs => rw [← List.take_append_drop limit (rowsAfter before key cursor rows)]
    rw [List.filter_append, ← cut, List.filter_eq_nil_iff.mpr, List.nil_append,
      List.filter_eq_self.mpr]
    · exact fun x hx => decide_eq_true (page_drop distinct h x hx)
    · intro x hx
      simp only [decide_eq_true_eq]
      rcases page_before distinct h x hx with same | less
      · rw [same]
        exact irrefl_of before last
      · exact asymm_of before less
  rw [← rest]
  refine List.Perm.eq_of_pairwise ?_ (rowsAfter_pairwise distinct (some last))
    (sorted.filter _) ?_
  · exact fun a b _ _ less more => absurd more (asymm_of before less)
  · have selected : rows.filter (fun x => before last (key x)) =
        (rows.filter fun x => After before cursor (key x)).filter fun x => before last (key x) := by
      rw [List.filter_filter]
      apply List.filter_congr
      intro x _
      by_cases later : before last (key x)
      · simp [later, after.trans later]
      · simp [later]
    refine (ordered_perm _).trans ?_
    change (rows.filter fun x => before last (key x)).Perm _
    rw [selected]
    exact (ordered_perm _).symm.filter _

/-! ### All pages -/

/-- The keys of all pages are in strict order. -/
theorem follow_pairwise (distinct : ∀ input ∈ inputs, (input.1.map key).Nodup)
    (cursor : Option Key) :
    (follow before key cursor inputs).1.flatten.Pairwise (fun a b => before (key a) (key b)) ∧
      ∀ x ∈ (follow before key cursor inputs).1.flatten, After before cursor (key x) := by
  induction inputs generalizing cursor with
  | nil => simp [follow]
  | cons input rest ih =>
    obtain ⟨rows, limit⟩ := input
    obtain ⟨unique, others⟩ := List.forall_mem_cons.mp distinct
    have all : (rowsAfter before key cursor rows).Pairwise fun a b => before (key a) (key b) :=
      rowsAfter_pairwise unique cursor
    unfold follow
    cases read : page before key cursor limit rows with
    | mk got next =>
      have own := page_sublist read
      have listed : ∀ x ∈ got, After before cursor (key x) :=
        fun x hx => (mem_rowsAfter.mp (own.subset hx)).2
      cases next with
      | none =>
        simp only [List.flatten_cons, List.flatten_nil, List.append_nil]
        exact ⟨all.sublist own, listed⟩
      | some last =>
        obtain ⟨later, after⟩ := ih others (some last)
        simp only [List.flatten_cons]
        refine ⟨List.pairwise_append.mpr ⟨all.sublist own, later, ?_⟩, ?_⟩
        · intro a ha b hb
          rcases page_before unique read a ha with same | less
          · rw [same]
            exact after b hb
          · exact trans_of before less (after b hb)
        · intro x hx
          rcases List.mem_append.mp hx with here | there
          · exact listed x here
          · exact (After.last read).trans (after x there)

omit [IsStrictTotalOrder Key before] in
/-- Each page is from the table it is read from. -/
theorem follow_subset (hx : x ∈ (follow before key cursor inputs).1.flatten) :
    ∃ input ∈ inputs.take (follow before key cursor inputs).1.length, x ∈ input.1 := by
  induction inputs generalizing cursor with
  | nil => simp [follow] at hx
  | cons input rest ih =>
    obtain ⟨rows, limit⟩ := input
    unfold follow at hx ⊢
    cases read : page before key cursor limit rows with
    | mk got next =>
      have own : ∀ y ∈ got, y ∈ rows := fun y hy =>
        (mem_rowsAfter.mp ((page_sublist read).subset hy)).1
      rw [read] at hx
      cases next with
      | none => exact ⟨(rows, limit), by simp, own x (by simpa using hx)⟩
      | some last =>
        simp only [List.flatten_cons, List.mem_append] at hx
        rcases hx with here | later
        · exact ⟨(rows, limit), by simp, own x here⟩
        · obtain ⟨input, hinput, there⟩ := ih later
          exact ⟨input, by simp [hinput], there⟩

/-- A key that every table has is on a page by the end. -/
theorem mem_follow {pages : List (List Row)} (distinct : ∀ input ∈ inputs, (input.1.map key).Nodup)
    (positive : ∀ input ∈ inputs, 0 < input.2)
    (h : follow before key cursor inputs = (pages, true)) (after : After before cursor k)
    (there : ∀ input ∈ inputs.take pages.length, k ∈ input.1.map key) :
    k ∈ pages.flatten.map key := by
  induction inputs generalizing cursor pages with
  | nil => cases h
  | cons input rest ih =>
    obtain ⟨rows, limit⟩ := input
    obtain ⟨unique, others⟩ := List.forall_mem_cons.mp distinct
    obtain ⟨pos, later⟩ := List.forall_mem_cons.mp positive
    unfold follow at h
    cases read : page before key cursor limit rows with
    | mk got next =>
      simp only [read] at h
      cases next with
      | none =>
        cases h
        obtain ⟨x, hx, rfl⟩ := List.mem_map.mp (there (rows, limit) (by simp))
        rw [page_last read pos]
        simpa using ⟨x, ⟨hx, after⟩, rfl⟩
      | some last =>
        obtain ⟨rfl, ended⟩ := Prod.mk.inj h
        obtain ⟨x, hx, rfl⟩ := List.mem_map.mp (there (rows, limit) (by simp))
        rw [List.flatten_cons, List.map_append, List.mem_append]
        rcases mem_page unique read hx after with here | less
        · exact .inl (List.mem_map_of_mem here)
        · refine .inr (ih others later (Prod.ext rfl ended) less ?_)
          intro input hinput
          exact there input (List.mem_cons_of_mem _ (by simpa using hinput))

/-- In one table the pages are what comes after the cursor, cut into pieces. -/
theorem follow_constant {pages : List (List Row)} (distinct : (rows.map key).Nodup)
    (same : ∀ input ∈ inputs, input.1 = rows) (positive : ∀ input ∈ inputs, 0 < input.2)
    (h : follow before key cursor inputs = (pages, true)) :
    pages.flatten = rowsAfter before key cursor rows := by
  induction inputs generalizing cursor pages with
  | nil => cases h
  | cons input rest ih =>
    obtain ⟨table, limit⟩ := input
    obtain ⟨rfl, others⟩ := List.forall_mem_cons.mp same
    obtain ⟨pos, later⟩ := List.forall_mem_cons.mp positive
    unfold follow at h
    cases read : page before key cursor limit table with
    | mk got next =>
      simp only [read] at h
      cases next with
      | none =>
        cases h
        simp [page_last read pos]
      | some last =>
        obtain ⟨rfl, ended⟩ := Prod.mk.inj h
        rw [List.flatten_cons, ih others later (Prod.ext rfl ended), rowsAfter_last distinct read,
          (page_more read).1, List.take_append_drop]

/-- Each page but the last takes a row, so the pages end. -/
theorem follow_ends (distinct : (rows.map key).Nodup) (same : ∀ input ∈ inputs, input.1 = rows)
    (positive : ∀ input ∈ inputs, 0 < input.2)
    (enough : (rowsAfter before key cursor rows).length < inputs.length) :
    (follow before key cursor inputs).2 = true := by
  induction inputs generalizing cursor with
  | nil => simp at enough
  | cons input rest ih =>
    obtain ⟨table, limit⟩ := input
    obtain ⟨rfl, others⟩ := List.forall_mem_cons.mp same
    obtain ⟨pos, later⟩ := List.forall_mem_cons.mp positive
    unfold follow
    cases read : page before key cursor limit table with
    | mk got next =>
      cases next with
      | none => rfl
      | some last =>
        have pos : 0 < limit := pos
        have distinct : (table.map key).Nodup := distinct
        have more := (page_more read).2.1
        have all : (rowsAfter before key cursor table).length < rest.length + 1 := enough
        have left : (rowsAfter before key (some last) table).length < rest.length := by
          rw [rowsAfter_last distinct read, List.length_drop]
          omega
        exact ih others later left

end Order

end Byom.Paging
