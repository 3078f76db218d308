import Byom.Paging.Keyset

/-!
# A client that reads page after page

`Reading` is what a client has after some pages, each cut from a table that meets `P`. What
it has never gets out of order, whatever happens to the table between the pages.
-/

namespace Byom.Paging

universe u v

variable {Row : Type u} {Key : Type v}

/-- The rows read so far, the key to go on after, and whether the last page is among them. -/
inductive Reading (before : Key → Key → Prop) [DecidableRel before] (key : Row → Key)
    (P : List Row → Prop) : List Row → Option Key → Bool → Prop where
  | start : Reading before key P [] none false
  | more {read got rows : List Row} {cursor : Option Key} {limit : Nat} {last : Key}
    (earlier : Reading before key P read cursor false) (origin : P rows) (positive : 0 < limit)
    (cut : page before key cursor limit rows = (got, some last)) :
    Reading before key P (read ++ got) (some last) false
  | ended {read got rows : List Row} {cursor : Option Key} {limit : Nat}
    (earlier : Reading before key P read cursor false) (origin : P rows) (positive : 0 < limit)
    (cut : page before key cursor limit rows = (got, none)) :
    Reading before key P (read ++ got) none true

/-- What is still to come from a table. -/
def remaining (before : Key → Key → Prop) [DecidableRel before] (key : Row → Key)
    (cursor : Option Key) (ended : Bool) (rows : List Row) : List Row :=
  if ended then [] else rowsAfter before key cursor rows

variable {before : Key → Key → Prop} [DecidableRel before] {key : Row → Key}
  {P : List Row → Prop} {read rows : List Row} {cursor : Option Key} {ended : Bool} {x : Row}
  {k : Key}

namespace Reading

theorem origin (reading : Reading before key P read cursor ended) (hx : x ∈ read) :
    ∃ rows, P rows ∧ x ∈ rows := by
  induction reading with
  | start => cases hx
  | more earlier origin positive cut ih =>
    rcases List.mem_append.mp hx with old | new
    · exact ih old
    · exact ⟨_, origin, (mem_rowsAfter.mp ((page_sublist cut).subset new)).1⟩
  | ended earlier origin positive cut ih =>
    rcases List.mem_append.mp hx with old | new
    · exact ih old
    · exact ⟨_, origin, (mem_rowsAfter.mp ((page_sublist cut).subset new)).1⟩

theorem mono {Q : List Row → Prop} (reading : Reading before key P read cursor ended)
    (weaker : ∀ rows, P rows → Q rows) : Reading before key Q read cursor ended := by
  induction reading with
  | start => exact .start
  | more earlier origin positive cut ih => exact .more ih (weaker _ origin) positive cut
  | ended earlier origin positive cut ih => exact .ended ih (weaker _ origin) positive cut

variable [IsStrictTotalOrder Key before]

/-- The next page is read after everything that there is so far. -/
theorem reached (distinct : ∀ rows, P rows → (rows.map key).Nodup)
    (reading : Reading before key P read cursor false) {y : Key} (after : After before cursor y)
    (hx : x ∈ read) : before (key x) y := by
  generalize going : false = ended at reading
  induction reading generalizing y with
  | start => cases hx
  | ended => cases going
  | more earlier origin positive cut ih =>
    rcases List.mem_append.mp hx with old | new
    · exact ih (After.trans (After.last cut) after) old rfl
    · rcases page_before (distinct _ origin) cut x new with same | less
      · rw [same]
        exact after
      · exact trans_of before less after

theorem append_pairwise {got : List Row} (distinct : ∀ rows, P rows → (rows.map key).Nodup)
    (reading : Reading before key P read cursor false)
    (sorted : read.Pairwise fun a b => before (key a) (key b)) (origin : P rows)
    (part : got.Sublist (rowsAfter before key cursor rows)) :
    (read ++ got).Pairwise fun a b => before (key a) (key b) := by
  refine List.pairwise_append.mpr ⟨sorted, ?_, ?_⟩
  · exact (rowsAfter_pairwise (distinct _ origin) cursor).sublist part
  · intro a ha b hb
    exact reading.reached distinct (mem_rowsAfter.mp (part.subset hb)).2 ha

/-- The rows are in strict order, over all pages together. -/
theorem pairwise (distinct : ∀ rows, P rows → (rows.map key).Nodup)
    (reading : Reading before key P read cursor ended) :
    read.Pairwise fun a b => before (key a) (key b) := by
  induction reading with
  | start => exact .nil
  | more earlier origin positive cut ih =>
    exact earlier.append_pairwise distinct ih origin (page_sublist cut)
  | ended earlier origin positive cut ih =>
    exact earlier.append_pairwise distinct ih origin (page_sublist cut)

/-- A key that every table has is not passed over. -/
theorem passed (distinct : ∀ rows, P rows → (rows.map key).Nodup)
    (reading : Reading before key P read cursor ended)
    (there : ∀ rows, P rows → k ∈ rows.map key) :
    k ∈ read.map key ∨ ended = false ∧ After before cursor k := by
  induction reading with
  | start => exact .inr ⟨rfl, trivial⟩
  | more earlier origin positive cut ih =>
    rw [List.map_append, List.mem_append]
    rcases ih with old | ⟨_, after⟩
    · exact .inl (.inl old)
    · obtain ⟨x, hx, rfl⟩ := List.mem_map.mp (there _ origin)
      rcases mem_page (distinct _ origin) cut hx after with here | later
      · exact .inl (.inr (List.mem_map_of_mem here))
      · exact .inr ⟨rfl, later⟩
  | ended earlier origin positive cut ih =>
    rw [List.map_append, List.mem_append]
    rcases ih with old | ⟨_, after⟩
    · exact .inl (.inl old)
    · obtain ⟨x, hx, rfl⟩ := List.mem_map.mp (there _ origin)
      rw [page_last cut positive]
      exact .inl (.inr (List.mem_map_of_mem (mem_rowsAfter.mpr ⟨hx, after⟩)))

/-- While the table stays the same, what is read and what is to come are all of it. -/
theorem append_remaining (distinct : (rows.map key).Nodup)
    (reading : Reading before key (· = rows) read cursor ended) :
    read ++ remaining before key cursor ended rows = ordered before key rows := by
  induction reading with
  | start => exact rowsAfter_none
  | @more read got _ cursor limit last earlier origin positive cut ih =>
    subst origin
    obtain ⟨own, _⟩ := page_more cut
    rw [← ih, remaining, remaining, if_neg Bool.false_ne_true, if_neg Bool.false_ne_true,
      rowsAfter_last distinct cut, List.append_assoc, own, List.take_append_drop]
  | @ended read got _ cursor limit earlier origin positive cut ih =>
    subst origin
    rw [← ih, remaining, remaining, if_pos rfl, if_neg Bool.false_ne_true, List.append_nil,
      page_last cut positive]

end Reading

end Byom.Paging
