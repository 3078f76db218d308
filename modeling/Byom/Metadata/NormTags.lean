import Byom.Metadata.Tags
import Byom.Text.Split

/-!
# Normalized tags

`normTags` runs over a map of raw tags in an order that is not specified, and writes each
key in upper case. Of several keys that become one, the last one visited wins.
-/

namespace Byom.Metadata

open Library

def splittableTags : List String :=
  ["ARTIST", "ALBUMARTIST", "ARRANGER", "COMPOSER", "CONDUCTOR", "ENGINEER", "LYRICIST",
    "PERFORMER", "PRODUCER", "PERSONNEL", "LABEL"]

def splitDelims : List String := [";", "\\\\"]

/-- `normTagKey`, for the simple upper case of any character. -/
def upperKey (upper : Char → Char) (key : String) : String := String.ofList (key.toList.map upper)

/-- The text trimmed, if something is left. -/
def nonblank (s : String) : Option String :=
  let trimmed := trimSpace s
  if trimmed ≠ "" then some trimmed else none

/-- `strings.ReplaceAll(s, "\x00", "")`. -/
def removeNulls (s : String) : String := String.ofList (s.toList.filter fun c => c ≠ '\x00')

def cleanValues (values : List String) : List String :=
  values.filterMap fun s => nonblank (removeNulls s)

/-- `strings.Split`. -/
def splitString (s delim : String) : List String :=
  (Text.split delim.toList s.toList).map String.ofList

def splitValues (values joins : List String) : List String :=
  joins.foldl (fun result delim =>
    result.flatMap fun chunk => (splitString chunk delim).filterMap nonblank) values

/-- The values of a normalized key. -/
def normValues (key : String) (values : List String) : List String :=
  let cleaned := cleanValues values
  if key ∈ splittableTags then splitValues cleaned splitDelims else cleaned

/-- A map of raw tags. -/
structure RawTags where
  entries : List (String × List String)
  distinct : (entries.map Prod.fst).Nodup

/-- `normTags`, for the entries of a map in the order in which the loop visits them. -/
def normTags (upper : Char → Char) (order : List (String × List String)) :
    String → Option (List String) :=
  order.foldl (fun norm (k, v) =>
    let key := upperKey upper k
    Function.update norm key (some (normValues key v))) fun _ => none

/-- Reading a map of tags: a key it does not have is there with no values. -/
def readTags (norm : String → Option (List String)) : Tags := fun key => (norm key).getD []

/-- An order in which a loop may visit the entries. -/
def RawTags.Visits (raw : RawTags) (order : List (String × List String)) : Prop :=
  order.Perm raw.entries

variable {upper : Char → Char} {raw : RawTags} {order : List (String × List String)}

/-- The last entry visited for a key decides. -/
theorem normTags_eq (upper : Char → Char) (order : List (String × List String)) (key : String) :
    normTags upper order key =
      (order.reverse.find? fun entry => upperKey upper entry.1 = key).map
        fun entry => normValues key entry.2 := by
  induction order using List.reverseRecOn with
  | nil => rfl
  | append_singleton rest entry ih =>
    have last : normTags upper (rest ++ [entry]) =
        Function.update (normTags upper rest) (upperKey upper entry.1)
          (some (normValues (upperKey upper entry.1) entry.2)) := by
      rw [normTags, List.foldl_append]
      rfl
    rw [last, List.reverse_append, List.reverse_singleton, List.singleton_append, List.find?_cons]
    by_cases here : upperKey upper entry.1 = key
    · subst here
      simp
    · rw [Function.update_of_ne (Ne.symm here), ih]
      simp [here]

/-- The map does not depend on the order. -/
def OrderFree (upper : Char → Char) (raw : RawTags) : Prop :=
  ∀ order order', raw.Visits order → raw.Visits order' → normTags upper order = normTags upper order'

/-- Every value of every key is among those of its upper-cased key. -/
def Lossless (upper : Char → Char) (raw : RawTags) : Prop :=
  ∀ order, raw.Visits order → ∀ entry ∈ raw.entries,
    ∀ x ∈ normValues (upperKey upper entry.1) entry.2,
      ∃ values, normTags upper order (upperKey upper entry.1) = some values ∧ x ∈ values

/-- Keys that become one have the same values. -/
def Agree (upper : Char → Char) (raw : RawTags) : Prop :=
  ∀ a ∈ raw.entries, ∀ b ∈ raw.entries, upperKey upper a.1 = upperKey upper b.1 →
    normValues (upperKey upper a.1) a.2 = normValues (upperKey upper b.1) b.2

/-- Any entry may be visited last. -/
theorem visits_last (upper : Char → Char) {entry : String × List String}
    (listed : entry ∈ raw.entries) : ∃ order, raw.Visits order ∧
      normTags upper order (upperKey upper entry.1) =
        some (normValues (upperKey upper entry.1) entry.2) := by
  refine ⟨raw.entries.erase entry ++ [entry], ?_, ?_⟩
  · exact (List.perm_append_singleton _ _).trans (List.perm_cons_erase listed).symm
  · simp [normTags_eq]

theorem normTags_of_agree (agree : Agree upper raw) (visited : raw.Visits order)
    {entry : String × List String} (listed : entry ∈ raw.entries) :
    normTags upper order (upperKey upper entry.1) =
      some (normValues (upperKey upper entry.1) entry.2) := by
  rw [normTags_eq]
  cases found : order.reverse.find? fun e => upperKey upper e.1 = upperKey upper entry.1 with
  | none =>
    have there : entry ∈ order.reverse := List.mem_reverse.mpr (visited.mem_iff.mpr listed)
    have miss := List.find?_eq_none.mp found entry there
    simp at miss
  | some last =>
    have same : upperKey upper last.1 = upperKey upper entry.1 := by
      simpa using List.find?_some found
    have member : last ∈ raw.entries :=
      visited.mem_iff.mp (List.mem_reverse.mp (List.mem_of_find?_eq_some found))
    have values := agree last member entry listed same
    rw [same] at values
    exact congrArg some values

/-- A key that no entry has is not there. -/
theorem normTags_eq_none (visited : raw.Visits order) {key : String}
    (absent : ∀ entry ∈ raw.entries, upperKey upper entry.1 ≠ key) :
    normTags upper order key = none := by
  rw [normTags_eq, Option.map_eq_none_iff, List.find?_eq_none]
  intro entry member
  have listed := visited.mem_iff.mp (List.mem_reverse.mp member)
  simpa using absent entry listed

/-- Normalizing loses nothing, and does not depend on the order, exactly if keys that become
one have the same values. -/
theorem orderFree_and_lossless_iff (upper : Char → Char) (raw : RawTags) :
    OrderFree upper raw ∧ Lossless upper raw ↔ Agree upper raw := by
  constructor
  · rintro ⟨free, _⟩ a ha b hb same
    obtain ⟨order, visits, lastA⟩ := visits_last upper ha
    obtain ⟨order', visits', lastB⟩ := visits_last upper hb
    rw [free order order' visits visits', same, lastB] at lastA
    rw [same]
    exact (Option.some.inj lastA).symm
  · intro agree
    refine ⟨?_, ?_⟩
    · intro order order' visits visits'
      funext key
      by_cases absent : ∀ entry ∈ raw.entries, upperKey upper entry.1 ≠ key
      · rw [normTags_eq_none visits absent, normTags_eq_none visits' absent]
      · push Not at absent
        obtain ⟨entry, listed, rfl⟩ := absent
        rw [normTags_of_agree agree visits listed, normTags_of_agree agree visits' listed]
    · intro order visits entry listed x hx
      exact ⟨_, normTags_of_agree agree visits listed, hx⟩

/-- One tag under two spellings of its key. -/
def mixedCase : RawTags where
  entries := [("artist", ["A"]), ("ARTIST", ["B"])]
  distinct := by decide

/-- Whichever comes first is lost. -/
theorem mixedCase_lost :
    ¬(OrderFree Char.toUpper mixedCase ∧ Lossless Char.toUpper mixedCase) := by
  rintro ⟨free, _⟩
  have same := congrFun (free mixedCase.entries mixedCase.entries.reverse (List.Perm.refl _)
    (List.reverse_perm _)) "ARTIST"
  exact absurd same (by decide)

end Byom.Metadata
