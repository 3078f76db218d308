import Mathlib.Algebra.Group.Int.Defs
import Byom.Metadata.Importer

/-!
# The numbers of a track's tags

`mapTrack` reads a map of tags. Its disc and track numbers are the digits that a text
begins with, as far as an `int` of 64 bits holds them.
-/

namespace Byom.Metadata

open Library

/-- A map of tags; a key it does not have reads as no values. -/
abbrev Tags := String → List String

def normTagKey (key : String) : String := String.ofList (key.toList.map Char.toUpper)

def firstMatching (tags : Tags) : List String → List String
  | [] => []
  | k :: keys =>
    let vals := tags (normTagKey k)
    if vals = [] then firstMatching tags keys else vals

def firstValue (tags : Tags) (keys : List String) : String :=
  ((firstMatching tags keys).find? fun val => val ≠ "").getD ""

def truthy (s : String) : Bool := s = "1"

/-- The run of digits that the text begins with. -/
def leadingDigits (s : String) : List Char := (trimSpace s).toList.takeWhile fun c => c.isDigit

/-- The number that digits denote. -/
def digitsValue (digits : List Char) : Nat :=
  digits.foldl (fun n c => 10 * n + (c.toNat - '0'.toNat)) 0

/-- `math.MaxInt`. -/
def maxInt : Int := 9223372036854775807

/-- `strconv.Atoi` on digits: past the range, the largest `int` with an error. -/
def atoi (digits : List Char) : Int × Bool :=
  if digitsValue digits ≤ maxInt then (digitsValue digits, true) else (maxInt, false)

def parseLeadingInt (s : String) : Int × Bool :=
  let digits := leadingDigits s
  if digits = [] then (0, false) else atoi digits

def discNumber (tags : Tags) : Int :=
  let n := (parseLeadingInt (firstValue tags ["DISCNUMBER"])).1
  if n ≤ 0 then 1 else n

def trackNumber (tags : Tags) : Int := (parseLeadingInt (firstValue tags ["TRACKNUMBER"])).1

def mapTrack (tags : Tags) : TrackMetadata where
  discNumber := discNumber tags
  discSubtitle := firstValue tags ["DISCSUBTITLE"]
  trackNumber := trackNumber tags
  title := firstValue tags ["TITLE"]
  releaseDate := firstValue tags ["DATE", "YEAR"]
  originalReleaseDate := firstValue tags ["ORIGINALDATE", "ORIGINALYEAR"]
  live := truthy (firstValue tags ["LIVE"])

@[simp] theorem mapTrack_discNumber (tags : Tags) :
    (mapTrack tags).discNumber = discNumber tags := by
  simp only [mapTrack]

@[simp] theorem mapTrack_trackNumber (tags : Tags) :
    (mapTrack tags).trackNumber = trackNumber tags := by
  simp only [mapTrack]

theorem parseLeadingInt_eq (s : String) :
    (parseLeadingInt s).1 = min (digitsValue (leadingDigits s) : Int) maxInt := by
  unfold parseLeadingInt atoi
  simp only
  split
  · rename_i none_
    rw [none_]
    rfl
  · split
    · rename_i fits
      exact (min_eq_left fits).symm
    · rename_i past
      exact (min_eq_right (le_of_not_ge past)).symm

/-- Whatever the text, the number is the one its digits denote, or the largest `int`. -/
theorem parseLeadingInt_nonneg (s : String) : 0 ≤ (parseLeadingInt s).1 := by
  rw [parseLeadingInt_eq]
  apply le_min
  · exact Int.natCast_nonneg _
  · decide

theorem trackNumber_nonneg (tags : Tags) : 0 ≤ trackNumber tags := parseLeadingInt_nonneg _

theorem discNumber_pos (tags : Tags) : 1 ≤ discNumber tags := by
  unfold discNumber
  simp only
  split
  · exact le_refl 1
  · omega

/-- A number fits in 32 bits exactly if its digits say so. -/
theorem parseLeadingInt_lt_iff (s : String) :
    (parseLeadingInt s).1 < 2 ^ 31 ↔ digitsValue (leadingDigits s) < 2 ^ 31 := by
  rw [parseLeadingInt_eq, maxInt]
  omega

theorem discNumber_lt_iff (tags : Tags) : discNumber tags < 2 ^ 31 ↔
    digitsValue (leadingDigits (firstValue tags ["DISCNUMBER"])) < 2 ^ 31 := by
  rw [← parseLeadingInt_lt_iff]
  unfold discNumber
  simp only
  split
  · rename_i blank
    exact iff_of_true (by omega) (by omega)
  · rfl

theorem trackNumber_lt_iff (tags : Tags) : trackNumber tags < 2 ^ 31 ↔
    digitsValue (leadingDigits (firstValue tags ["TRACKNUMBER"])) < 2 ^ 31 :=
  parseLeadingInt_lt_iff _

end Byom.Metadata
