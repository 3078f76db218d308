import Mathlib.Data.Nat.Digits.Defs
import Byom.Files.StagedWrite
import Byom.Storage.File

/-!
# Names of images

A blob has the name of its content hash, a derivative that of its original and its size.
Neither is the name of a temporary file.
-/

namespace Byom.Images

open Storage Files

/-- `hex.EncodeToString` of a SHA-256 sum. -/
def hexString (sum : BitVec 256) : String :=
  String.ofList ((List.range 64).map fun i => Nat.digitChar (sum.toNat / 16 ^ (63 - i) % 16))

def isHashChar (c : Char) : Bool := '0' ≤ c && c ≤ '9' || 'a' ≤ c && c ≤ 'f'

def validHash (s : String) : Bool := s.toList.length = 64 && s.toList.all isHashChar

def supportedSizes : List Int := [160, 320, 640]

def supportedSize (n : Int) : Bool := n ∈ supportedSizes

/-- The directory of an image: its first two digits. -/
def imageDir (root : Path) (sha : String) : Path :=
  root ++ ["images", String.ofList (sha.toList.take 2)]

def blobPath (root : Path) (sha : String) : Path := imageDir root sha ++ [sha]

def derivativeName (sha : String) (size : Int) : String := sha ++ "@" ++ toString size ++ ".jpg"

def derivativePath (root : Path) (sha : String) (size : Int) : Path :=
  imageDir root sha ++ [derivativeName sha size]

/-- What `os.CreateTemp` makes for a path. -/
def tempPath (path : Path) (random : String) : Path :=
  path.dir ++ [path.base ++ "." ++ random ++ ".tmp"]

theorem validHash_hexString (sum : BitVec 256) : validHash (hexString sum) = true := by
  have digits : ∀ d < 16, isHashChar (Nat.digitChar d) = true := by decide
  simp only [validHash, hexString, String.toList_ofList, List.length_map, List.length_range,
    decide_true, Bool.true_and, List.all_map, List.all_eq_true]
  intro i _
  exact digits _ (Nat.mod_lt _ (by decide))

variable {root : Path} {sha sha' : String} {size size' : Int}

theorem getLast?_blobPath : (blobPath root sha).getLast? = some sha := by simp [blobPath]

theorem getLast?_derivativePath :
    (derivativePath root sha size).getLast? = some (derivativeName sha size) := by
  simp [derivativePath]

theorem getLast?_tempPath (path : Path) (random : String) :
    (tempPath path random).getLast? = some (path.base ++ "." ++ random ++ ".tmp") := by
  simp [tempPath]

theorem blobPath_inj (same : blobPath root sha = blobPath root sha') : sha = sha' := by
  have last := congrArg List.getLast? same
  rw [getLast?_blobPath, getLast?_blobPath] at last
  exact Option.some.inj last

/-- Only digits and small letters make up a hash. -/
theorem not_mem_of_validHash (valid : validHash sha = true) {c : Char} (other : isHashChar c = false) :
    c ∉ sha.toList := by
  intro member
  simp only [validHash, Bool.and_eq_true, List.all_eq_true] at valid
  rw [valid.2 c member] at other
  cases other

theorem length_of_validHash (valid : validHash sha = true) : sha.toList.length = 64 := by
  simp only [validHash, Bool.and_eq_true, decide_eq_true_eq] at valid
  exact valid.1

theorem toList_derivativeName (sha : String) (size : Int) : (derivativeName sha size).toList =
    sha.toList ++ ('@' :: (toString size).toList ++ ['.', 'j', 'p', 'g']) := by
  simp [derivativeName, String.toList_append]

theorem blobPath_ne_derivativePath (valid : validHash sha = true) :
    blobPath root sha ≠ derivativePath root sha' size := by
  intro same
  have last := congrArg List.getLast? same
  rw [getLast?_blobPath, getLast?_derivativePath] at last
  have name := congrArg String.toList (Option.some.inj last)
  have at_ : '@' ∈ sha.toList := by
    rw [name, toList_derivativeName]
    simp
  exact not_mem_of_validHash valid rfl at_

/-! ### A size is read off its digits -/

theorem repr_inj {m n : Nat} (same : m.repr = n.repr) : m = n := by
  have digits := congrArg (fun s => Nat.ofDigitChars 10 (String.toList s) 0) same
  simpa only [Nat.toList_repr, Nat.ofDigitChars_ten_toDigits] using digits

theorem dash_ne_repr {s : String} {n : Nat} : "-" ++ s ≠ n.repr := by
  intro same
  have dash : '-' ∈ Nat.toDigits 10 n := by
    rw [← Nat.toList_repr, ← same]
    simp [String.toList_append]
  exact absurd (Nat.isDigit_of_mem_toDigits (by decide) (by decide) dash) (by decide)

theorem toString_int_inj {a b : Int} (same : toString a = toString b) : a = b := by
  rw [Int.toString_eq_repr, Int.toString_eq_repr, Int.repr_eq_if, Int.repr_eq_if] at same
  split at same <;> split at same
  · have digits := repr_inj same
    omega
  · exact absurd same.symm dash_ne_repr
  · exact absurd same dash_ne_repr
  · have digits := repr_inj ((String.append_right_inj _).mp same)
    omega

theorem derivativePath_inj (valid : validHash sha = true) (valid' : validHash sha' = true)
    (same : derivativePath root sha size = derivativePath root sha' size') :
    sha = sha' ∧ size = size' := by
  have last := congrArg List.getLast? same
  rw [getLast?_derivativePath, getLast?_derivativePath] at last
  have name := congrArg String.toList (Option.some.inj last)
  rw [toList_derivativeName, toList_derivativeName] at name
  have lengths := (length_of_validHash valid).trans (length_of_validHash valid').symm
  obtain ⟨first, rest⟩ := List.append_inj name lengths
  refine ⟨String.toList_inj.mp first, ?_⟩
  have digits := List.append_cancel_right (List.cons.inj rest).2
  exact toString_int_inj (String.toList_inj.mp digits)

/-- A temporary name ends in `.tmp`. -/
theorem lasting_derivativePath :
    ¬ IsTemporary tempPath (derivativePath root sha size) := by
  rintro ⟨path, random, same⟩
  have last := congrArg List.getLast? same
  rw [getLast?_derivativePath, getLast?_tempPath] at last
  have derivative : (derivativeName sha size).toList =
      (sha ++ "@" ++ toString size).toList ++ ['.', 'j', 'p', 'g'] := by
    simp [derivativeName, String.toList_append]
  have temporary : (path.base ++ "." ++ random ++ ".tmp").toList =
      (path.base ++ "." ++ random).toList ++ ['.', 't', 'm', 'p'] := by
    simp [String.toList_append]
  have name := congrArg String.toList (Option.some.inj last)
  rw [derivative, temporary] at name
  have ends := (List.append_inj' name rfl).2
  exact absurd ends (by decide)

theorem lasting_blobPath (valid : validHash sha = true) :
    ¬ IsTemporary tempPath (blobPath root sha) := by
  rintro ⟨path, random, same⟩
  have last := congrArg List.getLast? same
  rw [getLast?_blobPath, getLast?_tempPath] at last
  have dot : '.' ∈ sha.toList := by
    rw [Option.some.inj last]
    simp [String.toList_append]
  exact not_mem_of_validHash valid rfl dot

end Byom.Images
