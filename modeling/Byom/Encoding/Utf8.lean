import Mathlib.Data.List.Basic

/-!
# Text in bytes

Bytes are read as UTF-8 from the left. A byte that no encoding starts with is an error of
width one, and reading goes on after it.
-/

namespace Byom.Encoding.Utf8

/-- `utf8.DecodeRune`, with none for the error. -/
def decodeRune (bs : List UInt8) : Option Char := bs.toByteArray.utf8DecodeChar? 0

/-- The rest of the runes, with some bytes that belong to the last one. -/
def runesFrom : Nat → List UInt8 → List (Option Char)
  | _, [] => []
  | skip + 1, _ :: bs => runesFrom skip bs
  | 0, b :: bs =>
    match decodeRune (b :: bs) with
    | some c => some c :: runesFrom (c.utf8Size - 1) bs
    | none => none :: runesFrom 0 bs

/-- What `range` goes through, with none for each byte that is no part of an encoding. -/
def runes (bs : List UInt8) : List (Option Char) := runesFrom 0 bs

def replacement : Char := Char.ofNat 0xFFFD

/-- The text with a replacement for each invalid byte. -/
def clean (bs : List UInt8) : List Char := (runes bs).map fun r => r.getD replacement

def bytes (cs : List Char) : List UInt8 := cs.flatMap String.utf8EncodeChar

/-- `utf8.ValidString`. -/
def Valid (bs : List UInt8) : Prop := none ∉ runes bs

instance (bs : List UInt8) : Decidable (Valid bs) := inferInstanceAs (Decidable (none ∉ runes bs))

variable {bs : List UInt8} {cs : List Char} {c : Char}

theorem decodeRune_append (c : Char) (bs : List UInt8) :
    decodeRune (String.utf8EncodeChar c ++ bs) = some c := by
  unfold decodeRune
  rw [List.toByteArray_append, ByteArray.utf8DecodeChar?_utf8EncodeChar_append]

theorem exists_of_decodeRune (h : decodeRune bs = some c) :
    ∃ rest, bs = String.utf8EncodeChar c ++ rest := by
  obtain ⟨rest, same⟩ := ByteArray.exists_of_utf8DecodeChar?_eq_some h
  refine ⟨rest.data.toList, List.toByteArray_inj.mp ?_⟩
  apply ByteArray.ext
  simp [same, List.data_toByteArray]

theorem runesFrom_eq (skip : Nat) (bs : List UInt8) :
    runesFrom skip bs = runes (bs.drop skip) := by
  induction bs generalizing skip with
  | nil => cases skip <;> rfl
  | cons b bs ih =>
    cases skip with
    | zero => rfl
    | succ skip => exact ih skip

@[simp] theorem runes_nil : runes [] = [] := rfl

theorem runes_append (c : Char) (bs : List UInt8) :
    runes (String.utf8EncodeChar c ++ bs) = some c :: runes bs := by
  have reads := decodeRune_append c bs
  have size := String.length_utf8EncodeChar c
  cases encoded : String.utf8EncodeChar c with
  | nil =>
    have pos := c.utf8Size_pos
    simp [encoded] at size
    omega
  | cons b rest =>
    rw [encoded] at reads size
    have skipped : rest.length = c.utf8Size - 1 := by
      rw [← size, List.length_cons, Nat.add_sub_cancel]
    rw [List.cons_append] at reads
    simp only [runes, List.cons_append, runesFrom, reads]
    rw [runesFrom_eq, ← skipped, List.drop_left]
    rfl

theorem runes_invalid {b : UInt8} (h : decodeRune (b :: bs) = none) :
    runes (b :: bs) = none :: runes bs := by
  simp only [runes, runesFrom, h]

/-- Bytes are read an encoding or an invalid byte at a time. -/
theorem rune_induction {P : List UInt8 → Prop} (nil : P [])
    (char : ∀ c rest, P rest → P (String.utf8EncodeChar c ++ rest))
    (invalid : ∀ b rest, decodeRune (b :: rest) = none → P rest → P (b :: rest))
    (bs : List UInt8) : P bs := by
  match bs with
  | [] => exact nil
  | b :: tail =>
    cases read : decodeRune (b :: tail) with
    | none => exact invalid b tail read (rune_induction nil char invalid tail)
    | some c =>
      obtain ⟨rest, same⟩ := exists_of_decodeRune read
      have shorter : rest.length ≤ tail.length := by
        have total := congrArg List.length same
        rw [List.length_cons, List.length_append, String.length_utf8EncodeChar] at total
        have width := c.utf8Size_pos
        omega
      rw [same]
      exact char c rest (rune_induction nil char invalid rest)
termination_by bs.length

theorem runes_bytes (cs : List Char) : runes (bytes cs) = cs.map some := by
  induction cs with
  | nil => rfl
  | cons c cs ih =>
    rw [bytes, List.flatMap_cons, runes_append, List.map_cons]
    exact congrArg _ ih

@[simp] theorem clean_bytes (cs : List Char) : clean (bytes cs) = cs := by
  simp [clean, runes_bytes, Function.comp_def]

/-- The runes of valid bytes spell them. -/
theorem bytes_clean (valid : Valid bs) : bytes (clean bs) = bs := by
  induction bs using rune_induction with
  | nil => rfl
  | char c rest ih =>
    have rest_valid : Valid rest := by
      intro invalid
      exact valid (by rw [runes_append]; exact List.mem_cons_of_mem _ invalid)
    have kept := ih rest_valid
    simp only [clean, runes_append, List.map_cons, Option.getD_some, bytes,
      List.flatMap_cons] at kept ⊢
    rw [kept]
  | invalid b rest h ih =>
    refine absurd ?_ valid
    rw [runes_invalid h]
    exact List.mem_cons_self

theorem bytes_clean_iff : bytes (clean bs) = bs ↔ Valid bs := by
  refine ⟨?_, bytes_clean⟩
  intro same invalid
  rw [← same, runes_bytes] at invalid
  obtain ⟨c, _, wrong⟩ := List.mem_map.mp invalid
  cases wrong

end Byom.Encoding.Utf8
