import Mathlib.Data.List.Basic

/-!
# Base64 for URLs, without padding

Three bytes are four letters; one or two bytes at the end are two or three. The decoder
skips line breaks, and takes no notice of the bits that the last letter has too many.
-/

namespace Byom.Encoding.Base64

/-- The letter of six bits. -/
def letter (n : Nat) : UInt8 :=
  if n < 26 then .ofNat (n + 65)
  else if n < 52 then .ofNat (n + 71)
  else if n < 62 then .ofNat (n - 4)
  else if n = 62 then 45
  else 95

/-- The six bits of a letter. -/
def sextet (b : UInt8) : Option Nat :=
  let n := b.toNat
  if 65 ≤ n ∧ n ≤ 90 then some (n - 65)
  else if 97 ≤ n ∧ n ≤ 122 then some (n - 71)
  else if 48 ≤ n ∧ n ≤ 57 then some (n + 4)
  else if n = 45 then some 62
  else if n = 95 then some 63
  else none

/-- Bytes, six bits at a time. -/
def split : List UInt8 → List Nat
  | a :: b :: c :: rest =>
    a.toNat / 4 :: (a.toNat % 4 * 16 + b.toNat / 16) :: (b.toNat % 16 * 4 + c.toNat / 64) ::
      c.toNat % 64 :: split rest
  | [a, b] => [a.toNat / 4, a.toNat % 4 * 16 + b.toNat / 16, b.toNat % 16 * 4]
  | [a] => [a.toNat / 4, a.toNat % 4 * 16]
  | [] => []

/-- `EncodeToString`. -/
def encode (bytes : List UInt8) : List UInt8 := (split bytes).map letter

/-- The bytes that are given six bits at a time. -/
def join : List Nat → Option (List UInt8)
  | w :: x :: y :: z :: rest =>
    (join rest).map fun bytes =>
      .ofNat (w * 4 + x / 16) :: .ofNat (x % 16 * 16 + y / 4) :: .ofNat (y % 4 * 64 + z) :: bytes
  | [w, x, y] => some [.ofNat (w * 4 + x / 16), .ofNat (x % 16 * 16 + y / 4)]
  | [w, x] => some [.ofNat (w * 4 + x / 16)]
  | [_] => none
  | [] => some []

def lineBreak (b : UInt8) : Bool := b = 10 || b = 13

/-- `DecodeString`. -/
def decode (text : List UInt8) : Option (List UInt8) :=
  ((text.filter fun b => !lineBreak b).mapM sextet).bind join

theorem letter_spec : ∀ n < 64, sextet (letter n) = some n ∧ lineBreak (letter n) = false := by
  decide

theorem split_lt (bytes : List UInt8) : ∀ n ∈ split bytes, n < 64 := by
  induction bytes using split.induct with
  | case1 a b c rest ih =>
    intro n hn
    have := a.toNat_lt
    have := b.toNat_lt
    have := c.toNat_lt
    simp only [split, List.mem_cons] at hn
    rcases hn with rfl | rfl | rfl | rfl | later
    · omega
    · omega
    · omega
    · omega
    · exact ih n later
  | case2 a b =>
    intro n hn
    have := a.toNat_lt
    have := b.toNat_lt
    simp only [split, List.mem_cons, List.not_mem_nil, or_false] at hn
    omega
  | case3 a =>
    intro n hn
    have := a.toNat_lt
    simp only [split, List.mem_cons, List.not_mem_nil, or_false] at hn
    omega
  | case4 => simp [split]

theorem ofNat_eq {n : Nat} {b : UInt8} (h : n = b.toNat) : UInt8.ofNat n = b := by
  rw [h, UInt8.ofNat_toNat]

theorem join_split (bytes : List UInt8) : join (split bytes) = some bytes := by
  induction bytes using split.induct with
  | case1 a b c rest ih =>
    have := a.toNat_lt
    have := b.toNat_lt
    have := c.toNat_lt
    simp only [split, join, ih, Option.map_some, Option.some.injEq, List.cons.injEq, and_true]
    refine ⟨ofNat_eq ?_, ofNat_eq ?_, ofNat_eq ?_⟩ <;> omega
  | case2 a b =>
    have := a.toNat_lt
    have := b.toNat_lt
    simp only [split, join, Option.some.injEq, List.cons.injEq, and_true]
    refine ⟨ofNat_eq ?_, ofNat_eq ?_⟩ <;> omega
  | case3 a =>
    have := a.toNat_lt
    simp only [split, join, Option.some.injEq, List.cons.injEq, and_true]
    exact ofNat_eq (by omega)
  | case4 => rfl

theorem letters_spec {ns : List Nat} (small : ∀ n ∈ ns, n < 64) :
    ((ns.map letter).filter fun b => !lineBreak b) = ns.map letter ∧
      (ns.map letter).mapM sextet = some ns := by
  induction ns with
  | nil => exact ⟨rfl, rfl⟩
  | cons n rest ih =>
    obtain ⟨reads, plain⟩ := letter_spec n (small n List.mem_cons_self)
    obtain ⟨kept, read⟩ := ih fun m hm => small m (List.mem_cons_of_mem n hm)
    refine ⟨?_, ?_⟩
    · simp [plain, kept]
    · simp [List.mapM_cons, reads, read]

/-- The decoder undoes the encoder. -/
theorem decode_encode (bytes : List UInt8) : decode (encode bytes) = some bytes := by
  obtain ⟨kept, read⟩ := letters_spec (split_lt bytes)
  rw [decode, encode, kept, read]
  exact join_split bytes

end Byom.Encoding.Base64
