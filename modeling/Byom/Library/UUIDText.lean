import Byom.Library.Catalog

/-!
# UUIDs and their text

`UUID.parse` reads back what `UUID.string` writes, so two UUIDs with one text are one.
-/

namespace Byom.Storage.UUID

/-- The value of a hexadecimal digit, of either case. -/
def hexValue (c : Char) : Option Nat :=
  if '0' ≤ c ∧ c ≤ '9' then some (c.toNat - '0'.toNat)
  else if 'a' ≤ c ∧ c ≤ 'f' then some (c.toNat - 'a'.toNat + 10)
  else if 'A' ≤ c ∧ c ≤ 'F' then some (c.toNat - 'A'.toNat + 10)
  else none

def hexNumber : List Char → Nat → Option Nat
  | [], n => some n
  | c :: rest, n => do
    let d ← hexValue c
    hexNumber rest (16 * n + d)

/-- The form with 32 digits in five groups. -/
def parseDashed (cs : List Char) : Option UUID :=
  if cs[8]? = some '-' ∧ cs[13]? = some '-' ∧ cs[18]? = some '-' ∧ cs[23]? = some '-' then
    (hexNumber (cs.take 8 ++ (cs.drop 9).take 4 ++ (cs.drop 14).take 4 ++ (cs.drop 19).take 4 ++
      (cs.drop 24).take 12) 0).map (BitVec.ofNat 128)
  else none

/-- `uuid.Parse`: the text may also have a URN prefix, braces or no dashes. -/
def parse (s : String) : Option UUID :=
  let cs := s.toList
  if cs.length = 36 then parseDashed cs
  else if cs.length = 45 then
    if (cs.take 9).map Char.toLower = "urn:uuid:".toList then parseDashed (cs.drop 9) else none
  else if cs.length = 38 then parseDashed (cs.drop 1)
  else if cs.length = 32 then (hexNumber cs 0).map (BitVec.ofNat 128)
  else none

theorem hexValue_digitChar : ∀ d < 16, hexValue (Nat.digitChar d) = some d := by decide

theorem hexValue_hexDigit (u : UUID) (i : Nat) :
    hexValue (hexDigit u i) = some (u.toNat / 16 ^ (31 - i) % 16) :=
  hexValue_digitChar _ (Nat.mod_lt _ (by decide))

/-- Digits from position `i` on extend the number of those before. -/
theorem hexNumber_hexDigit (u : UUID) {k i : Nat} (fits : i + k ≤ 32) :
    hexNumber ((List.range' i k).map (hexDigit u)) (u.toNat / 16 ^ (32 - i)) =
      some (u.toNat / 16 ^ (32 - (i + k))) := by
  induction k generalizing i with
  | zero => rfl
  | succ k ih =>
    have next : 16 * (u.toNat / 16 ^ (32 - i)) + u.toNat / 16 ^ (31 - i) % 16 =
        u.toNat / 16 ^ (32 - (i + 1)) := by
      have place : 32 - i = 31 - i + 1 := by omega
      have same : 32 - (i + 1) = 31 - i := by omega
      rw [place, same, pow_succ, ← Nat.div_div_eq_div_mul]
      omega
    rw [List.range'_succ, List.map_cons, hexNumber, hexValue_hexDigit]
    simp only [Option.bind_eq_bind, Option.bind_some]
    rw [next, ih (by omega)]
    congr 3
    omega

theorem hexNumber_digits (u : UUID) :
    hexNumber ((List.range 32).map (hexDigit u)) 0 = some u.toNat := by
  have none_ : u.toNat / 16 ^ (32 - 0) = 0 := Nat.div_eq_of_lt u.isLt
  have all := hexNumber_hexDigit u (k := 32) (i := 0) (by decide)
  rw [none_] at all
  simpa [List.range_eq_range'] using all

theorem parse_string (u : UUID) : parse u.string = some u := by
  have digits := hexNumber_digits u
  simp only [List.range, List.range.loop, List.map_cons, List.map_nil] at digits
  unfold parse parseDashed string
  simp [List.range, List.range.loop, List.intercalate, digits]

end Byom.Storage.UUID
