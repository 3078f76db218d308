import Byom.Encoding.Json
import Byom.Encoding.Utf8

/-!
# The text of a JSON document

Strings are bytes on the way in, as a struct has them. The text has an escape for a byte
that is not valid UTF-8, and reading it back gives the replacement character.
-/

namespace Byom.Encoding

/-- What is written. -/
inductive Document where
  | bool (b : Bool)
  | string (s : List UInt8)
  | array (items : List Document)
  | object (members : List (String × Document))

mutual

/-- The document that is read back. -/
def Document.clean : Document → Json
  | .bool b => .bool b
  | .string s => .string (String.ofList (Utf8.clean s))
  | .array items => .array (cleanItems items)
  | .object members => .object (cleanMembers members)

def cleanItems : List Document → List Json
  | [] => []
  | d :: rest => d.clean :: cleanItems rest

def cleanMembers : List (String × Document) → List (String × Json)
  | [] => []
  | (name, d) :: rest => (name, d.clean) :: cleanMembers rest

end

namespace JsonText

open Utf8

/-! ### Strings -/

def hexLetter (n : Nat) : UInt8 := if n < 10 then .ofNat (n + 48) else .ofNat (n + 87)

def hexValue (b : UInt8) : Option Nat :=
  let n := b.toNat
  if 48 ≤ n ∧ n ≤ 57 then some (n - 48)
  else if 97 ≤ n ∧ n ≤ 102 then some (n - 87)
  else if 65 ≤ n ∧ n ≤ 70 then some (n - 55)
  else none

/-- A backslash, a `u` and four digits. -/
def unitEscape (n : Nat) : List UInt8 :=
  [92, 117, hexLetter (n / 4096), hexLetter (n / 256 % 16), hexLetter (n / 16 % 16),
    hexLetter (n % 16)]

/-- The letter of a short escape that is written. -/
def shortEscape (n : Nat) : Option UInt8 :=
  if n = 34 then some 34
  else if n = 92 then some 92
  else if n = 8 then some 98
  else if n = 9 then some 116
  else if n = 10 then some 110
  else if n = 12 then some 102
  else if n = 13 then some 114
  else none

/-- The short escapes that are read; a slash may have one. -/
def ofEscape (e : UInt8) : Option UInt8 :=
  if e = 34 ∨ e = 92 ∨ e = 47 then some e
  else if e = 98 then some 8
  else if e = 116 then some 9
  else if e = 110 then some 10
  else if e = 102 then some 12
  else if e = 114 then some 13
  else none

/-- `appendString`, rune by rune: control characters, the letters that HTML reserves and the
two line separators are escaped, and so is an invalid byte. -/
def quoteRune : Option Char → List UInt8
  | none => unitEscape 0xFFFD
  | some c =>
    match shortEscape c.toNat with
    | some e => [92, e]
    | none =>
      if c.toNat < 32 ∨ c.toNat ∈ [38, 60, 62, 0x2028, 0x2029] then unitEscape c.toNat
      else String.utf8EncodeChar c

def quote (s : List UInt8) : List UInt8 := 34 :: ((runes s).flatMap quoteRune ++ [34])

/-- Four hex digits. -/
def unit : List UInt8 → Option Nat
  | a :: b :: c :: d :: _ => do
    let a ← hexValue a
    let b ← hexValue b
    let c ← hexValue c
    let d ← hexValue d
    return ((a * 16 + b) * 16 + c) * 16 + d
  | _ => none

/-- `utf16.DecodeRune`. -/
def surrogatePair (high low : Nat) : Option Nat :=
  if 0xD800 ≤ high ∧ high < 0xDC00 ∧ 0xDC00 ≤ low ∧ low < 0xE000 then
    some ((high - 0xD800) * 1024 + (low - 0xDC00) + 0x10000)
  else none

/-- What follows a backslash: the bytes that it stands for, and how many it takes. -/
def escape : List UInt8 → Option (List UInt8 × Nat)
  | [] => none
  | e :: rest =>
    if e = 117 then
      (unit rest).map fun u =>
        if u < 0xD800 ∨ 0xE000 ≤ u then (String.utf8EncodeChar (Char.ofNat u), 5)
        else
          let low := if (rest.drop 4).take 2 = [92, 117] then unit (rest.drop 6) else none
          match low.bind (surrogatePair u) with
          | some n => (String.utf8EncodeChar (Char.ofNat n), 11)
          | none => (String.utf8EncodeChar replacement, 5)
    else (ofEscape e).map fun b => ([b], 1)

/-- The bytes of a string up to its closing quote, and what comes after it, past some bytes
that belong to an escape. -/
def unquoteFrom : Nat → List UInt8 → Option (List UInt8 × List UInt8)
  | _, [] => none
  | skip + 1, _ :: bs => unquoteFrom skip bs
  | 0, b :: bs =>
    if b = 34 then some ([], bs)
    else if b = 92 then
      match escape bs with
      | none => none
      | some (text, width) => (unquoteFrom width bs).map fun (s, rest) => (text ++ s, rest)
    else if b < 32 then none
    else (unquoteFrom 0 bs).map fun (s, rest) => (b :: s, rest)

/-- A string behind its opening quote; bytes that are invalid are replaced. -/
def unquote (bs : List UInt8) : Option (String × List UInt8) :=
  (unquoteFrom 0 bs).map fun (s, rest) => (String.ofList (clean s), rest)

variable {bs rest text : List UInt8} {b : UInt8} {n : Nat} {c : Char}

theorem unquoteFrom_eq (skip : Nat) (bs : List UInt8) :
    unquoteFrom skip bs = unquoteFrom 0 (bs.drop skip) := by
  induction bs generalizing skip with
  | nil => cases skip <;> rfl
  | cons b bs ih =>
    cases skip with
    | zero => rfl
    | succ skip => exact ih skip

/-- Bytes that stand for themselves. -/
def Plain (b : UInt8) : Prop := b ≠ 34 ∧ b ≠ 92 ∧ ¬ b < 32

theorem plain_iff : Plain b ↔ b.toNat ≠ 34 ∧ b.toNat ≠ 92 ∧ 32 ≤ b.toNat := by
  unfold Plain
  rw [ne_eq, ne_eq, ← UInt8.toNat_inj, ← UInt8.toNat_inj, UInt8.lt_iff_toNat_lt, Nat.not_lt]
  rfl

theorem unquoteFrom_plain {raw : List UInt8} (plain : ∀ b ∈ raw, Plain b) (rest : List UInt8) :
    unquoteFrom 0 (raw ++ rest) = (unquoteFrom 0 rest).map fun p => (raw ++ p.1, p.2) := by
  induction raw with
  | nil => simp
  | cons b raw ih =>
    obtain ⟨noQuote, noEscape, printable⟩ := plain b List.mem_cons_self
    have later := ih fun x hx => plain x (List.mem_cons_of_mem b hx)
    simp only [List.cons_append, unquoteFrom, noQuote, noEscape, printable, if_false, later,
      Option.map_map]
    rfl

theorem unquoteFrom_escape {letters : List UInt8}
    (reads : escape (letters ++ rest) = some (text, letters.length)) :
    unquoteFrom 0 (92 :: letters ++ rest) =
      (unquoteFrom 0 rest).map fun p => (text ++ p.1, p.2) := by
  have apart : (92 : UInt8) ≠ 34 := by decide
  simp only [List.cons_append, unquoteFrom, apart, if_false, if_true, reads]
  rw [unquoteFrom_eq, List.drop_left]

theorem hexValue_hexLetter : ∀ n < 16, hexValue (hexLetter n) = some n := by decide

theorem escape_unit {u : Nat} (small : u < 0x10000) (single : u < 0xD800 ∨ 0xE000 ≤ u)
    (rest : List UInt8) : escape ((unitEscape u).tail ++ rest) =
      some (String.utf8EncodeChar (Char.ofNat u), 5) := by
  have digits : unit ((unitEscape u).drop 2 ++ rest) = some u := by
    simp only [unitEscape, List.drop_succ_cons, List.drop_zero, List.cons_append, unit,
      hexValue_hexLetter (u / 4096) (by omega), hexValue_hexLetter (u / 256 % 16) (by omega),
      hexValue_hexLetter (u / 16 % 16) (by omega), hexValue_hexLetter (u % 16) (by omega)]
    simp only [Option.bind_eq_bind, Option.bind_some, Option.pure_def, Option.some.injEq]
    omega
  simp only [unitEscape, List.drop_succ_cons, List.drop_zero, List.cons_append] at digits
  simp only [unitEscape, List.tail_cons, List.cons_append, escape, if_true, digits,
    Option.map_some, single]

theorem ofEscape_shortEscape {e : UInt8} (h : shortEscape n = some e) :
    ofEscape e = some (.ofNat n) ∧ e ≠ 117 ∧ n < 128 := by
  have listed : n ∈ [34, 92, 8, 9, 10, 12, 13] := by
    by_contra absent
    simp_all [shortEscape]
  simp only [List.mem_cons, List.not_mem_nil, or_false] at listed
  rcases listed with rfl | rfl | rfl | rfl | rfl | rfl | rfl <;> cases h <;> decide

theorem le_ofNat {m : Nat} (high : 128 ≤ m) (small : m < 256) : 128 ≤ (UInt8.ofNat m).toNat := by
  rw [UInt8.toNat_ofNat', Nat.mod_eq_of_lt small]
  exact high

/-- The bytes of a character that is not of ASCII are none of ASCII. -/
theorem le_of_mem_encode (h : 128 ≤ c.toNat) : ∀ b ∈ String.utf8EncodeChar c, 128 ≤ b.toNat := by
  have big : ¬ c.val.toNat ≤ 127 := Nat.not_le.mpr h
  intro b hb
  simp only [String.utf8EncodeChar, big, if_false] at hb
  split at hb
  · simp only [List.mem_cons, List.not_mem_nil, or_false] at hb
    rcases hb with rfl | rfl <;> exact le_ofNat (by omega) (by omega)
  · split at hb
    · simp only [List.mem_cons, List.not_mem_nil, or_false] at hb
      rcases hb with rfl | rfl | rfl <;> exact le_ofNat (by omega) (by omega)
    · simp only [List.mem_cons, List.not_mem_nil, or_false] at hb
      rcases hb with rfl | rfl | rfl | rfl <;> exact le_ofNat (by omega) (by omega)

theorem encode_ascii (h : c.toNat < 128) : String.utf8EncodeChar c = [.ofNat c.toNat] := by
  have small : c.val.toNat ≤ 127 := Nat.le_of_lt_succ h
  simp only [String.utf8EncodeChar, small, if_true]
  rfl

/-- Reading undoes writing, rune by rune. -/
theorem unquoteFrom_quoteRune (r : Option Char) (rest : List UInt8) :
    unquoteFrom 0 (quoteRune r ++ rest) = (unquoteFrom 0 rest).map fun p =>
      (String.utf8EncodeChar (r.getD replacement) ++ p.1, p.2) := by
  cases r with
  | none =>
    have reads := escape_unit (u := 0xFFFD) (by decide) (.inr (by decide)) rest
    exact unquoteFrom_escape reads
  | some c =>
    simp only [quoteRune, Option.getD_some]
    split
    · rename_i e short
      obtain ⟨reads, noUnit, ascii⟩ := ofEscape_shortEscape short
      rw [encode_ascii ascii]
      have escaped : escape ([e] ++ rest) = some ([.ofNat c.toNat], [e].length) := by
        simp [escape, noUnit, reads]
      exact unquoteFrom_escape escaped
    · rename_i long
      split
      · rename_i special
        have small : c.toNat < 0x10000 ∧ (c.toNat < 0xD800 ∨ 0xE000 ≤ c.toNat) := by
          simp only [List.mem_cons, List.not_mem_nil, or_false] at special
          omega
        have reads := escape_unit small.1 small.2 rest
        rw [Char.ofNat_toNat] at reads
        exact unquoteFrom_escape reads
      · rename_i ordinary
        refine unquoteFrom_plain ?_ rest
        intro b hb
        rw [plain_iff]
        rcases Nat.lt_or_ge c.toNat 128 with ascii | beyond
        · rw [encode_ascii ascii, List.mem_singleton] at hb
          subst hb
          rw [UInt8.toNat_ofNat', Nat.mod_eq_of_lt (by omega)]
          refine ⟨?_, ?_, by omega⟩
          · intro same
            simp [shortEscape, same] at long
          · intro same
            simp [shortEscape, same] at long
        · have := le_of_mem_encode beyond b hb
          omega

theorem unquoteFrom_quote (rs : List (Option Char)) (rest : List UInt8) :
    unquoteFrom 0 (rs.flatMap quoteRune ++ 34 :: rest) =
      some (bytes (rs.map fun r => r.getD replacement), rest) := by
  induction rs with
  | nil => rfl
  | cons r rs ih =>
    rw [List.flatMap_cons, List.append_assoc, unquoteFrom_quoteRune, ih]
    rfl

theorem unquote_quote (s rest : List UInt8) :
    unquote ((quote s).tail ++ rest) = some (String.ofList (clean s), rest) := by
  have reads := unquoteFrom_quote (runes s) rest
  rw [unquote, quote, List.tail_cons, List.append_assoc, List.singleton_append, reads,
    Option.map_some]
  exact congrArg (fun cs => some (String.ofList cs, rest)) (clean_bytes (clean s))

/-! ### Documents -/

def nullWord : List UInt8 := [110, 117, 108, 108]

def trueWord : List UInt8 := [116, 114, 117, 101]

def falseWord : List UInt8 := [102, 97, 108, 115, 101]

mutual

def write : Document → List UInt8
  | .bool b => if b then trueWord else falseWord
  | .string s => quote s
  | .array [] => [91, 93]
  | .array (d :: rest) => 91 :: (write d ++ writeItems rest)
  | .object [] => [123, 125]
  | .object ((name, d) :: rest) =>
    123 :: (quote (bytes name.toList) ++ 58 :: (write d ++ writeMembers rest))

/-- The items after the first one, and the bracket. -/
def writeItems : List Document → List UInt8
  | [] => [93]
  | d :: rest => 44 :: (write d ++ writeItems rest)

def writeMembers : List (String × Document) → List UInt8
  | [] => [125]
  | (name, d) :: rest => 44 :: (quote (bytes name.toList) ++ 58 :: (write d ++ writeMembers rest))

end

/-- Spaces, tabs and line breaks. -/
def space (b : UInt8) : Bool := b = 32 || b = 9 || b = 10 || b = 13

def skipSpaces (bs : List UInt8) : List UInt8 := bs.dropWhile space

/-- A letter after spaces, and what comes after it. -/
def expect (b : UInt8) (bs : List UInt8) : Option (List UInt8) :=
  match skipSpaces bs with
  | [] => none
  | x :: rest => if x = b then some rest else none

def digit (b : UInt8) : Bool := 48 ≤ b && b ≤ 57

/-- An integer. Only a zero starts with a zero. -/
def number (bs : List UInt8) : Option (Json × List UInt8) :=
  let (negative, bs) := if bs.head? = some 45 then (true, bs.tail) else (false, bs)
  let digits := if bs.head? = some 48 then [48] else bs.takeWhile digit
  let n : Int := digits.foldl (fun n d => n * 10 + (d.toNat - 48)) 0
  if digits = [] then none
  else some (.number (if negative then -n else n), bs.drop digits.length)

/-- A value that is one word. A number with a fraction or an exponent, which no field takes,
is none. -/
def word (bs : List UInt8) : Option (Json × List UInt8) :=
  if nullWord.isPrefixOf bs then some (.null, bs.drop 4)
  else if trueWord.isPrefixOf bs then some (.bool true, bs.drop 4)
  else if falseWord.isPrefixOf bs then some (.bool false, bs.drop 5)
  else number bs

mutual

/-- A value, and what comes after it. -/
def value : Nat → List UInt8 → Option (Json × List UInt8)
  | 0, _ => none
  | fuel + 1, bs =>
    match skipSpaces bs with
    | [] => none
    | b :: rest =>
      if b = 34 then (unquote rest).map fun (s, rest) => (.string s, rest)
      else if b = 91 then
        match expect 93 rest with
        | some rest => some (.array [], rest)
        | none => (items fuel rest).map fun (items, rest) => (.array items, rest)
      else if b = 123 then
        match expect 125 rest with
        | some rest => some (.object [], rest)
        | none => (members fuel rest).map fun (members, rest) => (.object members, rest)
      else word (b :: rest)

/-- The items of an array that has some, up to its bracket. -/
def items : Nat → List UInt8 → Option (List Json × List UInt8)
  | 0, _ => none
  | fuel + 1, bs => do
    let (item, bs) ← value fuel bs
    match expect 44 bs with
    | some bs =>
      let (rest, bs) ← items fuel bs
      return (item :: rest, bs)
    | none =>
      let bs ← expect 93 bs
      return ([item], bs)

def members : Nat → List UInt8 → Option (List (String × Json) × List UInt8)
  | 0, _ => none
  | fuel + 1, bs => do
    let bs ← expect 34 bs
    let (name, bs) ← unquote bs
    let bs ← expect 58 bs
    let (json, bs) ← value fuel bs
    match expect 44 bs with
    | some bs =>
      let (rest, bs) ← members fuel bs
      return ((name, json) :: rest, bs)
    | none =>
      let bs ← expect 125 bs
      return ([(name, json)], bs)

end

/-- The first value of a text, as `Decoder` takes it; what comes after it is left. -/
def parse (text : List UInt8) : Option Json := (value (text.length + 1) text).map Prod.fst

/-- A document from the documents in it. -/
theorem document_induction {P : Document → Prop} (bool : ∀ b, P (.bool b))
    (string : ∀ s, P (.string s)) (array : ∀ items, (∀ d ∈ items, P d) → P (.array items))
    (object : ∀ members, (∀ m ∈ members, P m.2) → P (.object members)) (d : Document) : P d := by
  match d with
  | .bool b => exact bool b
  | .string s => exact string s
  | .array items =>
    exact array items fun d _ => document_induction bool string array object d
  | .object members =>
    exact object members fun m _ => document_induction bool string array object m.2
termination_by sizeOf d
decreasing_by
  · have := List.sizeOf_lt_of_mem ‹d ∈ items›
    simp only [Document.array.sizeOf_spec]
    omega
  · have := List.sizeOf_lt_of_mem ‹m ∈ members›
    have : sizeOf m = 1 + sizeOf m.1 + sizeOf m.2 := by cases m; rfl
    simp only [Document.object.sizeOf_spec]
    omega

theorem expect_cons {x b : UInt8} (plain : space b = false) :
    expect x (b :: rest) = if b = x then some rest else none := by
  simp [expect, skipSpaces, plain]

/-- The first byte of a document, which is no space and closes nothing. -/
theorem write_cons (d : Document) : ∃ b text, write d = b :: text ∧ space b = false ∧
    b ≠ 93 ∧ b ≠ 125 := by
  cases d with
  | bool b => cases b <;> exact ⟨_, _, rfl, by decide, by decide, by decide⟩
  | string s => exact ⟨_, _, rfl, by decide, by decide, by decide⟩
  | array items => cases items <;> exact ⟨_, _, rfl, by decide, by decide, by decide⟩
  | object members =>
    cases members with
    | nil => exact ⟨_, _, rfl, by decide, by decide, by decide⟩
    | cons m rest => exact ⟨_, _, rfl, by decide, by decide, by decide⟩

/-- A document is read back, by a parser with enough fuel. -/
def Reads (d : Document) : Prop := ∀ fuel rest, (write d).length ≤ fuel →
  value fuel (write d ++ rest) = some (d.clean, rest)

theorem writeItems_length (ds : List Document) : 0 < (writeItems ds).length := by
  cases ds <;> simp [writeItems]

theorem writeMembers_length (ms : List (String × Document)) : 0 < (writeMembers ms).length := by
  cases ms <;> simp [writeMembers]

theorem items_write {ds : List Document} (reads : ∀ d ∈ ds, Reads d) :
    ∀ d, Reads d → ∀ fuel rest, (write d ++ writeItems ds).length ≤ fuel →
      items fuel (write d ++ (writeItems ds ++ rest)) = some (d.clean :: cleanItems ds, rest) := by
  induction ds with
  | nil =>
    intro d first fuel rest enough
    simp only [writeItems, List.length_append, List.length_singleton] at enough
    obtain ⟨fuel, rfl⟩ : ∃ f, fuel = f + 1 := ⟨fuel - 1, by omega⟩
    have read := first fuel (93 :: rest) (by omega)
    have open_ : expect 44 (93 :: rest) = none := expect_cons (by decide)
    have closed : expect 93 (93 :: rest) = some rest := expect_cons (by decide)
    simp [items, writeItems, read, open_, closed, cleanItems]
  | cons next ds ih =>
    intro d first fuel rest enough
    simp only [writeItems, List.length_append, List.length_cons] at enough
    obtain ⟨fuel, rfl⟩ : ∃ f, fuel = f + 1 := ⟨fuel - 1, by omega⟩
    have more := writeItems_length ds
    have read := first fuel (44 :: (write next ++ (writeItems ds ++ rest))) (by omega)
    have open_ : expect 44 (44 :: (write next ++ (writeItems ds ++ rest))) =
        some (write next ++ (writeItems ds ++ rest)) := expect_cons (by decide)
    have later := ih (fun x hx => reads x (List.mem_cons_of_mem next hx)) next
      (reads next List.mem_cons_self) fuel rest (by rw [List.length_append]; omega)
    simp [items, writeItems, read, open_, later, cleanItems]

theorem expect_quote (s text : List UInt8) :
    expect 34 (quote s ++ text) = some ((quote s).tail ++ text) := expect_cons (by decide)

theorem unquote_name (name : String) (text : List UInt8) :
    unquote ((quote (bytes name.toList)).tail ++ text) = some (name, text) := by
  rw [unquote_quote, clean_bytes, String.ofList_toList]

theorem members_write {ms : List (String × Document)} (reads : ∀ m ∈ ms, Reads m.2) :
    ∀ name d, Reads d → ∀ fuel rest, (write d ++ writeMembers ms).length ≤ fuel →
      members fuel (quote (bytes name.toList) ++ 58 :: (write d ++ (writeMembers ms ++ rest))) =
        some ((name, d.clean) :: cleanMembers ms, rest) := by
  induction ms with
  | nil =>
    intro name d first fuel rest enough
    simp only [writeMembers, List.length_append, List.length_singleton] at enough
    obtain ⟨fuel, rfl⟩ : ∃ f, fuel = f + 1 := ⟨fuel - 1, by omega⟩
    have read := first fuel (125 :: rest) (by omega)
    have colon : expect 58 (58 :: (write d ++ 125 :: rest)) = some (write d ++ 125 :: rest) :=
      expect_cons (by decide)
    have open_ : expect 44 (125 :: rest) = none := expect_cons (by decide)
    have closed : expect 125 (125 :: rest) = some rest := expect_cons (by decide)
    simp [members, writeMembers, expect_quote, unquote_name, colon, read, open_, closed,
      cleanMembers]
  | cons next ms ih =>
    intro name d first fuel rest enough
    obtain ⟨name', d'⟩ := next
    have more := writeMembers_length ms
    simp only [writeMembers, List.length_append, List.length_cons] at enough
    obtain ⟨fuel, rfl⟩ : ∃ f, fuel = f + 1 := ⟨fuel - 1, by omega⟩
    have later := ih (fun m hm => reads m (List.mem_cons_of_mem _ hm)) name' d'
      (reads _ List.mem_cons_self) fuel rest (by rw [List.length_append]; omega)
    have read := first fuel (44 :: (quote (bytes name'.toList) ++
      58 :: (write d' ++ (writeMembers ms ++ rest)))) (by omega)
    have colon : ∀ text, expect 58 (58 :: text) = some text := fun _ => expect_cons (by decide)
    have open_ : ∀ text, expect 44 (44 :: text) = some text := fun _ => expect_cons (by decide)
    simp [members, writeMembers, expect_quote, unquote_name, colon, read, open_, later,
      cleanMembers]

/-- A value by its first letter. -/
theorem value_cons {fuel : Nat} (plain : space b = false) : value (fuel + 1) (b :: rest) =
    if b = 34 then (unquote rest).map fun (s, rest) => (.string s, rest)
    else if b = 91 then
      match expect 93 rest with
      | some rest => some (.array [], rest)
      | none => (items fuel rest).map fun (items, rest) => (.array items, rest)
    else if b = 123 then
      match expect 125 rest with
      | some rest => some (.object [], rest)
      | none => (members fuel rest).map fun (members, rest) => (.object members, rest)
    else word (b :: rest) := by
  simp [value, skipSpaces, plain]

theorem value_write (d : Document) : Reads d := by
  induction d using document_induction with
  | bool b =>
    intro fuel rest enough
    obtain ⟨fuel, rfl⟩ : ∃ f, fuel = f + 1 :=
      ⟨fuel - 1, by cases b <;> simp [write, trueWord, falseWord] at enough <;> omega⟩
    cases b with
    | false => exact (value_cons (by decide)).trans rfl
    | true => exact (value_cons (by decide)).trans rfl
  | string s =>
    intro fuel rest enough
    obtain ⟨fuel, rfl⟩ : ∃ f, fuel = f + 1 := ⟨fuel - 1, by simp [write, quote] at enough; omega⟩
    have read := unquote_quote s rest
    simp only [quote, List.tail_cons, List.append_assoc, List.singleton_append] at read
    refine (value_cons (b := 34) (by decide)).trans ?_
    simp [read, Document.clean]
  | array ds reads =>
    intro fuel rest enough
    obtain ⟨fuel, rfl⟩ : ∃ f, fuel = f + 1 :=
      ⟨fuel - 1, by cases ds <;> simp [write] at enough <;> omega⟩
    cases ds with
    | nil =>
      have closed : expect 93 (93 :: rest) = some rest := expect_cons (by decide)
      refine (value_cons (b := 91) (by decide)).trans ?_
      simp [closed, Document.clean, cleanItems]
    | cons d ds =>
      obtain ⟨b, text, first, plain, open_, _⟩ := write_cons d
      have more : expect 93 (write d ++ (writeItems ds ++ rest)) = none := by
        rw [first, List.cons_append, expect_cons plain, if_neg open_]
      have read := items_write (fun x hx => reads x (List.mem_cons_of_mem d hx)) d
        (reads d List.mem_cons_self) fuel rest (by
          simp only [write, List.length_cons] at enough
          omega)
      simp only [write, List.cons_append, List.append_assoc]
      refine (value_cons (b := 91) (by decide)).trans ?_
      simp [more, read, Document.clean, cleanItems]
  | object ms reads =>
    intro fuel rest enough
    obtain ⟨fuel, rfl⟩ : ∃ f, fuel = f + 1 :=
      ⟨fuel - 1, by cases ms <;> simp [write] at enough <;> omega⟩
    cases ms with
    | nil =>
      have closed : expect 125 (125 :: rest) = some rest := expect_cons (by decide)
      refine (value_cons (b := 123) (by decide)).trans ?_
      simp [closed, Document.clean, cleanMembers]
    | cons m ms =>
      obtain ⟨name, d⟩ := m
      have more : ∀ text, expect 125 (quote (bytes name.toList) ++ text) = none := by
        intro text
        exact expect_cons (by decide)
      have read := members_write (fun m hm => reads m (List.mem_cons_of_mem _ hm)) name d
        (reads _ List.mem_cons_self) fuel rest (by
          simp only [write, List.length_cons, List.length_append] at enough ⊢
          omega)
      simp only [write, List.cons_append, List.append_assoc]
      refine (value_cons (b := 123) (by decide)).trans ?_
      simp [more, read, Document.clean, cleanMembers]

/-- Reading undoes writing, but for bytes that are not valid. -/
theorem parse_write (d : Document) : parse (write d) = some d.clean := by
  have read := value_write d ((write d).length + 1) [] (Nat.le_succ _)
  rw [List.append_nil] at read
  rw [parse, read]
  rfl

end JsonText

end Byom.Encoding
