import Byom.Encoding.Json
import Byom.Paging.Keyset

/-!
# Page sizes and tokens

A token is kept as the document that its text carries: `json.Marshal` and base64 are
undone by their decoders.
-/

namespace Byom.Page

open Encoding

def defaultSize : Nat := 50

def maxSize : Nat := 200

/-- `page.Size`. -/
def size (n : Int) : Nat := if n ≤ 0 then defaultSize else min n.toNat maxSize

theorem size_pos (n : Int) : 0 < size n := by
  unfold size
  split
  · decide
  · have : 0 < n.toNat := by omega
    exact Nat.lt_min.mpr ⟨this, by decide⟩

theorem size_le (n : Int) : size n ≤ maxSize := by
  unfold size
  split
  · decide
  · exact Nat.min_le_right _ _

/-- `malformed` is a text that base64 or JSON rejects. -/
inductive Token where
  | empty
  | document (json : Json)
  | malformed

/-- Why a listing fails. The first is `ErrInvalidToken`. -/
inductive Error where
  | invalidToken
  | unknownOrder (text : String)
  deriving DecidableEq, Repr

/-- `page.Encode`. -/
def encode {Cursor : Type} (write : Cursor → Json) (cursor : Cursor) : Token :=
  .document (write cursor)

/-- `page.Decode`, into a cursor with all fields zero. -/
def decode {Cursor : Type} (fields : List (Encoding.Field Cursor)) (zero : Cursor) :
    Token → Except Error Cursor
  | .document json =>
    match Field.decode fields json zero with
    | some cursor => .ok cursor
    | none => .error .invalidToken
  | _ => .error .invalidToken

/-- The start of a listing: the cursor to resume after, if it is for these parameters. -/
def resume {Cursor : Type} (fields : List (Encoding.Field Cursor)) (zero : Cursor)
    (accepts : Cursor → Bool) : Token → Except Error (Option Cursor)
  | .empty => .ok none
  | token => do
    let cursor ← decode fields zero token
    if accepts cursor then .ok (some cursor) else .error .invalidToken

/-- The end of a listing: of the rows selected, one more than the limit, the last one
within it leads on. -/
def cut {Row : Type} (limit : Nat) (next : Row → Token) (got : List Row) : List Row × Token :=
  if limit < got.length then
    (got.take limit, ((got.take limit).getLast?.map next).getD .empty)
  else (got, .empty)

/-- The query of a listing, `WHERE key > cursor ORDER BY key LIMIT limit + 1`, and its
end. -/
def read {Row Key : Type} (before : Key → Key → Prop) [DecidableRel before] (key : Row → Key)
    (cursor : Option Key) (next : Row → Token) (limit : Int) (rows : List Row) :
    List Row × Token :=
  cut (size limit) next ((Paging.rowsAfter before key cursor rows).take (size limit + 1))

theorem decode_encode {Cursor : Type} {fields : List (Encoding.Field Cursor)}
    {zero cursor : Cursor} {write : Cursor → Json}
    (h : Field.decode fields (write cursor) zero = some cursor) :
    decode fields zero (encode write cursor) = .ok cursor := by
  simp [decode, encode, h]

section Resume

variable {Cursor : Type} {fields : List (Encoding.Field Cursor)} {zero cursor : Cursor}
  {accepts : Cursor → Bool}

theorem resume_document {json : Json} (h : Field.decode fields json zero = some cursor) :
    resume fields zero accepts (.document json) =
      if accepts cursor then .ok (some cursor) else .error .invalidToken := by
  simp [resume, decode, h, bind, Except.bind]

/-- A document with a member that the cursor has no field for is rejected. -/
theorem resume_unknown {members : List (String × Json)} {name : String} {json : Json}
    (listed : (name, json) ∈ members) (unknown : Field.find fields name = none) :
    resume fields zero accepts (.document (.object members)) = .error .invalidToken := by
  have failed : Field.decode fields (.object members) zero = none :=
    Field.decode_unknown listed unknown
  simp [resume, decode, failed, bind, Except.bind]

end Resume

section Read

variable {Row Key : Type} {before : Key → Key → Prop} [DecidableRel before] {key : Row → Key}
  {cursor : Option Key} {next : Row → Token} {limit : Int} {rows : List Row}

/-- A page with the token of its last row, if more rows follow. -/
theorem read_eq_page (before : Key → Key → Prop) [DecidableRel before] (key : Row → Key)
    (cursor : Option Key) (next : Row → Token) (limit : Int) (rows : List Row) :
    ∃ token, read before key cursor next limit rows =
      ((Paging.page before key cursor (size limit) rows).1, token) ∧
    match (Paging.page before key cursor (size limit) rows).2 with
    | none => token = .empty
    | some k => ∃ row, key row = k ∧ token = next row := by
  unfold read cut Paging.page
  simp only
  split
  · cases (((Paging.rowsAfter before key cursor rows).take (size limit + 1)).take
      (size limit)).getLast? with
    | none => exact ⟨_, rfl, rfl⟩
    | some row => exact ⟨_, rfl, row, rfl, rfl⟩
  · exact ⟨_, rfl, rfl⟩

/-- A token that is issued is that of a row. -/
theorem read_token {token : Token} (issued : (read before key cursor next limit rows).2 = token)
    (some_ : token ≠ .empty) : ∃ row, token = next row := by
  obtain ⟨issued', same, ends⟩ := read_eq_page before key cursor next limit rows
  rw [same] at issued
  obtain rfl : issued' = token := issued
  split at ends
  · exact absurd ends some_
  · obtain ⟨row, _, rfl⟩ := ends
    exact ⟨row, rfl⟩

end Read

end Byom.Page
