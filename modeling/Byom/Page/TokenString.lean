import Byom.Page.TokenText

/-!
# The tokens that clients hold

A client has a token as text and sends it back as it is. The text of a token that a listing
of artists or albums issues is read as the same token.
-/

namespace Byom.Encoding

mutual

/-- The document that a value is written as, unless there is a null or a number in it. -/
def Json.toDocument : Json → Option Document
  | .null => none
  | .bool b => some (.bool b)
  | .number _ => none
  | .string s => some (.string (Utf8.bytes s.toList))
  | .array items => (itemDocuments items).map .array
  | .object members => (memberDocuments members).map .object

def itemDocuments : List Json → Option (List Document)
  | [] => some []
  | json :: rest => json.toDocument.bind fun d => (itemDocuments rest).map (d :: ·)

def memberDocuments : List (String × Json) → Option (List (String × Document))
  | [] => some []
  | (name, json) :: rest =>
    json.toDocument.bind fun d => (memberDocuments rest).map ((name, d) :: ·)

end

mutual

/-- What is read back is what was to be written. -/
theorem clean_toDocument (json : Json) {d : Document} (h : json.toDocument = some d) :
    d.clean = json := by
  cases json with
  | null => simp [Json.toDocument] at h
  | number n => simp [Json.toDocument] at h
  | bool b =>
    obtain rfl : Document.bool b = d := by simpa [Json.toDocument] using h
    simp [Document.clean]
  | string s =>
    obtain rfl : Document.string (Utf8.bytes s.toList) = d := by simpa [Json.toDocument] using h
    simp [Document.clean]
  | array items =>
    rw [Json.toDocument] at h
    obtain ⟨ds, written, rfl⟩ := Option.map_eq_some_iff.mp h
    simp [Document.clean, clean_itemDocuments items written]
  | object members =>
    rw [Json.toDocument] at h
    obtain ⟨ds, written, rfl⟩ := Option.map_eq_some_iff.mp h
    simp [Document.clean, clean_memberDocuments members written]

theorem clean_itemDocuments (items : List Json) {ds : List Document}
    (h : itemDocuments items = some ds) : cleanItems ds = items := by
  match items with
  | [] =>
    obtain rfl : [] = ds := by simpa [itemDocuments] using h
    simp [cleanItems]
  | json :: rest =>
    rw [itemDocuments] at h
    obtain ⟨d, first, more⟩ := Option.bind_eq_some_iff.mp h
    obtain ⟨ds, later, rfl⟩ := Option.map_eq_some_iff.mp more
    simp [cleanItems, clean_toDocument json first, clean_itemDocuments rest later]

theorem clean_memberDocuments (members : List (String × Json)) {ds : List (String × Document)}
    (h : memberDocuments members = some ds) : cleanMembers ds = members := by
  match members with
  | [] =>
    obtain rfl : [] = ds := by simpa [memberDocuments] using h
    simp [cleanMembers]
  | (name, json) :: rest =>
    rw [memberDocuments] at h
    obtain ⟨d, first, more⟩ := Option.bind_eq_some_iff.mp h
    obtain ⟨ds, later, rfl⟩ := Option.map_eq_some_iff.mp more
    simp [cleanMembers, clean_toDocument json first, clean_memberDocuments rest later]

end

/-- A document with text only. -/
def Json.Textual (json : Json) : Prop := json.toDocument.isSome

namespace Json.Textual

theorem string (s : String) : (Json.string s).Textual := by simp [Json.Textual, toDocument]

theorem bool (b : Bool) : (Json.bool b).Textual := by simp [Json.Textual, toDocument]

theorem array {items : List Json} (all : ∀ json ∈ items, json.Textual) :
    (Json.array items).Textual := by
  have written : (itemDocuments items).isSome := by
    induction items with
    | nil => simp [itemDocuments]
    | cons json rest ih =>
      obtain ⟨first, later⟩ := List.forall_mem_cons.mp all
      obtain ⟨d, own⟩ := Option.isSome_iff_exists.mp first
      simpa [itemDocuments, own] using ih later
  simpa [Json.Textual, toDocument] using written

theorem object {members : List (String × Json)} (all : ∀ m ∈ members, m.2.Textual) :
    (Json.object members).Textual := by
  have written : (memberDocuments members).isSome := by
    induction members with
    | nil => simp [memberDocuments]
    | cons m rest ih =>
      obtain ⟨first, later⟩ := List.forall_mem_cons.mp all
      obtain ⟨d, own⟩ := Option.isSome_iff_exists.mp first
      simpa [memberDocuments, own] using ih later
  simpa [Json.Textual, toDocument] using written

/-- A member that may be left out. -/
theorem member {α : Type} [DecidableEq α] {name : String} {zero a : α} {json : α → Json}
    (textual : (json a).Textual) : ∀ m ∈ Encoding.member name zero json a, m.2.Textual := by
  intro m listed
  unfold Encoding.member at listed
  split at listed
  · cases listed
  · obtain rfl := List.mem_singleton.mp listed
    exact textual

end Json.Textual

namespace Base64

theorem letter_ascii : ∀ n < 64, (letter n).toNat < 128 := by decide

theorem encode_ascii (bytes : List UInt8) : ∀ b ∈ encode bytes, b.toNat < 128 := by
  intro b member
  obtain ⟨n, listed, rfl⟩ := List.mem_map.mp member
  exact letter_ascii n (split_lt bytes n listed)

theorem encode_ne_nil {bytes : List UInt8} (some_ : bytes ≠ []) : encode bytes ≠ [] := by
  cases bytes with
  | nil => exact absurd rfl some_
  | cons a rest =>
    match rest with
    | [] => simp [encode, split]
    | [b] => simp [encode, split]
    | b :: c :: rest => simp [encode, split]

end Base64

/-- Bytes of ASCII as a string. -/
def asciiString (bs : List UInt8) : String := String.ofList (bs.map fun b => Char.ofNat b.toNat)

theorem bytes_asciiString {bs : List UInt8} (ascii : ∀ b ∈ bs, b.toNat < 128) :
    Utf8.bytes (asciiString bs).toList = bs := by
  unfold asciiString
  rw [String.toList_ofList]
  induction bs with
  | nil => rfl
  | cons b rest ih =>
    obtain ⟨small, later⟩ := List.forall_mem_cons.mp ascii
    have valid : b.toNat.isValidChar := .inl (by omega)
    have made : Char.ofNat b.toNat = Char.ofNatAux b.toNat valid := dif_pos valid
    have code : (Char.ofNat b.toNat).toNat = b.toNat := by
      rw [made]
      rfl
    have own : String.utf8EncodeChar (Char.ofNat b.toNat) = [b] := by
      rw [JsonText.encode_ascii (code.symm ▸ small), code, UInt8.ofNat_toNat]
    have split : Utf8.bytes ((b :: rest).map fun b => Char.ofNat b.toNat) =
        String.utf8EncodeChar (Char.ofNat b.toNat) ++
          Utf8.bytes (rest.map fun b => Char.ofNat b.toNat) := rfl
    rw [split, own, ih later]
    rfl

end Byom.Encoding

namespace Byom.Page

open Encoding

/-- The text of a token that is issued. Only the cursors of tracks and scans have numbers. -/
def Token.text : Token → String
  | .document json => (json.toDocument.map fun d => asciiString (encodeText d)).getD ""
  | _ => ""

/-- The token of a text, up to the fields of the cursor. -/
def Token.ofText (s : String) : Token :=
  if s = "" then .empty
  else
    match (Base64.decode (Utf8.bytes s.toList)).bind JsonText.parse with
    | none => .malformed
    | some json => .document json

variable {json : Json}

theorem Token.text_document {d : Document} (written : json.toDocument = some d) :
    (Token.document json).text = asciiString (encodeText d) := by
  rw [Token.text, written, Option.map_some, Option.getD_some]

theorem encodeText_ascii (d : Document) : ∀ b ∈ encodeText d, b.toNat < 128 :=
  Base64.encode_ascii _

theorem Token.text_ne_empty (textual : json.Textual) : (Token.document json).text ≠ "" := by
  obtain ⟨d, written⟩ := Option.isSome_iff_exists.mp textual
  rw [Token.text_document written]
  intro empty
  have bytes := bytes_asciiString (encodeText_ascii d)
  rw [empty] at bytes
  obtain ⟨b, text, first, _⟩ := JsonText.write_cons d
  refine Base64.encode_ne_nil ?_ bytes.symm
  rw [first]
  exact List.cons_ne_nil b text

/-- A client that sends the text of a token sends the token. -/
theorem Token.ofText_text (textual : json.Textual) :
    Token.ofText (Token.document json).text = .document json := by
  have some_ := Token.text_ne_empty textual
  obtain ⟨d, written⟩ := Option.isSome_iff_exists.mp textual
  rw [Token.text_document written] at some_ ⊢
  rw [Token.ofText, if_neg some_, bytes_asciiString (encodeText_ascii d), encodeText,
    Base64.decode_encode, Option.bind_some, JsonText.parse_write, clean_toDocument json written]

end Byom.Page
