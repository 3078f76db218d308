import Mathlib.Algebra.Group.Int.Defs
import Mathlib.Data.List.Basic

/-!
# JSON documents and the structs they decode into

A struct is described by its fields: the name of each, and how it takes a value.
Decoding goes through the members of an object and writes the field that a name
matches. A member that matches none is an error, as with `DisallowUnknownFields`.
-/

namespace Byom.Encoding

universe u v

/-- A JSON value. Numbers are integers. -/
inductive Json where
  | null
  | bool (b : Bool)
  | number (n : Int)
  | string (s : String)
  | array (items : List Json)
  | object (members : List (String × Json))

namespace Json

def text : Json → Option String
  | .string s => some s
  | _ => none

def flag : Json → Option Bool
  | .bool b => some b
  | _ => none

@[simp] theorem text_string (s : String) : (string s).text = some s := rfl

@[simp] theorem flag_bool (b : Bool) : (bool b).flag = some b := rfl

/-- A number that fits an `int64`. -/
def int64 : Json → Option Int
  | .number n => if -2 ^ 63 ≤ n ∧ n < 2 ^ 63 then some n else none
  | _ => none

/-- An item of a list. The null value is a zero value. -/
def item {α : Type u} (zero : α) (read : Json → Option α) : Json → Option α
  | .null => some zero
  | json => read json

/-- A list; the null value is the nil one. -/
def list {α : Type u} (zero : α) (read : Json → Option α) : Json → Option (List α)
  | .null => some []
  | .array items => items.mapM (item zero read)
  | _ => none

variable {α : Type u} {zero : α} {read : Json → Option α}

theorem item_eq {json : Json} (given : json ≠ .null) : item zero read json = read json := by
  cases json with
  | null => exact absurd rfl given
  | _ => rfl

theorem list_array {write : α → Json} (given : ∀ a, write a ≠ .null)
    (reads : ∀ a, read (write a) = some a) (items : List α) :
    list zero read (.array (items.map write)) = some items := by
  simp only [list]
  induction items with
  | nil => rfl
  | cons a rest ih => simp [List.mapM_cons, item_eq (given a), reads, ih]

end Json

/-- `omitempty`: the member, unless the value is the zero value. -/
def member {α : Type u} [DecidableEq α] (name : String) (zero : α) (json : α → Json) (a : α) :
    List (String × Json) :=
  if a = zero then [] else [(name, json a)]

/-- A field of a struct `α`. `set` fails on a value of the wrong type. -/
structure Field (α : Type u) where
  name : String
  set : Json → α → Option α

namespace Field

variable {α : Type u} {β : Type v}

/-- The null value leaves a field as it is. -/
def value (name : String) (read : Json → Option β) (write : β → α → α) : Field α where
  name := name
  set
    | .null, a => some a
    | json, a => (read json).map fun b => write b a

/-- A field that is a list. -/
def list (name : String) (zero : β) (read : Json → Option β) (write : List β → α → α) : Field α where
  name := name
  set json a := (json.list zero read).map fun bs => write bs a

/-- `foldRune`: upper case for the letters of ASCII, and the two other letters, the long
s and the Kelvin sign, that fold to one of them. -/
def foldRune (c : Char) : Char :=
  if c = Char.ofNat 0x17F then 'S' else if c = Char.ofNat 0x212A then 'K' else c.toUpper

/-- `foldName`. -/
def foldName (name : String) : List Char := name.toList.map foldRune

/-- The field a member is for: the one of its name, or else the first that differs from
it in case only. -/
def find (fields : List (Field α)) (name : String) : Option (Field α) :=
  (fields.find? fun f => f.name = name).or
    (fields.find? fun f => foldName f.name = foldName name)

def decodeMembers (fields : List (Field α)) : List (String × Json) → α → Option α
  | [], a => some a
  | (name, json) :: rest, a => do
    let field ← find fields name
    let a ← field.set json a
    decodeMembers fields rest a

/-- A document into a struct. -/
def decode (fields : List (Field α)) : Json → α → Option α
  | .null, a => some a
  | .object members, a => decodeMembers fields members a
  | _, _ => none

/-- A field that is a struct itself. -/
def struct (name : String) (fields : List (Field β)) (read : α → β) (write : β → α → α) :
    Field α where
  name := name
  set json a := (decode fields json (read a)).map fun b => write b a

variable {fields : List (Field α)} {name : String} {json : Json} {rest : List (String × Json)}
  {a : α}

@[simp] theorem decode_object {members : List (String × Json)} :
    decode fields (.object members) a = decodeMembers fields members a := rfl

@[simp] theorem decodeMembers_nil : decodeMembers fields [] a = some a := rfl

/-- A member that its field takes is written. -/
theorem decodeMembers_cons {field : Field α} {a' : α} (found : find fields name = some field)
    (sets : field.set json a = some a') :
    decodeMembers fields ((name, json) :: rest) a = decodeMembers fields rest a' := by
  simp [decodeMembers, found, sets]

/-- An omitted member leaves the zero value, which the field has. -/
theorem decodeMembers_member {field : Field α} {a' : α} [DecidableEq β] {zero b : β}
    {encode : β → Json} (found : find fields name = some field)
    (sets : field.set (encode b) a = some a') (keeps : b = zero → a' = a) :
    decodeMembers fields (member name zero encode b ++ rest) a =
      decodeMembers fields rest a' := by
  unfold member
  split
  · rename_i omitted
    rw [keeps omitted, List.nil_append]
  · rw [List.singleton_append, decodeMembers_cons found sets]

section Value

variable {field : String} {read : Json → Option β} {b : β}

theorem set_value {write : β → α → α} (reads : read json = some b) (given : json ≠ .null) :
    (value field read write).set json a = some (write b a) := by
  cases json <;> simp_all [value]

theorem set_list {zero : β} {write : List β → α → α} {bs : List β}
    (reads : json.list zero read = some bs) :
    (list field zero read write).set json a = some (write bs a) := by
  simp [list, reads]

theorem decodeMembers_value {write : β → α → α}
    (found : find fields name = some (value field read write))
    (reads : read json = some b) (given : json ≠ .null) :
    decodeMembers fields ((name, json) :: rest) a = decodeMembers fields rest (write b a) :=
  decodeMembers_cons found (set_value reads given)

theorem decodeMembers_struct {sub : List (Field β)} {get : α → β} {write : β → α → α}
    (found : find fields name = some (struct field sub get write))
    (reads : decode sub json (get a) = some b) :
    decodeMembers fields ((name, json) :: rest) a = decodeMembers fields rest (write b a) :=
  decodeMembers_cons found (by simp [struct, reads])

end Value

/-- A member that no field is for is an error, wherever it stands. -/
theorem decodeMembers_unknown {members : List (String × Json)} (listed : (name, json) ∈ members)
    (unknown : find fields name = none) : decodeMembers fields members a = none := by
  induction members generalizing a with
  | nil => cases listed
  | cons first rest ih =>
    obtain ⟨key, value⟩ := first
    simp only [decodeMembers, Option.bind_eq_bind]
    rcases List.mem_cons.mp listed with here | later
    · obtain ⟨rfl, rfl⟩ := Prod.mk.inj here
      rw [unknown]
      rfl
    · cases find fields key with
      | none => rfl
      | some field =>
        cases set : field.set value a with
        | none => simp [set]
        | some a => simpa [set] using ih later

theorem decode_unknown {members : List (String × Json)} (listed : (name, json) ∈ members)
    (unknown : find fields name = none) : decode fields (.object members) a = none :=
  decodeMembers_unknown listed unknown

end Field

end Byom.Encoding
