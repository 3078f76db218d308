import Byom.Page.Token
import Byom.Paging.Reading

/-!
# A listing and the client that follows its tokens

`PagedQuery` is the query of a listing with the cursor that its tokens carry. A client that
sends each token back reads page after page, and what it has is a `Reading`.
-/

namespace Byom.Page

open Encoding Paging

/-- The rows of a page are rows of the table. -/
theorem mem_of_read {Row Key : Type} {before : Key → Key → Prop} [DecidableRel before]
    {key : Row → Key} {cursor : Option Key} {next : Row → Token} {limit : Int}
    {rows got : List Row} {token : Token}
    (answer : read before key cursor next limit rows = (got, token)) : got ⊆ rows := by
  obtain ⟨token', same, _⟩ := read_eq_page before key cursor next limit rows
  obtain ⟨rfl, _⟩ := Prod.mk.inj (same.symm.trans answer)
  intro row listed
  rw [page_rows] at listed
  exact (mem_rowsAfter.mp (List.mem_of_mem_take listed)).1

/-- A query on a source, and how its cursor is made, written and read. -/
structure PagedQuery (Source Row Key Cursor : Type) where
  rows : Source → List Row
  before : Key → Key → Prop
  decide : DecidableRel before
  key : Row → Key
  cursorOf : Row → Cursor
  cursorKey : Cursor → Key
  json : Cursor → Json
  fields : List (Encoding.Field Cursor)
  zero : Cursor
  accepts : Cursor → Bool

namespace PagedQuery

variable {Source Row Key Cursor : Type}

instance (q : PagedQuery Source Row Key Cursor) : DecidableRel q.before := q.decide

/-- The token that leads on from a row. -/
def token (q : PagedQuery Source Row Key Cursor) (row : Row) : Token := encode q.json (q.cursorOf row)

/-- A call of the listing. -/
def call (q : PagedQuery Source Row Key Cursor) (token : Token) (limit : Int) (s : Source) :
    Except Error (List Row × Token) := do
  let cursor ← resume q.fields q.zero q.accepts token
  .ok (read q.before q.key (cursor.map q.cursorKey) q.token limit (q.rows s))

/-- A token that the listing issues: none, or that of a row. -/
def Issued (q : PagedQuery Source Row Key Cursor) (token : Token) : Prop :=
  token = .empty ∨ ∃ row, token = q.token row

/-- The cursor of a row is read back from its token, is accepted and has the key of the row,
and no two rows have one key. -/
structure Lawful (q : PagedQuery Source Row Key Cursor) : Prop where
  order : IsStrictTotalOrder Key q.before
  decodes : ∀ s, ∀ row ∈ q.rows s,
    Field.decode q.fields (q.json (q.cursorOf row)) q.zero = some (q.cursorOf row)
  accepted : ∀ row, q.accepts (q.cursorOf row) = true
  resumes : ∀ row, q.cursorKey (q.cursorOf row) = q.key row
  distinct : ∀ s, ((q.rows s).map q.key).Nodup

/-- Rows that a client has, the token it sends next, and whether it is done. Each page is from
a state of the source that meets `P`. -/
inductive Following (q : PagedQuery Source Row Key Cursor) (P : Source → Prop) :
    List Row → Token → Bool → Prop where
  | start : Following q P [] .empty false
  | more {read got : List Row} {token next : Token} {s : Source} {limit : Int}
    (earlier : Following q P read token false) (origin : P s)
    (answer : q.call token limit s = .ok (got, next)) (goes : next ≠ .empty) :
    Following q P (read ++ got) next false
  | ended {read got : List Row} {token : Token} {s : Source} {limit : Int}
    (earlier : Following q P read token false) (origin : P s)
    (answer : q.call token limit s = .ok (got, .empty)) :
    Following q P (read ++ got) .empty true

variable {q : PagedQuery Source Row Key Cursor} {P : Source → Prop} {rows : List Row} {s : Source}
  {token next : Token} {limit : Int} {cursor : Option Key} {got : List Row} {ended : Bool}

/-- The table that a state of the source has. -/
def table (q : PagedQuery Source Row Key Cursor) (P : Source → Prop) (rows : List Row) : Prop :=
  ∃ s, P s ∧ q.rows s = rows

/-- A token that a client has leads on from the key it has reached. -/
def Leads (q : PagedQuery Source Row Key Cursor) : Option Key → Token → Prop
  | none, token => token = .empty
  | some k, token => ∃ s, ∃ row ∈ q.rows s, q.key row = k ∧ token = q.token row

theorem Leads.empty_iff (leads : q.Leads cursor token) : token = .empty ↔ cursor = none := by
  cases cursor with
  | none => exact iff_of_true leads rfl
  | some k =>
    obtain ⟨s, row, _, _, rfl⟩ := leads
    exact iff_of_false nofun nofun

/-- A call with such a token reads the page after its key. -/
theorem call_of_leads (lawful : q.Lawful) (leads : q.Leads cursor token) (limit : Int)
    (s : Source) :
    q.call token limit s = .ok (read q.before q.key cursor q.token limit (q.rows s)) := by
  cases cursor with
  | none =>
    cases leads
    rfl
  | some k =>
    obtain ⟨s', row, member, rfl, rfl⟩ := leads
    have resumed : resume q.fields q.zero q.accepts (.document (q.json (q.cursorOf row))) =
        .ok (some (q.cursorOf row)) := by
      rw [resume_document (lawful.decodes s' row member), if_pos (lawful.accepted row)]
    simp [call, PagedQuery.token, encode, resumed, lawful.resumes, bind, Except.bind]

/-- The page, and the token of its last row if it is not the last one. -/
theorem page_of_call (lawful : q.Lawful) (leads : q.Leads cursor token)
    (answer : q.call token limit s = .ok (got, next)) :
    ∃ last, page q.before q.key cursor (size limit) (q.rows s) = (got, last) ∧
      q.Leads last next := by
  rw [call_of_leads lawful leads] at answer
  have cut := Except.ok.inj answer
  unfold read Page.cut at cut
  split at cut
  · rename_i more
    obtain ⟨rfl, rfl⟩ := Prod.mk.inj cut
    refine ⟨_, by rw [page, if_pos more], ?_⟩
    cases ends : (((rowsAfter q.before q.key cursor (q.rows s)).take (size limit + 1)).take
        (size limit)).getLast? with
    | none => rfl
    | some row =>
      have listed := List.mem_of_mem_take (List.mem_of_mem_take (List.mem_of_getLast? ends))
      exact ⟨s, row, (mem_rowsAfter.mp listed).1, rfl, rfl⟩
  · rename_i fits
    obtain ⟨rfl, rfl⟩ := Prod.mk.inj cut
    exact ⟨none, by rw [page, if_neg fits], rfl⟩

theorem mem_of_call (answer : q.call token limit s = .ok (got, next)) : got ⊆ q.rows s := by
  unfold call at answer
  cases resumed : resume q.fields q.zero q.accepts token with
  | error err => simp [resumed, bind, Except.bind] at answer
  | ok cursor =>
    exact mem_of_read (by simpa [resumed, bind, Except.bind] using answer)

theorem issued_of_call (answer : q.call token limit s = .ok (got, next)) : q.Issued next := by
  unfold call at answer
  cases resumed : resume q.fields q.zero q.accepts token with
  | error err => simp [resumed, bind, Except.bind] at answer
  | ok cursor =>
    have cut : read q.before q.key (cursor.map q.cursorKey) q.token limit (q.rows s) =
        (got, next) := by
      simpa [resumed, bind, Except.bind] using answer
    by_cases none : next = .empty
    · exact .inl none
    · exact .inr (read_token (congrArg Prod.snd cut) none)

/-- Following tokens is reading on after keys. -/
theorem Following.reading (lawful : q.Lawful) (following : q.Following P rows token ended) :
    ∃ cursor, Reading q.before q.key (q.table P) rows cursor ended ∧ q.Leads cursor token := by
  induction following with
  | start => exact ⟨none, .start, rfl⟩
  | @more read got token next s limit earlier origin answer goes ih =>
    obtain ⟨cursor, reading, leads⟩ := ih
    obtain ⟨last, cut, onward⟩ := page_of_call lawful leads answer
    cases last with
    | none => exact absurd onward goes
    | some k => exact ⟨some k, .more reading ⟨s, origin, rfl⟩ (size_pos limit) cut, onward⟩
  | @ended read got token s limit earlier origin answer ih =>
    obtain ⟨cursor, reading, leads⟩ := ih
    obtain ⟨last, cut, onward⟩ := page_of_call lawful leads answer
    obtain rfl := onward.empty_iff.mp rfl
    exact ⟨none, .ended reading ⟨s, origin, rfl⟩ (size_pos limit) cut, rfl⟩

/-- What clients rely on, of the rows that they have. -/
structure Listed (q : PagedQuery Source Row Key Cursor) (P : Source → Prop) (rows : List Row)
    (ended : Bool) : Prop where
  /-- In order, so no key twice. -/
  sorted : rows.Pairwise fun a b => q.before (q.key a) (q.key b)
  origin : ∀ row ∈ rows, ∃ s, P s ∧ row ∈ q.rows s
  /-- What stays where it is in the order is not missed. -/
  whole : ended = true → ∀ k, (∀ s, P s → k ∈ (q.rows s).map q.key) → k ∈ rows.map q.key
  /-- If nothing changes, the first rows of the sorted table, and at the end all. -/
  first : ∀ s, (∀ s', P s' → q.rows s' = q.rows s) →
    rows <+: ordered q.before q.key (q.rows s) ∧
      (ended = true → rows = ordered q.before q.key (q.rows s))

theorem Following.listed (lawful : q.Lawful) (following : q.Following P rows token ended) :
    q.Listed P rows ended := by
  have := lawful.order
  obtain ⟨cursor, reading, _⟩ := following.reading lawful
  have distinct : ∀ rows, q.table P rows → (rows.map q.key).Nodup := by
    rintro _ ⟨s, _, rfl⟩
    exact lawful.distinct s
  refine ⟨reading.pairwise distinct, ?_, ?_, ?_⟩
  · intro row member
    obtain ⟨_, ⟨s, origin, rfl⟩, listed⟩ := reading.origin member
    exact ⟨s, origin, listed⟩
  · rintro rfl k there
    have everywhere : ∀ rows, q.table P rows → k ∈ rows.map q.key := by
      rintro _ ⟨s, origin, rfl⟩
      exact there s origin
    rcases reading.passed distinct everywhere with listed | ⟨going, _⟩
    · exact listed
    · cases going
  · intro s same
    have constant := reading.mono (Q := (· = q.rows s)) fun _ ⟨s', origin, own⟩ =>
      own.symm.trans (same s' origin)
    have all := constant.append_remaining (lawful.distinct s)
    refine ⟨⟨_, all⟩, ?_⟩
    rintro rfl
    simpa [remaining] using all

end PagedQuery

end Byom.Page
