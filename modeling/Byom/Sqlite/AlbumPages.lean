import Mathlib.Data.Prod.Lex
import Mathlib.Data.String.Basic
import Mathlib.Order.Lex
import Byom.Paging.Keyset
import Byom.Sqlite.Cursors

/-!
# Albums, page by page

`LibraryStore.Albums` sorts by some columns and the album ID. A cursor carries the
values of all of them for the last album of a page, computed a second time.
-/

namespace Byom.Sqlite

open Storage Library Metadata Relational Page Encoding

/-- The texts that an ordering compares, and then the album ID. -/
abbrev SortKey := List String ×ₗ Nat

def comesBefore (descending : Bool) (a b : SortKey) : Prop := if descending then b < a else a < b

instance (descending : Bool) : DecidableRel (comesBefore descending) := fun a b =>
  inferInstanceAs (Decidable (if descending then b < a else a < b))

instance (descending : Bool) : IsStrictTotalOrder SortKey (comesBefore descending) := by
  cases descending
  · exact inferInstanceAs (IsStrictTotalOrder SortKey (· < ·))
  · exact inferInstanceAs (IsStrictTotalOrder SortKey (· > ·))

/-- `unknownDate`. -/
def unknownDate : String := "9999"

/-- `COALESCE(NULLIF(date, ''), '9999')`. -/
def dateExpr (date : String) : String :=
  (if date = "" then none else some date).getD unknownDate

def sortableDate (date : String) : String := if date = "" then unknownDate else date

theorem sortableDate_eq (date : String) : sortableDate date = dateExpr date := by
  unfold sortableDate dateExpr
  split <;> rfl

def newAlbumCursor (query : SortedQuery) (al : Album) : AlbumCursor where
  query := query
  title := al.details.title
  artistSort := al.artistSort
  releaseDate := sortableDate al.details.releaseDate
  originalDate := sortableDate al.details.originalReleaseDate
  id := al.id

/-- The sort expressions other than the album ID. -/
inductive SortExpr where
  | title
  | artistSort
  | releaseDate
  | originalDate
  deriving DecidableEq, Repr

/-- `albumSort`. Every ordering ends with the album ID. -/
def albumSort : AlbumOrder → Except Page.Error (List SortExpr)
  | .title => .ok [.title]
  | .artist => .ok [.artistSort, .originalDate, .title]
  | .releaseDate => .ok [.releaseDate, .title]
  | .originalDate => .ok [.originalDate, .title]
  | .recentlyAdded => .ok []
  | .unrecognized text => .error (.unknownOrder text)

namespace SortExpr

/-- The expression on the columns of an album. -/
def column (al : Album) : SortExpr → String
  | title => al.details.title
  | artistSort => al.artistSort
  | releaseDate => dateExpr al.details.releaseDate
  | originalDate => dateExpr al.details.originalReleaseDate

/-- The value that the cursor has for it. -/
def cursorValue (cur : AlbumCursor) : SortExpr → String
  | title => cur.title
  | artistSort => cur.artistSort
  | releaseDate => cur.releaseDate
  | originalDate => cur.originalDate

end SortExpr

def sortKey (exprs : List SortExpr) (al : Album) : SortKey :=
  toLex (exprs.map (SortExpr.column al), al.id.toNat)

def cursorKey (exprs : List SortExpr) (cur : AlbumCursor) : SortKey :=
  toLex (exprs.map (SortExpr.cursorValue cur), cur.id.toNat)

/-- The cursor of an album carries its sort key. -/
theorem cursorKey_newAlbumCursor (exprs : List SortExpr) (query : SortedQuery) (al : Album) :
    cursorKey exprs (newAlbumCursor query al) = sortKey exprs al := by
  have same : SortExpr.cursorValue (newAlbumCursor query al) = SortExpr.column al := by
    funext expr
    cases expr <;> simp [SortExpr.cursorValue, SortExpr.column, newAlbumCursor, sortableDate_eq]
  rw [cursorKey, same]
  rfl

namespace Database

/-- `LibraryStore.Albums`. -/
def albums (query : SortedQuery) (token : Token) (limit : Int) (db : Database) :
    Except Page.Error (List Album × Token) := do
  let cursor ← Page.resume AlbumCursor.fields {} (fun cur => cur.query = query) token
  let exprs ← albumSort query.order
  .ok (Page.read (comesBefore query.descending) (sortKey exprs) (cursor.map (cursorKey exprs))
    (fun al => Page.encode AlbumCursor.json (newAlbumCursor query al)) limit
    (db.albumRows query.toAlbumQuery))

/-- The pages that next tokens lead to, each from the database at its time. -/
def albumPages (query : SortedQuery) :
    Token → List (Database × Int) → Except Page.Error (List (List Album) × Token)
  | token, [] => .ok ([], token)
  | token, (db, limit) :: rest => do
    let (got, next) ← db.albums query token limit
    match next with
    | .empty => .ok ([got], .empty)
    | next => do
      let (pages, last) ← albumPages query next rest
      .ok (got :: pages, last)

/-- The sorted, filtered table. -/
def listing (query : SortedQuery) (exprs : List SortExpr) (db : Database) : List Album :=
  Paging.ordered (comesBefore query.descending) (sortKey exprs)
    ((db.library.albums.filter (matchesQuery query.toAlbumQuery db)).map fun a =>
      scanAlbum db a (db.cover a))

variable {query : SortedQuery} {exprs : List SortExpr} {token : Token} {cursor : Option SortKey}

theorem recognized_of_albumSort {order : AlbumOrder} (known : albumSort order = .ok exprs) :
    order.Recognized := by
  rintro text rfl
  cases known

/-- The token leads on from the cursor: it is empty at the start, and that of an album
with the key after it. -/
def Leads (query : SortedQuery) (exprs : List SortExpr) : Option SortKey → Token → Prop
  | none, token => token = .empty
  | some k, token => ∃ al, sortKey exprs al = k ∧
      token = Page.encode AlbumCursor.json (newAlbumCursor query al)

/-- A page read through a token is the page after its cursor. -/
theorem albums_of_leads (known : albumSort query.order = .ok exprs)
    (leads : Leads query exprs cursor token) (db : Database) (limit : Int) :
    db.albums query token limit =
      .ok (Page.read (comesBefore query.descending) (sortKey exprs) cursor
        (fun al => Page.encode AlbumCursor.json (newAlbumCursor query al)) limit
        (db.albumRows query.toAlbumQuery)) := by
  cases cursor with
  | none =>
    cases leads
    simp [albums, Page.resume, known, bind, Except.bind]
  | some k =>
    obtain ⟨al, rfl, rfl⟩ := leads
    have decoded : Field.decode AlbumCursor.fields (newAlbumCursor query al).json {} =
        some (newAlbumCursor query al) :=
      AlbumCursor.decode_json (recognized_of_albumSort known)
    have same : (newAlbumCursor query al).query = query := rfl
    simp [albums, Page.encode, Page.resume_document decoded, same, known, bind, Except.bind,
      cursorKey_newAlbumCursor]

/-- Each page in turn, as a table and a limit. -/
def tables (query : SortedQuery) (inputs : List (Database × Int)) : List (List Album × Nat) :=
  inputs.map fun input => (input.1.albumRows query.toAlbumQuery, Page.size input.2)

/-- Following tokens is following keys, and the last token is empty at the end. -/
theorem albumPages_follow (known : albumSort query.order = .ok exprs)
    (leads : Leads query exprs cursor token) (inputs : List (Database × Int)) :
    ∃ last, albumPages query token inputs = .ok ((Paging.follow (comesBefore query.descending)
        (sortKey exprs) cursor (tables query inputs)).1, last) ∧
      (inputs ≠ [] → (last = .empty ↔ (Paging.follow (comesBefore query.descending)
        (sortKey exprs) cursor (tables query inputs)).2 = true)) := by
  induction inputs generalizing token cursor with
  | nil => exact ⟨token, rfl, fun some_ => absurd rfl some_⟩
  | cons input rest ih =>
    obtain ⟨db, limit⟩ := input
    obtain ⟨next, page, ends⟩ := Page.read_eq_page (comesBefore query.descending) (sortKey exprs)
      cursor (fun al => Page.encode AlbumCursor.json (newAlbumCursor query al)) limit
      (db.albumRows query.toAlbumQuery)
    have read := albums_of_leads known leads db limit
    rw [page] at read
    unfold albumPages tables
    rw [List.map_cons, Paging.follow, read]
    cases paged : Paging.page (comesBefore query.descending) (sortKey exprs) cursor
        (Page.size limit) (db.albumRows query.toAlbumQuery) with
    | mk got more =>
      rw [paged] at ends
      cases more with
      | none =>
        obtain rfl : next = .empty := ends
        exact ⟨.empty, rfl, fun _ => iff_of_true rfl rfl⟩
      | some k =>
        obtain ⟨al, same, rfl⟩ := ends
        have onward : Leads query exprs (some k)
            (Page.encode AlbumCursor.json (newAlbumCursor query al)) := ⟨al, same, rfl⟩
        obtain ⟨last, later, ended⟩ := ih onward
        have leftOver : tables query rest = rest.map fun input =>
          (input.1.albumRows query.toAlbumQuery, Page.size input.2) := rfl
        rw [leftOver] at later ended
        refine ⟨last, ?_, fun _ => ?_⟩
        · simp only [Page.encode, bind, Except.bind] at later ⊢
          rw [later]
        · by_cases empty : rest = []
          · subst empty
            obtain ⟨_, rfl⟩ : _ ∧ Page.encode AlbumCursor.json (newAlbumCursor query al) = last := by
              simpa [albumPages] using later
            simp [Page.encode, Paging.follow]
          · exact ended empty

/-! ### The whole listing -/

theorem sortKey_inj {a b : Album} (same : sortKey exprs a = sortKey exprs b) : a.id = b.id :=
  BitVec.eq_of_toNat_eq (congrArg (fun k => (ofLex k).2) same)

theorem albumRows_distinct (query : SortedQuery) (exprs : List SortExpr) (db : Database) :
    ((db.albumRows query.toAlbumQuery).map (sortKey exprs)).Nodup := by
  have ids : ((db.albumRows query.toAlbumQuery).map Album.id).Nodup := by
    rw [albumRows_eq, List.map_map]
    exact db.unique.albumIDs.filter _
  rw [List.nodup_map_iff_inj_on (ids.of_map _)]
  intro a ha b hb same
  exact List.inj_on_of_nodup_map ids ha hb (sortKey_inj same)

theorem tables_distinct (query : SortedQuery) (exprs : List SortExpr)
    (inputs : List (Database × Int)) :
    ∀ table ∈ tables query inputs, (table.1.map (sortKey exprs)).Nodup := by
  intro table htable
  obtain ⟨input, _, rfl⟩ := List.mem_map.mp htable
  exact albumRows_distinct query exprs input.1

theorem tables_positive (query : SortedQuery) (inputs : List (Database × Int)) :
    ∀ table ∈ tables query inputs, 0 < table.2 := by
  intro table htable
  obtain ⟨input, _, rfl⟩ := List.mem_map.mp htable
  exact Page.size_pos input.2

/-- In all states that the pages are read from, the album is listed with one sort key. -/
def ListedThroughout (query : SortedQuery) (exprs : List SortExpr) (id : UUID) (k : SortKey)
    (states : List (Database × Int)) : Prop :=
  ∀ input ∈ states, ∃ a ∈ input.1.library.albums, a.id = id ∧
    matchesQuery query.toAlbumQuery input.1 a = true ∧
      sortKey exprs (scanAlbum input.1 a (input.1.cover a)) = k

/-- What clients rely on, of the pages they read and the token they are left with. -/
structure ListsAlbums (query : SortedQuery) (exprs : List SortExpr)
    (inputs : List (Database × Int)) (pages : List (List Album)) (next : Token) : Prop where
  monotone : (pages.flatten.map (sortKey exprs)).Pairwise (comesBefore query.descending)
  once : inputs ≠ [] → next = .empty → ∀ id k,
    ListedThroughout query exprs id k (inputs.take pages.length) →
      (pages.flatten.filter fun al => al.id = id).length = 1
  ends : ∀ db, (∀ input ∈ inputs, input.1 = db) → db.library.albums.length < inputs.length →
    next = .empty
  whole : ∀ db, (∀ input ∈ inputs, input.1 = db) → inputs ≠ [] → next = .empty →
    pages.flatten = listing query exprs db

/-- An album that stays where it is in the order is on one page. -/
theorem once_of_listedThroughout {inputs : List (Database × Int)} {id : UUID} {k : SortKey}
    {pages : List (List Album)}
    (followed : Paging.follow (comesBefore query.descending) (sortKey exprs) none
      (tables query inputs) = (pages, true))
    (sorted : (pages.flatten.map (sortKey exprs)).Pairwise (comesBefore query.descending))
    (listed : ListedThroughout query exprs id k (inputs.take pages.length)) :
    (pages.flatten.filter fun al => al.id = id).length = 1 := by
  have visited : (tables query inputs).take pages.length =
      tables query (inputs.take pages.length) := by
    rw [tables, ← List.map_take]
    rfl
  have there : ∀ table ∈ (tables query inputs).take pages.length,
      k ∈ table.1.map (sortKey exprs) := by
    intro table htable
    rw [visited] at htable
    obtain ⟨input, hinput, rfl⟩ := List.mem_map.mp htable
    obtain ⟨a, ha, _, selected, key⟩ := listed input hinput
    rw [albumRows_eq, List.map_map]
    exact List.mem_map.mpr ⟨a, List.mem_filter.mpr ⟨ha, selected⟩, key⟩
  have onPage : k ∈ pages.flatten.map (sortKey exprs) :=
    Paging.mem_follow (tables_distinct query exprs inputs) (tables_positive query inputs) followed
      trivial there
  have readFrom : ∀ b ∈ pages.flatten, ∃ input ∈ inputs.take pages.length,
      b ∈ input.1.albumRows query.toAlbumQuery := by
    intro b hb
    have onPages : b ∈ (Paging.follow (comesBefore query.descending) (sortKey exprs) none
        (tables query inputs)).1.flatten := by
      rw [followed]
      exact hb
    obtain ⟨table, htable, inside⟩ := Paging.follow_subset onPages
    rw [followed, visited] at htable
    obtain ⟨input, hinput, rfl⟩ := List.mem_map.mp htable
    exact ⟨input, hinput, inside⟩
  -- what has the ID is the album as one of the states lists it
  have same : ∀ b ∈ pages.flatten, b.id = id → sortKey exprs b = k := by
    intro b hb hid
    obtain ⟨input, hinput, inside⟩ := readFrom b hb
    obtain ⟨a, ha, sameA, _, keyA⟩ := listed input hinput
    rw [albumRows_eq] at inside
    obtain ⟨c, hc, rfl⟩ := List.mem_map.mp inside
    have row : c = a := input.1.unique.albumIDs.eq_of_key (List.mem_filter.mp hc).1 ha
      (hid.trans sameA.symm)
    rw [row, keyA]
  obtain ⟨al, hal, key⟩ := List.mem_map.mp onPage
  have ident : al.id = id := by
    obtain ⟨input, hinput, _⟩ := readFrom al hal
    obtain ⟨a, _, sameA, _, keyA⟩ := listed input hinput
    exact (sortKey_inj (key.trans keyA.symm)).trans sameA
  have keys : Relational.UniqueOn (sortKey exprs) pages.flatten :=
    sorted.imp fun {a b} (h : comesBefore query.descending a b) same => by
      rw [same] at h
      exact irrefl_of (comesBefore query.descending) b h
  rw [keys.filter_eq_singleton hal (by simpa using ident) fun b hb hit => ?_]
  · rfl
  · rw [key, same b hb (by simpa using hit)]

theorem albumPages_listsAlbums (known : albumSort query.order = .ok exprs)
    (inputs : List (Database × Int)) : ∃ pages next,
      albumPages query .empty inputs = .ok (pages, next) ∧
        ListsAlbums query exprs inputs pages next := by
  obtain ⟨next, read, ended⟩ := albumPages_follow known (show Leads query exprs none .empty from rfl)
    inputs
  have distinct := tables_distinct query exprs inputs
  have positive := tables_positive query inputs
  have sorted : ((Paging.follow (comesBefore query.descending) (sortKey exprs) none
      (tables query inputs)).1.flatten.map (sortKey exprs)).Pairwise
        (comesBefore query.descending) :=
    List.pairwise_map.mpr (Paging.follow_pairwise distinct none).1
  have constant : ∀ db, (∀ input ∈ inputs, input.1 = db) → ∀ table ∈ tables query inputs,
      table.1 = db.albumRows query.toAlbumQuery := by
    intro db same table htable
    obtain ⟨input, hinput, rfl⟩ := List.mem_map.mp htable
    exact congrArg (albumRows query.toAlbumQuery) (same input hinput)
  refine ⟨_, next, read, sorted, ?_, ?_, ?_⟩
  · intro some_ empty id k listed
    exact once_of_listedThroughout (Prod.ext rfl ((ended some_).mp empty)) sorted listed
  · intro db same enough
    have some_ : inputs ≠ [] := List.ne_nil_of_length_pos (by omega)
    refine (ended some_).mpr (Paging.follow_ends (albumRows_distinct query exprs db)
      (constant db same) positive ?_)
    have filtered : (db.albumRows query.toAlbumQuery).length ≤ db.library.albums.length := by
      rw [albumRows_eq, List.length_map]
      exact List.length_filter_le _ _
    rw [Paging.rowsAfter_none, (Paging.ordered_perm _).length_eq, tables, List.length_map]
    exact filtered.trans_lt enough
  · intro db same some_ empty
    have all := Paging.follow_constant (albumRows_distinct query exprs db) (constant db same)
      positive (Prod.ext rfl ((ended some_).mp empty))
    rw [all, Paging.rowsAfter_none, albumRows_eq]
    rfl

/-- Both versions, by artist and backwards, on pages of one album. -/
def versionsByArtist : SortedQuery where
  includeAllVersions := true
  order := .artist
  descending := true

def versionPages : List (Database × Int) := List.replicate 3 (afterWrites twoVersions (by decide), 1)

theorem versionPages_listed : ∃ pages next,
    albumPages versionsByArtist .empty versionPages = .ok (pages, next) ∧
      ListsAlbums versionsByArtist [.artistSort, .originalDate, .title] versionPages pages next :=
  albumPages_listsAlbums rfl versionPages

end Database

end Byom.Sqlite
