import Byom.Page.TokenString
import Byom.Rpc.LibraryServer
import Byom.Sqlite.PagedListings
import Byom.Ui.ServedList

/-!
# The lists of artists and albums

Each route has a key and a `fetchPage`. Routes with one key fetch alike, so no entry of the
cache mixes two listings, and what a list displays are rows of one listing.
-/

namespace Byom.Sqlite

open Storage Library Encoding

theorem uuidJson_textual (id : UUID) : (uuidJson id).Textual := .string _

theorem ArtistCursor.json_textual (c : ArtistCursor) : c.json.Textual := by
  apply Json.Textual.object
  simp only [List.forall_mem_cons]
  exact ⟨.string _, uuidJson_textual _, nofun⟩

theorem queryJson_textual (q : SortedQuery) : (queryJson q).Textual := by
  have types : (Json.array (q.types.map fun type => .string type.text)).Textual := by
    apply Json.Textual.array
    intro json listed
    obtain ⟨type, _, rfl⟩ := List.mem_map.mp listed
    exact .string _
  apply Json.Textual.object
  simp only [List.forall_mem_append, List.forall_mem_cons]
  exact ⟨⟨uuidJson_textual _, .bool _, nofun⟩, .member types, .member (.string _),
    .member (.string _), .member (.bool _), nofun⟩

theorem AlbumCursor.json_textual (c : AlbumCursor) : c.json.Textual := by
  apply Json.Textual.object
  simp only [List.forall_mem_append, List.forall_mem_cons]
  exact ⟨⟨queryJson_textual _, .string _, nofun⟩, .member (.string _), .member (.string _),
    .member (.string _), uuidJson_textual _, nofun⟩

end Byom.Sqlite

namespace Byom.Ui

universe u

/-! ### A client of a paged query -/

section Rows

open Byom.Page (Token PagedQuery)

variable {Source Row Key Cursor : Type} {ε : Type} {T : Type} {q : PagedQuery Source Row Key Cursor}
  {serve : Source → String → Except ε (Page T)} {msg : Row → T} {P : Source → Prop}
  {items : List T} {token : String} {done : Bool}

/-- The server answers with pages of the query, as messages. -/
def Serves (serve : Source → String → Except ε (Page T)) (q : PagedQuery Source Row Key Cursor)
    (msg : Row → T) : Prop :=
  ∀ s token page, serve s token = .ok page → ∃ limit got next,
    q.call (.ofText token) limit s = .ok (got, next) ∧ page = ⟨got.map msg, next.text⟩

theorem ofText_text_of_issued (textual : ∀ row, (q.json (q.cursorOf row)).Textual) {token : Token}
    (issued : q.Issued token) : Token.ofText token.text = token := by
  rcases issued with rfl | ⟨row, rfl⟩
  · rfl
  · exact Token.ofText_text (textual row)

theorem text_eq_empty_iff_of_issued (textual : ∀ row, (q.json (q.cursorOf row)).Textual)
    {token : Token} (issued : q.Issued token) : token.text = "" ↔ token = .empty := by
  rcases issued with rfl | ⟨row, rfl⟩
  · exact iff_of_true rfl rfl
  · exact iff_of_false (Token.text_ne_empty (textual row)) nofun

/-- What is served follows the tokens of the query. -/
theorem Served.following (serves : Serves serve q msg)
    (textual : ∀ row, (q.json (q.cursorOf row)).Textual) (served : Served serve P items token done) :
    ∃ rows next, items = rows.map msg ∧ token = Token.text next ∧ q.Issued next ∧
      q.Following P rows next done := by
  induction served with
  | start => exact ⟨[], .empty, rfl, rfl, .inl rfl, .start⟩
  | @page items token s page earlier origin answer ih =>
    obtain ⟨rows, sent, rfl, rfl, issued, following⟩ := ih
    obtain ⟨limit, got, next, called, rfl⟩ := serves s _ page answer
    rw [ofText_text_of_issued textual issued] at called
    have issued' := PagedQuery.issued_of_call called
    refine ⟨rows ++ got, next, (List.map_append).symm, rfl, issued', ?_⟩
    by_cases last : next = .empty
    · subst last
      exact .ended following origin called
    · have goes : decide (Token.text next = "") = false :=
        decide_eq_false fun none => last ((text_eq_empty_iff_of_issued textual issued').mp none)
      simp only [goes]
      exact .more following origin called last

theorem Served.listed (serves : Serves serve q msg) (lawful : q.Lawful)
    (textual : ∀ row, (q.json (q.cursorOf row)).Textual) (served : Served serve P items token done) :
    ∃ rows, items = rows.map msg ∧ q.Listed P rows done := by
  obtain ⟨rows, next, shown, _, _, following⟩ := served.following serves textual
  exact ⟨rows, shown, following.listed lawful⟩

end Rows

/-! ### Routes -/

open Storage Library Sqlite Rpc

inductive ListItem where
  | artist (artist : ArtistProto)
  | album (album : AlbumProto)
  deriving DecidableEq

/-- A section of the page of an artist. -/
structure Section where
  heading : String
  albumTypes : List Int32
  bootlegs : Int32
  deriving DecidableEq

/-- `SECTIONS`. -/
def sections : List Section :=
  [⟨"Albums", [1, 0], 1⟩, ⟨"Singles & EPs", [2, 3], 1⟩, ⟨"Other", [4], 1⟩, ⟨"Bootlegs", [], 2⟩]

/-- `JSON.stringify` of search parameters, which are an object. -/
structure SearchParams where
  json : String
  object : json.toList.head? = some '{'

inductive ListRoute where
  | artists (params : SearchParams)
  | albums (params : SearchParams)
  | artistSection (id : String) (part : Section) (listed : part ∈ sections)

namespace ListRoute

def sectionKey (id : String) (part : Section) : String :=
  "albums:artist=" ++ id ++ ":" ++ part.heading

def key : ListRoute → String
  | artists params => "artists:" ++ params.json
  | albums params => "albums:" ++ params.json
  | artistSection id part _ => sectionKey id part

def listArtists (db : Database) (pageToken : String) : Except ServiceError (Page ListItem) :=
  (Rpc.listArtists db { pageToken := .ofText pageToken }).map fun res =>
    ⟨res.items.map .artist, res.nextPageToken.text⟩

def listAlbums (db : Database) (req : ListAlbumsRequest) (pageToken : String) :
    Except ServiceError (Page ListItem) :=
  (Rpc.listAlbums db { req with pageToken := .ofText pageToken }).map fun res =>
    ⟨res.items.map .album, res.nextPageToken.text⟩

/-- The request for the albums of a route. -/
def albumsRequest : ListAlbumsRequest := { order := 2 }

def sectionRequest (id : String) (part : Section) : ListAlbumsRequest where
  artistID := id
  albumTypes := part.albumTypes
  bootlegs := part.bootlegs
  order := 4

def fetchPage : ListRoute → Database → String → Except ServiceError (Page ListItem)
  | artists _, db => listArtists db
  | albums _, db => listAlbums db albumsRequest
  | artistSection id part _, db => listAlbums db (sectionRequest id part)

/-! ### Keys tell listings apart -/

theorem heading_no_colon : ∀ part ∈ sections, ':' ∉ part.heading.toList := by decide

theorem heading_inj : ∀ part ∈ sections, ∀ part' ∈ sections,
    part.heading = part'.heading → part = part' := by decide

/-- The text after the last colon. -/
theorem append_colon_inj {a b c d : List Char} (ends : ':' ∉ b) (ends' : ':' ∉ d)
    (same : a ++ ':' :: b = c ++ ':' :: d) : a = c ∧ b = d := by
  rcases List.append_eq_append_iff.mp same with ⟨more, rfl, rest⟩ | ⟨more, rfl, rest⟩
  · cases more with
    | nil => simpa using rest
    | cons x more =>
      obtain ⟨rfl, rfl⟩ := List.cons.inj rest
      exact absurd (by simp) ends
  · cases more with
    | nil => simpa [eq_comm] using rest
    | cons x more =>
      obtain ⟨rfl, rfl⟩ := List.cons.inj rest
      exact absurd (by simp) ends'

theorem artistSection_key_toList {id : String} {part : Section} {listed : part ∈ sections} :
    (artistSection id part listed).key.toList =
      ("albums:artist=".toList ++ id.toList) ++ ':' :: part.heading.toList := by
  simp [key, sectionKey, String.toList_append]

/-- Routes with one key fetch alike. -/
theorem fetchPage_of_key {r r' : ListRoute} (same : r.key = r'.key) :
    r.fetchPage = r'.fetchPage := by
  have chars := congrArg String.toList same
  cases r with
  | artists params =>
    cases r' with
    | artists params' => rfl
    | albums params' => simp [key] at chars
    | artistSection id' part' listed' => simp [key, sectionKey] at chars
  | albums params =>
    cases r' with
    | artists params' => simp [key] at chars
    | albums params' => rfl
    | artistSection id' part' listed' =>
      have object := params.object
      simp [key, sectionKey] at chars
      simp [chars] at object
  | artistSection id part listed =>
    cases r' with
    | artists params' => simp [key, sectionKey] at chars
    | albums params' =>
      have object := params'.object
      simp [key, sectionKey] at chars
      simp [← chars] at object
    | artistSection id' part' listed' =>
      rw [artistSection_key_toList, artistSection_key_toList] at chars
      obtain ⟨ids, headings⟩ := append_colon_inj (heading_no_colon part listed)
        (heading_no_colon part' listed') chars
      obtain rfl := String.toList_inj.mp (List.append_cancel_left ids)
      obtain rfl := heading_inj part listed part' listed' (String.toList_inj.mp headings)
      rfl

/-! ### What is displayed -/

/-- The orderings that the routes ask for. -/
def byArtist : List SortExpr := [.artistSort, .originalDate, .title]

def byDate : List SortExpr := [.originalDate, .title]

def artistItem (a : Artist) : ListItem := .artist (artistProto a)

def albumItem (al : Album) : ListItem := .album (albumProto al)

/-- A list of the route displays rows of its listing, from databases that meet `P`. -/
def Shows (P : Database → Prop) : ListRoute → List ListItem → Bool → Prop
  | artists _, items, done =>
    ∃ rows, items = rows.map artistItem ∧ artistQuery.Listed P rows done
  | albums _, items, done =>
    ∃ rows, items = rows.map albumItem ∧ (albumQuery { order := .artist } byArtist).Listed P rows done
  | artistSection id part _, items, done =>
    ∀ query, albumQueryOf (sectionRequest id part) = .ok query →
      ∃ rows, items = rows.map albumItem ∧ (albumQuery query byDate).Listed P rows done

/-- The fetch of a route is answered from a database that meets `P`. -/
def Answered {E : Type u} (P : Database → Prop) (s : ListCache ListItem E) :
    CacheEvent ListItem E → Prop
  | .list (.resolve n page) => ∀ f ∈ s.fetches[n]?, ∃ r : ListRoute, r.key = f.key ∧
    ∃ db, P db ∧ r.fetchPage db f.pageToken = .ok page
  | _ => True

variable {P : Database → Prop}

theorem ok_of_map {ε α β : Type} {x : Except ε α} {f : α → β} {b : β} (h : x.map f = .ok b) :
    ∃ a, x = .ok a ∧ f a = b := by
  cases x with
  | error err => cases h
  | ok a => exact ⟨a, rfl, Except.ok.inj h⟩

theorem listArtists_serves : Serves listArtists artistQuery artistItem := by
  intro db token page answer
  obtain ⟨res, called, rfl⟩ := ok_of_map answer
  obtain ⟨artists, read, items⟩ := listArtists_ok called
  refine ⟨_, artists, res.nextPageToken, read, ?_⟩
  simp [items, artistItem]

theorem listAlbums_serves {req : ListAlbumsRequest} {query : SortedQuery}
    {exprs : List SortExpr} (read : albumQueryOf req = .ok query)
    (known : albumSort query.order = .ok exprs) :
    Serves (fun db => listAlbums db req) (albumQuery query exprs) albumItem := by
  intro db token page answer
  obtain ⟨res, called, rfl⟩ := ok_of_map answer
  obtain ⟨query', albums, read', listed, items⟩ := listAlbums_ok_iff.mp called
  obtain rfl := Except.ok.inj (read.symm.trans read')
  rw [albums_eq_call known] at listed
  refine ⟨_, albums, res.nextPageToken, listed, ?_⟩
  simp [items, albumItem]

theorem albumsRequest_read : albumQueryOf albumsRequest = .ok { order := .artist } := rfl

/-- The order of a section is by original date. -/
theorem sectionRequest_order {id : String} {part : Section} {query : SortedQuery}
    (read : albumQueryOf (sectionRequest id part) = .ok query) :
    albumSort query.order = .ok byDate := by
  obtain ⟨_, _, _, order, _⟩ := albumQueryOf_ok_iff.mp read
  have asked : albumOrder "order" (sectionRequest id part).order = .ok .originalDate := rfl
  rw [← Except.ok.inj (asked.symm.trans order)]
  rfl

theorem shows_of_served {r : ListRoute} {items : List ListItem} {token : String} {done : Bool}
    (served : Served r.fetchPage P items token done) : r.Shows P items done := by
  cases r with
  | artists params =>
    have serves : Serves (fetchPage (.artists params)) artistQuery artistItem := listArtists_serves
    exact served.listed serves artistQuery_lawful fun _ => ArtistCursor.json_textual _
  | albums params =>
    have serves : Serves (fetchPage (.albums params)) (albumQuery { order := .artist } byArtist)
        albumItem := listAlbums_serves albumsRequest_read rfl
    exact served.listed serves (albumQuery_lawful rfl) fun _ => AlbumCursor.json_textual _
  | artistSection id part listed =>
    intro query read
    have order := sectionRequest_order read
    have serves : Serves (fetchPage (.artistSection id part listed)) (albumQuery query byDate)
        albumItem := listAlbums_serves read order
    exact served.listed serves (albumQuery_lawful order) fun _ => AlbumCursor.json_textual _

/-- What an entry, or a list, has of the listing of each route with its key. -/
def Accumulates (P : Database → Prop) : ListCache.Claim ListItem :=
  fun key items token done => ∀ r : ListRoute, r.key = key → Served r.fetchPage P items token done

theorem advances_of_answered {E : Type u} {s : ListCache ListItem E} {e : CacheEvent ListItem E}
    (answered : Answered P s e) : ListCache.Advances (Accumulates P) s e := by
  cases e with
  | clearListCache => trivial
  | list e =>
    cases e with
    | resolve n page =>
      intro f awaited items earlier r own
      obtain ⟨r', key, db, origin, answer⟩ := answered f awaited
      rw [fetchPage_of_key (key.trans own.symm)] at answer
      exact .page (earlier r own) origin answer
    | _ => trivial

/-- What lists display was served to their routes. -/
theorem accumulates_along {E : Type u} (events : List (CacheEvent ListItem E))
    (answered : Transition.StepsMeet ListCache.step (Answered P) ({} : ListCache ListItem E)
      events) :
    Transition.Along ListCache.step (ListCache.ListsMeet (Accumulates P))
      ({} : ListCache ListItem E) events := by
  have advances := Transition.stepsMeet_of_stepsMeet (I := fun _ => True)
    (D := ListCache.Advances (Accumulates P)) (fun _ _ _ _ _ _ => trivial)
    (fun _ _ _ _ met _ => advances_of_answered met) trivial answered
  exact (ListCache.along_of_advances (fun _ _ _ => .start) events advances).mono fun _ => And.right

/-- A library of one artist. -/
def oneArtist : Database :=
  Database.afterWrites [.insertArtist ⟨7, "The Band", "Band, The"⟩ ["band"]] (by decide)

/-- The cache is cleared while the page of the artists is fetched, and the list opened again. -/
def reopened : List (CacheEvent ListItem String) :=
  [.list (.mount "artists:{}"), .clearListCache,
    .list (.resolve 0 ⟨[.artist ⟨(7 : UUID).string, "The Band"⟩], ""⟩),
    .list (.mount "artists:{}"), .list (.reject 0 "offline")]

theorem reopened_answered :
    Transition.StepsMeet ListCache.step (Answered (· = oneArtist)) {} reopened := by
  intro s₁ mounted
  refine ⟨trivial, ?_⟩
  intro s₂ cleared
  refine ⟨trivial, ?_⟩
  intro s₃ resolved
  refine ⟨?_, ?_⟩
  · cases mounted
    cases cleared
    rintro f awaited
    cases awaited
    exact ⟨.artists ⟨"{}", rfl⟩, rfl, oneArtist, rfl, rfl⟩
  · intro s₄ _
    refine ⟨trivial, ?_⟩
    intro s₅ _
    exact ⟨trivial, trivial⟩

end ListRoute

end Byom.Ui
