import Mathlib.Data.Set.List
import Byom.Rpc.LibraryServer
import Byom.Sqlite.PagedListings

/-!
# Requests that share page tokens

A token carries the query that it was issued for. Requests that ask for the same albums are read
as one query, however they put it, so each can go on with a token of the other.
-/

namespace Byom.Rpc

open Storage Library Sqlite Relational

/-- Both orders are by title, or they are one. -/
def SameOrder (pb pb' : Int32) : Prop := pb = pb' ∨ (pb = 0 ∨ pb = 1) ∧ (pb' = 0 ∨ pb' = 1)

/-- Requests for the same albums in the same order. The artist may be written in two ways, and
the types listed in any order. -/
structure SameAlbums (r r' : ListAlbumsRequest) : Prop where
  artist : ∃ id, parseOptionalID "artist_id" r.artistID = .ok id ∧
    parseOptionalID "artist_id" r'.artistID = .ok id
  versions : r.includeAllVersions = r'.includeAllVersions
  types : ∀ pb, pb ∈ r.albumTypes ↔ pb ∈ r'.albumTypes
  bootlegs : r.bootlegs = r'.bootlegs
  order : SameOrder r.order r'.order
  descending : r.descending = r'.descending

variable {field : String} {pb pb' : Int32} {pbs pbs' : List Int32} {types : List AlbumType}

theorem albumTypeFilter_ok_iff : albumTypeFilter field pbs = .ok types ↔
    ∃ read, pbs = read.map albumTypes ∧ sortCompact AlbumType.text read = types := by
  constructor
  · intro h
    unfold albumTypeFilter at h
    cases read : pbs.mapM (readAlbumType field) with
    | error err => simp [read, bind, Except.bind] at h
    | ok all =>
      refine ⟨all, mapM_readAlbumType read, ?_⟩
      simpa [read, bind, Except.bind] using h
  · rintro ⟨read, rfl, rfl⟩
    have reads : (read.map albumTypes).mapM (readAlbumType field) = .ok read := by
      induction read with
      | nil => rfl
      | cons type rest ih =>
        have first : readAlbumType field (albumTypes type) = .ok type := by
          rw [readAlbumType, albumTypesByProto_albumTypes]
        simp [List.mapM_cons, first, ih, bind, Except.bind, pure, Except.pure]
    simp [albumTypeFilter, reads, bind, Except.bind]

/-- Lists of types give one filter exactly if they list the same types. -/
theorem albumTypeFilter_same_iff (read : albumTypeFilter field pbs = .ok types) :
    albumTypeFilter field pbs' = .ok types ↔ ∀ pb, pb ∈ pbs ↔ pb ∈ pbs' := by
  obtain ⟨all, rfl, rfl⟩ := albumTypeFilter_ok_iff.mp read
  rw [albumTypeFilter_ok_iff]
  constructor
  · rintro ⟨all', rfl, same⟩ pb
    have sets := (sortCompact_eq_iff AlbumType.text_injective).mp same
    simp [sets]
  · intro same
    have known : ∀ pb ∈ pbs', ∃ type, albumTypes type = pb := by
      intro pb listed
      obtain ⟨type, _, own⟩ := List.mem_map.mp ((same pb).mpr listed)
      exact ⟨type, own⟩
    have read' : pbs' ∈ Set.range (List.map albumTypes) := by
      rw [Set.range_list_map]
      exact known
    obtain ⟨all', rfl⟩ := read'
    refine ⟨all', rfl, (sortCompact_eq_iff AlbumType.text_injective).mpr ?_⟩
    have distinct : Function.Injective albumTypes := by
      intro a b same
      have read := albumTypesByProto_albumTypes a
      rw [same, albumTypesByProto_albumTypes] at read
      exact (Option.some.inj read).symm
    intro type
    rw [← List.mem_map_of_injective distinct, ← List.mem_map_of_injective distinct]
    exact (same _).symm

theorem bootlegFilter_same_iff {b : BootlegFilter} (read : bootlegFilter field pb = .ok b) :
    bootlegFilter field pb' = .ok b ↔ pb = pb' := by
  unfold bootlegFilter at read ⊢
  grind

theorem albumOrder_same_iff {order : AlbumOrder} (read : albumOrder field pb = .ok order) :
    albumOrder field pb' = .ok order ↔ SameOrder pb pb' := by
  unfold albumOrder at read ⊢
  unfold SameOrder
  grind

variable {r r' : ListAlbumsRequest} {query : SortedQuery}

/-- Requests are read as one query exactly if they are for the same albums. -/
theorem albumQueryOf_same_iff (read : albumQueryOf r = .ok query) :
    albumQueryOf r' = .ok query ↔ SameAlbums r r' := by
  obtain ⟨artist, types, bootlegs, order, versions, descending⟩ := albumQueryOf_ok_iff.mp read
  rw [albumQueryOf_ok_iff, albumTypeFilter_same_iff types, bootlegFilter_same_iff bootlegs,
    albumOrder_same_iff order, versions, descending]
  constructor
  · rintro ⟨artist', types', bootlegs', order', versions', descending'⟩
    exact ⟨⟨_, artist, artist'⟩, versions', types', bootlegs', order', descending'⟩
  · rintro ⟨⟨id, own, own'⟩, versions', types', bootlegs', order', descending'⟩
    obtain rfl := Except.ok.inj (own.symm.trans artist)
    exact ⟨own', types', bootlegs', order', versions', descending'⟩

/-! ### What is refused -/

theorem parseOptionalID_error {s : String} {err : Error} (read : parseOptionalID field s = .error err) :
    err.code = .invalidArgument := by
  unfold parseOptionalID parseID at read
  split_ifs at read
  split at read <;> cases read
  rfl

theorem albumTypeFilter_error {err : ServiceError} (read : albumTypeFilter field pbs = .error err) :
    err.code = .invalidArgument := by
  have failed : pbs.mapM (readAlbumType field) = .error err := by
    unfold albumTypeFilter at read
    cases types : pbs.mapM (readAlbumType field) with
    | error err' => simpa [types, bind, Except.bind] using read
    | ok all => simp [types, bind, Except.bind] at read
  clear read
  induction pbs with
  | nil => cases failed
  | cons pb rest ih =>
    rw [List.mapM_cons] at failed
    cases first : readAlbumType field pb with
    | error err' =>
      obtain rfl : err' = err := by simpa [first, bind, Except.bind] using failed
      unfold readAlbumType at first
      split at first <;> cases first
      rfl
    | ok type =>
      cases later : rest.mapM (readAlbumType field) with
      | error err' =>
        obtain rfl : err' = err := by simpa [first, later, bind, Except.bind] using failed
        exact ih later
      | ok all => simp [first, later, bind, Except.bind, pure, Except.pure] at failed

theorem albumQueryOf_error {err : ServiceError} (read : albumQueryOf r = .error err) :
    err.code = .invalidArgument := by
  unfold albumQueryOf at read
  cases artist : parseOptionalID "artist_id" r.artistID with
  | error err' =>
    obtain rfl : err'.service = err := by
      simpa [artist, Except.mapError, bind, Except.bind] using read
    rw [Error.service, parseOptionalID_error artist]
    rfl
  | ok id =>
    cases types : albumTypeFilter "album_types" r.albumTypes with
    | error err' =>
      obtain rfl : err' = err := by
        simpa [artist, types, Except.mapError, bind, Except.bind] using read
      exact albumTypeFilter_error types
    | ok all =>
      cases bootlegs : bootlegFilter "bootlegs" r.bootlegs with
      | error err' =>
        obtain rfl : err' = err := by
          simpa [artist, types, bootlegs, Except.mapError, bind, Except.bind] using read
        unfold bootlegFilter at bootlegs
        split_ifs at bootlegs
        cases bootlegs
        rfl
      | ok b =>
        cases order : albumOrder "order" r.order with
        | error err' =>
          obtain rfl : err' = err := by
            simpa [artist, types, bootlegs, order, Except.mapError, bind, Except.bind] using read
          unfold albumOrder at order
          split_ifs at order
          cases order
          rfl
        | ok sort =>
          simp [artist, types, bootlegs, order, Except.mapError, bind, Except.bind] at read

/-! ### Tokens -/

/-- The listing that a readable request asks for. -/
theorem listAlbums_of_read {exprs : List SortExpr} (read : albumQueryOf r = .ok query)
    (known : albumSort query.order = .ok exprs) (db : Database) : listAlbums db r =
      (((albumQuery query exprs).call r.pageToken r.pageSize.toInt db).mapError fun err =>
        (rpcError err).service).map fun (albums, next) => ⟨albums.map albumProto, next⟩ := by
  unfold listAlbums
  simp only [read, bind, Except.bind, albums_eq_call known]
  cases (albumQuery query exprs).call r.pageToken r.pageSize.toInt db <;> rfl

/-- The token of an album is accepted by the query that it was issued for. -/
theorem call_token {exprs exprs' : List SortExpr} {query' : SortedQuery} (al : Album)
    (known : query.order.Recognized) (limit : Int) (db : Database) :
    (albumQuery query' exprs').call ((albumQuery query exprs).token al) limit db =
      if query = query' then .ok (Page.read (comesBefore query'.descending) (sortKey exprs')
        (some (cursorKey exprs' (newAlbumCursor query al))) (albumQuery query' exprs').token limit
        (db.albumRows query'.toAlbumQuery)) else .error .invalidToken := by
  have decoded := AlbumCursor.decode_json (c := newAlbumCursor query al) known
  have resumed : Page.resume AlbumCursor.fields {} (fun cur => cur.query = query')
      (.document (newAlbumCursor query al).json) =
        if decide ((newAlbumCursor query al).query = query') = true
        then .ok (some (newAlbumCursor query al)) else .error .invalidToken :=
    Page.resume_document decoded
  have own : (newAlbumCursor query al).query = query := rfl
  simp only [own, decide_eq_true_eq] at resumed
  unfold Page.PagedQuery.call
  have called : Page.resume (albumQuery query' exprs').fields (albumQuery query' exprs').zero
      (albumQuery query' exprs').accepts ((albumQuery query exprs).token al) = _ := resumed
  rw [called]
  split <;> rfl

/-- A page token that one request was answered with leads another on exactly if both are for the
same albums. If they are, both get the same page; if not, the token is refused. -/
theorem token_shared_iff {db db' : Database} {res : ListAlbumsResponse}
    (issued : listAlbums db r = .ok res) (more : res.nextPageToken ≠ .empty) :
    (SameAlbums r r' → ∃ res', listAlbums db' { r' with pageToken := res.nextPageToken } = .ok res' ∧
        listAlbums db' { r with pageToken := res.nextPageToken, pageSize := r'.pageSize } =
          .ok res') ∧
      (¬SameAlbums r r' → ∃ err,
        listAlbums db' { r' with pageToken := res.nextPageToken } = .error err ∧
          err.code = .invalidArgument) := by
  obtain ⟨query, albums, read, listed, _⟩ := listAlbums_ok_iff.mp issued
  obtain ⟨_, _, _, order, _⟩ := albumQueryOf_ok_iff.mp read
  obtain ⟨exprs, known⟩ := albumOrder_recognized order
  rw [albums_eq_call known] at listed
  obtain ⟨al, token⟩ := (Page.PagedQuery.issued_of_call listed).resolve_left more
  have recognized := Database.recognized_of_albumSort known
  rw [token]
  constructor
  · intro same
    have read' := (albumQueryOf_same_iff read).mpr same
    have first : ∀ size, albumQueryOf { r with
      pageToken := (albumQuery query exprs).token al, pageSize := size } = .ok query := fun _ => read
    have second : albumQueryOf { r' with pageToken := (albumQuery query exprs).token al } =
      .ok query := read'
    rw [listAlbums_of_read second known, listAlbums_of_read (first _) known,
      call_token al recognized, if_pos rfl]
    exact ⟨_, rfl, rfl⟩
  · intro differ
    have other : albumQueryOf r' ≠ .ok query := fun same =>
      differ ((albumQueryOf_same_iff read).mp same)
    cases read' : albumQueryOf r' with
    | error err =>
      refine ⟨err, ?_, albumQueryOf_error read'⟩
      have second : albumQueryOf { r' with pageToken := (albumQuery query exprs).token al } =
        .error err := read'
      rw [listAlbums, second]
      rfl
    | ok query' =>
      obtain ⟨_, _, _, order', _⟩ := albumQueryOf_ok_iff.mp read'
      obtain ⟨exprs', known'⟩ := albumOrder_recognized order'
      have second : albumQueryOf { r' with pageToken := (albumQuery query exprs).token al } =
        .ok query' := read'
      have apart : query ≠ query' := by
        rintro rfl
        exact other read'
      rw [listAlbums_of_read second known', call_token al recognized, if_neg apart]
      exact ⟨_, rfl, rfl⟩

/-- The two albums on pages of one, by title. -/
def byTitle : ListAlbumsRequest where
  pageSize := 1
  includeAllVersions := true
  albumTypes := [1, 3]

def twoAlbums : Database :=
  (Transition.run Database.step .empty Database.twoVersions).getD .empty

def firstOfTwo : ListAlbumsResponse := (listAlbums twoAlbums byTitle).toOption.get (by rfl)

theorem firstOfTwo_issued : listAlbums twoAlbums byTitle = .ok firstOfTwo := by rfl

/-- The types are listed the other way, and the order is given. -/
def byTitle' : ListAlbumsRequest := { byTitle with albumTypes := [3, 1, 1], order := 1 }

theorem byTitle_same : SameAlbums byTitle byTitle' where
  artist := ⟨.nil, rfl, rfl⟩
  versions := rfl
  types pb := by simp [byTitle, byTitle', or_comm]
  bootlegs := rfl
  order := .inr ⟨.inl rfl, .inr rfl⟩
  descending := rfl

theorem byTitle_shared :
    (∃ res', listAlbums twoAlbums { byTitle' with pageToken := firstOfTwo.nextPageToken } =
        .ok res' ∧
      listAlbums twoAlbums { byTitle with pageToken := firstOfTwo.nextPageToken } = .ok res') ∧
    ∃ err, listAlbums twoAlbums
        { byTitle with descending := true, pageToken := firstOfTwo.nextPageToken } = .error err ∧
      err.code = .invalidArgument :=
  ⟨(token_shared_iff firstOfTwo_issued nofun).1 byTitle_same,
    (token_shared_iff firstOfTwo_issued nofun).2
      fun same : SameAlbums byTitle { byTitle with descending := true } =>
        Bool.false_ne_true same.descending⟩

end Byom.Rpc
