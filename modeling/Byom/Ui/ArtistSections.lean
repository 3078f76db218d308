import Byom.Relational.Grouping
import Byom.Ui.LibraryLists

/-!
# The sections of an artist

The sections ask for album types and for bootlegs or none. Each release of the artist meets the
request of one of them.
-/

namespace Byom.Ui

open Storage Library Sqlite Rpc Relational ListRoute

/-- The section that shows a release of some type. -/
def sectionOf (type : AlbumType) (bootleg : Bool) : Section :=
  if bootleg then ⟨"Bootlegs", [], 2⟩
  else
    match type with
    | .main | .unknown => ⟨"Albums", [1, 0], 1⟩
    | .single | .ep => ⟨"Singles & EPs", [2, 3], 1⟩
    | .other => ⟨"Other", [4], 1⟩

/-- The conditions of a query on the type and on bootlegs. -/
def asksFor (types : List AlbumType) (bootlegs : BootlegFilter) (type : AlbumType)
    (bootleg : Bool) : Bool :=
  (types.isEmpty || type ∈ types) &&
    match bootlegs with
    | .bootlegsInclude => true
    | .bootlegsExclude => !bootleg
    | .bootlegsOnly => bootleg

theorem sectionOf_mem (type : AlbumType) (bootleg : Bool) : sectionOf type bootleg ∈ sections := by
  cases bootleg <;> cases type <;> decide

/-- A section asks for the releases that belong to it. -/
theorem section_asks : ∀ part ∈ sections, ∃ types bootlegs,
    albumTypeFilter "album_types" part.albumTypes = .ok types ∧
      bootlegFilter "bootlegs" part.bootlegs = .ok bootlegs ∧
        ∀ type bootleg, asksFor types bootlegs type bootleg = (sectionOf type bootleg = part) := by
  intro part listed
  unfold sections at listed
  simp only [List.mem_cons, List.not_mem_nil, or_false] at listed
  rcases listed with rfl | rfl | rfl | rfl
  all_goals
    refine ⟨_, _, rfl, rfl, ?_⟩
    intro type bootleg
    cases type <;> cases bootleg <;> decide

variable {db : Database} {id : String} {artistID : UUID} {part : Section} {query : SortedQuery}

def belongsTo (part : Section) (al : Album) : Bool :=
  sectionOf al.details.type al.details.bootleg = part

/-- A section is the releases of the artist that belong to it. -/
theorem albumRows_section (listed : part ∈ sections)
    (read : albumQueryOf (sectionRequest id part) = .ok query)
    (artist : parseOptionalID "artist_id" id = .ok artistID) :
    db.albumRows query.toAlbumQuery = (db.albumRows { artistID }).filter (belongsTo part) := by
  obtain ⟨readID, readTypes, readBootlegs, _, versions, _⟩ := albumQueryOf_ok_iff.mp read
  have own : query.artistID = artistID := Except.ok.inj (readID.symm.trans artist)
  have primaries : query.includeAllVersions = false := versions
  obtain ⟨types, bootlegs, asked, asked', asks⟩ := section_asks part listed
  obtain rfl := Except.ok.inj (asked.symm.trans readTypes)
  obtain rfl := Except.ok.inj (asked'.symm.trans readBootlegs)
  rw [Database.albumRows_eq, Database.albumRows_eq, List.filter_map, List.filter_filter]
  congr 1
  apply List.filter_congr
  intro a _
  have selected : Database.selects query.toAlbumQuery a = (a.primaryVersion &&
      asksFor query.types query.bootlegs a.details.type a.details.bootleg) := by
    unfold Database.selects asksFor
    rewrite [primaries, Bool.false_or, Bool.and_assoc]
    cases query.bootlegs <;> rfl
  have all : Database.selects { artistID } a = a.primaryVersion := by
    simp [Database.selects]
  have belongs : belongsTo part (Database.scanAlbum db a (db.cover a)) =
      asksFor query.types query.bootlegs a.details.type a.details.bootleg := by
    exact Bool.eq_iff_iff.mpr (decide_eq_true_iff.trans (iff_of_eq (asks _ _)).symm)
  rw [Function.comp_apply, belongs, Database.matchesQuery, Database.matchesQuery, selected, all,
    own]
  cases a.primaryVersion <;> cases asksFor _ _ _ _ <;> simp

theorem sections_readable (artist : parseOptionalID "artist_id" id = .ok artistID)
    (listed : part ∈ sections) : ∃ query, albumQueryOf (sectionRequest id part) = .ok query := by
  obtain ⟨types, bootlegs, readTypes, readBootlegs, _⟩ := section_asks part listed
  let query : SortedQuery := { artistID, types, bootlegs, order := .originalDate }
  exact ⟨query, albumQueryOf_ok_iff.mpr ⟨artist, readTypes, readBootlegs, rfl, rfl, rfl⟩⟩

theorem albumItems_nodup (db : Database) (query : AlbumQuery) :
    ((db.albumRows query).map albumItem).Nodup := by
  have ids : ((db.albumRows query).map Album.id).Nodup := by
    rw [Database.albumRows_eq, List.map_map]
    exact db.unique.albumIDs.filter _
  rw [List.nodup_map_iff_inj_on (ids.of_map _)]
  intro a ha b hb same
  apply List.inj_on_of_nodup_map ids ha hb
  have texts : a.id.string = b.id.string := congrArg AlbumProto.id (ListItem.album.inj same)
  have read := UUID.parse_string a.id
  rw [texts, UUID.parse_string] at read
  exact (Option.some.inj read).symm

/-- Once its sections are complete, the page of an artist shows each release of the artist
once. -/
theorem sections_partition {E : Type} {events : List (CacheEvent ListItem E)}
    {s : ListCache ListItem E} (artist : parseOptionalID "artist_id" id = .ok artistID)
    (answered : Transition.StepsMeet ListCache.step (Answered (· = db)) {} events)
    (ends : Transition.run ListCache.step {} events = some s)
    (shown : Section → InfiniteList ListItem E)
    (complete : ∀ part (listed : part ∈ sections), shown part ∈ s.lists ∧
      (artistSection id part listed).key = (shown part).key ∧ (shown part).done = true) :
    (sections.flatMap fun part => (shown part).items).Perm
        ((db.albumRows { artistID }).map albumItem) ∧
      (sections.flatMap fun part => (shown part).items).Nodup := by
  have displayed : ∀ part ∈ sections, (shown part).items.Perm
      (((db.albumRows { artistID }).filter (belongsTo part)).map albumItem) := by
    intro part listed
    obtain ⟨member, key, done⟩ := complete part listed
    obtain ⟨token, served⟩ := (accumulates_along events answered).last ends _ member
    obtain ⟨query, read⟩ := sections_readable artist listed
    obtain ⟨rows, items, rows_⟩ := shows_of_served (served _ key) query read
    have all := (rows_.first db fun _ same => by rw [same]).2 done
    rw [items, all]
    apply List.Perm.map
    have own : (albumQuery query byDate).rows db = _ := albumRows_section listed read artist
    rw [← own]
    exact Paging.ordered_perm _
  have whole : (sections.flatMap fun part => (shown part).items).Perm
      ((db.albumRows { artistID }).map albumItem) := by
    have parts : (sections.flatMap fun part =>
        (db.albumRows { artistID }).filter (belongsTo part)).Perm (db.albumRows { artistID }) :=
      flatMap_filter_perm _ (by decide) fun _ _ => sectionOf_mem _ _
    have items := parts.map albumItem
    rw [List.map_flatMap] at items
    exact (List.Perm.flatMap_left sections displayed).trans items
  exact ⟨whole, whole.nodup_iff.mpr (albumItems_nodup db _)⟩

/-! ### An artist with three releases -/

def releaseOf (id : UUID) (groupKey title : String) (type : AlbumType) (bootleg : Bool) :
    Metadata.ImportAlbum :=
  let al := (Database.albumIn id 10 groupKey []).album
  ⟨{ al with artists := [⟨7, "The Band"⟩], details := { al.details with type, title, bootleg } },
    []⟩

def threeReleases : List Write :=
  Database.firstScans ++ [.insertArtist ⟨7, "The Band", "Band, The"⟩ ["band"],
    .replaceDirAlbums 10 [releaseOf 30 "home" "Home" .main false, releaseOf 31 "away" "Away" .ep false,
      releaseOf 32 "tape" "Tape" .main true]]

def bandLibrary : Database := Database.afterWrites threeReleases (by decide)

def bandItem (id : UUID) (groupKey title : String) (type : Int32) (bootleg : Bool) : ListItem :=
  .album ⟨id.string, title, type, "", "", "", bootleg, false, false, groupKey, "", true,
    [⟨(7 : UUID).string, "The Band"⟩], ""⟩

/-- The page of the artist is opened, and its four requests are answered. -/
def bandOpened : List (CacheEvent ListItem String) :=
  sections.map (fun part => .list (.mount (sectionKey (7 : UUID).string part))) ++
    [.list (.resolve 0 ⟨[bandItem 30 "home" "Home" 1 false], ""⟩),
      .list (.resolve 0 ⟨[bandItem 31 "away" "Away" 3 false], ""⟩), .list (.resolve 0 ⟨[], ""⟩),
      .list (.resolve 0 ⟨[bandItem 32 "tape" "Tape" 1 true], ""⟩)]

theorem bandOpened_answered :
    Transition.StepsMeet ListCache.step (Answered (· = bandLibrary)) {} bandOpened := by
  intro s₁ h₁
  refine ⟨trivial, ?_⟩
  intro s₂ h₂
  refine ⟨trivial, ?_⟩
  intro s₃ h₃
  refine ⟨trivial, ?_⟩
  intro s₄ h₄
  refine ⟨trivial, ?_⟩
  cases h₁
  cases h₂
  cases h₃
  cases h₄
  intro s₅ h₅
  refine ⟨?_, ?_⟩
  · rintro f awaited
    cases awaited
    exact ⟨.artistSection _ ⟨"Albums", [1, 0], 1⟩ (by decide), rfl, bandLibrary, rfl, rfl⟩
  cases h₅
  intro s₆ h₆
  refine ⟨?_, ?_⟩
  · rintro f awaited
    cases awaited
    exact ⟨.artistSection _ ⟨"Singles & EPs", [2, 3], 1⟩ (by decide), rfl, bandLibrary, rfl, rfl⟩
  cases h₆
  intro s₇ h₇
  refine ⟨?_, ?_⟩
  · rintro f awaited
    cases awaited
    exact ⟨.artistSection _ ⟨"Other", [4], 1⟩ (by decide), rfl, bandLibrary, rfl, rfl⟩
  cases h₇
  intro s₈ h₈
  refine ⟨?_, trivial⟩
  rintro f awaited
  cases awaited
  exact ⟨.artistSection _ ⟨"Bootlegs", [], 2⟩ (by decide), rfl, bandLibrary, rfl, rfl⟩

def bandPage : ListCache ListItem String :=
  (Transition.run ListCache.step {} bandOpened).get (by decide)

def bandList (part : Section) : InfiniteList ListItem String :=
  (bandPage.lists.find? fun l => l.key = sectionKey (7 : UUID).string part).getD ⟨"", true, [],
    false, false, none, 0⟩

theorem bandList_complete : ∀ part ∈ sections, bandList part ∈ bandPage.lists ∧
    sectionKey (7 : UUID).string part = (bandList part).key ∧ (bandList part).done = true := by
  decide

theorem bandOpened_partition : ((sections.flatMap fun part => (bandList part).items).Perm
      ((bandLibrary.albumRows { artistID := 7 }).map albumItem) ∧
    (sections.flatMap fun part => (bandList part).items).Nodup) ∧
      sections.map (fun part => (bandList part).items.length) = [1, 1, 0, 1] :=
  And.intro (sections_partition (parseOptionalID_string "artist_id" 7) bandOpened_answered
    (Option.some_get _).symm bandList bandList_complete) (by decide)

end Byom.Ui
