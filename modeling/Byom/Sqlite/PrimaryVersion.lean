import Byom.Sqlite.History

/-!
# The primary version of a group

Imports give every group its primary when the first album comes in, and
`promoteOrphanedPrimaries` restores it for the groups that lost theirs to the
delete of stale albums. Which groups these are is read before that delete.
-/

namespace Byom.Sqlite.Database

open Storage Relational Library Metadata

/-- The ID of a group's primary version. -/
def primary (groupKey : String) (db : Database) : Option UUID :=
  AlbumRow.versions.representative groupKey db.library.albums

/-- The smallest album ID of a group. -/
def oldest (groupKey : String) (db : Database) : Option UUID :=
  AlbumRow.versions.oldest groupKey db.library.albums

/-- Each group with at least one album has exactly one primary. -/
def OnePrimary (db : Database) : Prop :=
  ∀ a ∈ db.library.albums, (db.library.albums.filter fun b =>
    b.groupKey = a.groupKey && b.primaryVersion).length = 1

instance : DecidablePred OnePrimary := fun db =>
  inferInstanceAs (Decidable (∀ a ∈ db.library.albums, _ = _))

variable {db db' : Database} {groupKey : String} {id : UUID}

theorem primary_eq_some_iff : db.primary groupKey = some id ↔
    ∃ a ∈ db.library.albums, a.groupKey = groupKey ∧ a.primaryVersion = true ∧ a.id = id :=
  Election.AtMostOne.representative_eq_some_iff (E := AlbumRow.versions) db.unique.primaries

theorem primary_isSome_iff : (db.primary groupKey).isSome ↔
    ∃ a ∈ db.library.albums, a.groupKey = groupKey ∧ a.primaryVersion = true :=
  Election.representative_isSome_iff

/-- The unique index leaves only the question whether there is a primary. -/
theorem onePrimary_iff : db.OnePrimary ↔ AlbumRow.versions.Represented db.library.albums := by
  refine forall_congr' fun a => forall_congr' fun _ => ?_
  constructor
  · intro one
    obtain ⟨b, only⟩ := List.length_eq_one_iff.mp one
    have member := List.mem_filter.mp (only ▸ List.mem_singleton.mpr rfl)
    show (db.primary a.groupKey).isSome
    exact primary_isSome_iff.mpr ⟨b, member.1, by simpa using member.2⟩
  · intro (some : (db.primary a.groupKey).isSome)
    obtain ⟨b, hb, group, primary⟩ := primary_isSome_iff.mp some
    have alone := db.unique.primaries.filter_eq_singleton (p := fun b => b.groupKey = a.groupKey)
      (List.mem_filter.mpr ⟨hb, primary⟩) (by simpa using group)
      (fun c _ same => (of_decide_eq_true same).trans group.symm)
    rw [List.filter_filter] at alone
    rw [alone, List.length_singleton]

theorem hasPrimary_eq (groupKey : String) (db : Database) :
    db.hasPrimary groupKey = (db.primary groupKey).isSome := by
  rw [Bool.eq_iff_iff, primary_isSome_iff]
  simp [hasPrimary]

/-! ### The loop over the albums -/

section Imports

variable {al : ImportAlbum} {albums : List ImportAlbum} {albumID : UUID} {kept : List UUID}

/-- An album that is stored keeps its ID, its key and its flag. -/
theorem importAlbum_keepsAlbum (h : importAlbum al db = .ok (db', albumID)) {a : AlbumRow}
    (ha : a ∈ db.library.albums) :
    ∃ a' ∈ db'.library.albums, a'.id = a.id ∧ a'.key = a.key ∧
      a'.primaryVersion = a.primaryVersion := by
  refine ⟨_, (importAlbum_albums h).2.1 ▸ upsertOn_keeps ha, ?_⟩
  split <;> exact ⟨rfl, rfl, rfl⟩

theorem importAlbums_keepsAlbum (h : importAlbums albums db = .ok (db', kept)) {a : AlbumRow}
    (ha : a ∈ db.library.albums) :
    ∃ a' ∈ db'.library.albums, a'.id = a.id ∧ a'.key = a.key ∧
      a'.primaryVersion = a.primaryVersion := by
  induction albums generalizing db kept a with
  | nil => cases h; exact ⟨a, ha, rfl, rfl, rfl⟩
  | cons al rest ih =>
    obtain ⟨mid, albumID, later, first, second, _⟩ := importAlbums_cons h
    obtain ⟨b, hb, idB, keyB, primaryB⟩ := importAlbum_keepsAlbum first ha
    obtain ⟨c, hc, idC, keyC, primaryC⟩ := ih second hb
    exact ⟨c, hc, idC.trans idB, keyC.trans keyB, primaryC.trans primaryB⟩

theorem importAlbums_primary (h : importAlbums albums db = .ok (db', kept))
    (held : db.primary groupKey = some id) : db'.primary groupKey = some id := by
  obtain ⟨a, ha, group, primary, rfl⟩ := primary_eq_some_iff.mp held
  obtain ⟨a', ha', same, key, flag⟩ := importAlbums_keepsAlbum h ha
  refine primary_eq_some_iff.mpr ⟨a', ha', ?_, flag.trans primary, same⟩
  exact (congrArg Prod.snd key).trans group

/-- An album that is new to its group becomes the primary if the group has none. -/
theorem importAlbum_represented (h : importAlbum al db = .ok (db', albumID))
    (all : AlbumRow.versions.Represented db.library.albums) :
    AlbumRow.versions.Represented db'.library.albums := by
  rw [(importAlbum_albums h).2.1]
  cases found : lookup AlbumRow.key (newAlbum al.album db).key db.library.albums with
  | some old =>
    rw [upsertOn_of_lookup _ found]
    exact all.updateWhere (fun _ => rfl) (fun _ => rfl) (fun _ => rfl)
  | none =>
    rw [upsertOn_of_absent _ found]
    apply all.append
    cases held : (db.primary al.album.groupKey).isSome with
    | true => exact .inl held
    | false =>
      refine .inr (?_ : (!db.hasPrimary al.album.groupKey) = true)
      rw [hasPrimary_eq, held]
      rfl

theorem importAlbums_represented (h : importAlbums albums db = .ok (db', kept))
    (all : AlbumRow.versions.Represented db.library.albums) :
    AlbumRow.versions.Represented db'.library.albums := by
  induction albums generalizing db kept with
  | nil => cases h; exact all
  | cons al rest ih =>
    obtain ⟨mid, albumID, later, first, second, _⟩ := importAlbums_cons h
    exact ih second (importAlbum_represented first all)

end Imports

/-! ### The delete and the promotion -/

/-- What a promotion does to the primaries, and what it keeps. -/
theorem promote_spec {key : String}
    (h : db.write (fun l => { l with albums := AlbumRow.versions.promote key l.albums }) =
      .ok db') :
    (∀ g, db'.primary g = (db.primary g).or (if g = key then db.oldest g else none)) ∧
      (∀ g, db'.oldest g = db.oldest g) ∧
      db'.library.albums.map (fun a => (a.id, a.key)) =
        db.library.albums.map fun a => (a.id, a.key) := by
  have albums : db'.library.albums = AlbumRow.versions.promote key db.library.albums :=
    congrArg LibraryTables.albums (write_spec h).2
  have still := db'.unique.primaries
  rw [albums] at still
  refine ⟨?_, ?_, ?_⟩
  · intro g
    unfold primary
    rw [albums]
    exact Election.representative_promote db.unique.albumIDs db.unique.primaries still
  · intro g
    unfold oldest
    rw [albums]
    exact Election.oldest_promote
  · rw [albums]
    apply map_key_updateWhere
    exact fun _ => rfl

theorem promoteOrphanedPrimaries_spec {keys : List String}
    (h : promoteOrphanedPrimaries keys db = .ok db') :
    (∀ g, db'.primary g = (db.primary g).or (if g ∈ keys then db.oldest g else none)) ∧
      (∀ g, db'.oldest g = db.oldest g) ∧
      db'.library.albums.map (fun a => (a.id, a.key)) =
        db.library.albums.map fun a => (a.id, a.key) := by
  induction keys generalizing db with
  | nil => cases h; exact ⟨by simp, fun _ => rfl, rfl⟩
  | cons key keys ih =>
    obtain ⟨mid, first, second⟩ := promoteOrphanedPrimaries_cons h
    obtain ⟨primary₁, oldest₁, rows₁⟩ := promote_spec first
    obtain ⟨primary₂, oldest₂, rows₂⟩ := ih second
    refine ⟨?_, fun g => (oldest₂ g).trans (oldest₁ g), rows₂.trans rows₁⟩
    intro g
    rw [primary₂, primary₁, oldest₁, Option.or_assoc]
    congr 1
    by_cases here : g = key
    · cases db.oldest g <;> simp [here]
    · simp [here]

theorem exists_album (same : db'.library.albums.map (fun a => (a.id, a.key)) =
    db.library.albums.map fun a => (a.id, a.key)) {a : AlbumRow} (ha : a ∈ db'.library.albums) :
    ∃ b ∈ db.library.albums, b.id = a.id ∧ b.key = a.key := by
  have listed : (a.id, a.key) ∈ db.library.albums.map fun a => (a.id, a.key) := by
    rw [← same]
    exact List.mem_map_of_mem ha
  simpa using listed

/-- If the primary of a group is stale, the group is one of those read before the delete. -/
theorem delete_primary {dirID : UUID} {keep : List UUID} (held : db.primary groupKey = some id)
    {rest : Database} (deleted : rest = db.deleteAlbums (stale AlbumRow.id AlbumRow.dirID dirID keep)) :
    rest.primary groupKey = some id ∨
      rest.primary groupKey = none ∧ groupKey ∈ db.dirPrimaryGroups dirID ∧
        ∀ a ∈ rest.library.albums, a.id ≠ id := by
  obtain ⟨e, he, group, primary, rfl⟩ := primary_eq_some_iff.mp held
  have one : AlbumRow.versions.AtMostOne db.library.albums := db.unique.primaries
  have left : ∀ k, rest.primary groupKey = some k ↔ ∃ r ∈ db.library.albums,
      r.groupKey = groupKey ∧ r.primaryVersion = true ∧ r.id = k ∧
        stale AlbumRow.id AlbumRow.dirID dirID keep r = false := by
    subst deleted
    exact fun k => one.representative_deleteWhere _
  cases gone : stale AlbumRow.id AlbumRow.dirID dirID keep e with
  | false => exact .inl ((left e.id).mpr ⟨e, he, group, primary, rfl, gone⟩)
  | true =>
    refine .inr ⟨?_, ?_, ?_⟩
    · rw [Option.eq_none_iff_forall_ne_some]
      intro k some
      obtain ⟨r, hr, groupR, primaryR, _, kept⟩ := (left k).mp some
      have same : r = e := one.eq_of_key (List.mem_filter.mpr ⟨hr, primaryR⟩)
        (List.mem_filter.mpr ⟨he, primary⟩) (groupR.trans group.symm)
      rw [same, gone] at kept
      cases kept
    · have owned : e.dirID = dirID := by simp [stale] at gone; exact gone.1
      refine List.mem_map.mpr ⟨e, List.mem_filter.mpr ⟨he, ?_⟩, group⟩
      simp [owned, primary]
    · subst deleted
      intro a ha same
      obtain ⟨ha, kept⟩ := mem_deleteWhere.mp ha
      obtain rfl := db.unique.albumIDs.eq_of_key ha he same
      rw [gone] at kept
      cases kept

/-- The primary of a group over one import: it stays while its album does, and then
passes to the oldest album that is left. -/
theorem replaceDirAlbums_primary {dirID : UUID} {albums : List ImportAlbum}
    (h : replaceDirAlbums dirID albums db = .ok db') (held : db.primary groupKey = some id) :
    (∃ a ∈ db'.library.albums, a.id = id) ∧ db'.primary groupKey = some id ∨
      (∀ a ∈ db'.library.albums, a.id ≠ id) ∧ db'.primary groupKey = db'.oldest groupKey := by
  obtain ⟨imported, keptAlbums, loop, promoted⟩ := replaceDirAlbums_steps h
  obtain ⟨primary, oldest, rows⟩ := promoteOrphanedPrimaries_spec promoted
  rcases delete_primary (importAlbums_primary loop held) rfl with still | ⟨lost, listed, gone⟩
  · have result : db'.primary groupKey = some id := by rw [primary, still, Option.some_or]
    obtain ⟨a, ha, _, _, same⟩ := primary_eq_some_iff.mp result
    exact .inl ⟨⟨a, ha, same⟩, result⟩
  · refine .inr ⟨?_, ?_⟩
    · intro a ha same
      obtain ⟨b, hb, sameB, _⟩ := exists_album rows ha
      exact gone b hb (sameB.trans same)
    · rw [primary, oldest, lost, Option.none_or, if_pos listed]

theorem replaceDirAlbums_onePrimary {dirID : UUID} {albums : List ImportAlbum}
    (h : replaceDirAlbums dirID albums db = .ok db') (one : db.OnePrimary) : db'.OnePrimary := by
  obtain ⟨imported, keptAlbums, loop, promoted⟩ := replaceDirAlbums_steps h
  obtain ⟨primary, oldest, rows⟩ := promoteOrphanedPrimaries_spec promoted
  have all := importAlbums_represented loop (onePrimary_iff.mp one)
  rw [onePrimary_iff]
  intro a ha
  show (db'.primary a.groupKey).isSome
  obtain ⟨b, hb, _, key⟩ := exists_album rows ha
  have group : b.groupKey = a.groupKey := congrArg Prod.snd key
  have before : (imported.primary a.groupKey).isSome := by
    rw [← group]
    exact all b (mem_deleteWhere.mp hb).1
  obtain ⟨id, held⟩ := Option.isSome_iff_exists.mp before
  rw [primary]
  rcases delete_primary held rfl with still | ⟨lost, listed, _⟩
  · rw [still]
    rfl
  · rw [lost, Option.none_or, if_pos listed, Option.isSome_iff_ne_none]
    intro none
    exact Election.oldest_eq_none_iff.mp none b hb group

/-! ### Runs -/

theorem onePrimary_of_albums (same : db'.library.albums = db.library.albums)
    (one : db.OnePrimary) : db'.OnePrimary := by
  rw [onePrimary_iff] at one ⊢
  rwa [same]

theorem step_onePrimary {w : Write} (stays : ∀ id, w ≠ .deleteLocation id)
    (h : step db w = some db') (one : db.OnePrimary) : db'.OnePrimary := by
  rcases step_albums h with ⟨id, rfl, _⟩ | ⟨dirID, albums, rfl, imported⟩ | same
  · exact absurd rfl (stays id)
  · exact replaceDirAlbums_onePrimary imported one
  · exact onePrimary_of_albums same one

theorem run_onePrimary {writes : List Write} (stays : ∀ id, .deleteLocation id ∉ writes)
    (h : Transition.run step db writes = some db') (one : db.OnePrimary) : db'.OnePrimary := by
  induction writes generalizing db with
  | nil => cases h; exact one
  | cons w rest ih =>
    obtain ⟨mid, first, second⟩ := Option.bind_eq_some_iff.mp h
    have here : ∀ id, w ≠ .deleteLocation id := by
      rintro id rfl
      exact stays id List.mem_cons_self
    exact ih (fun id later => stays id (List.mem_cons_of_mem _ later)) second
      (step_onePrimary here first one)

/-- From a catalog without albums, whatever dirs are imported and whatever is scanned in
between: every group has one primary after every import, and it changes only when its
album is gone, to the oldest version left. -/
theorem imports_keep_primaries {start : Database} {writes : List Write}
    (noAlbums : start.library.albums = []) (stays : ∀ id, .deleteLocation id ∉ writes)
    (run : Transition.run step start writes = some db) {dirID : UUID} {albums : List ImportAlbum}
    (imported : replaceDirAlbums dirID albums db = .ok db') :
    db'.OnePrimary ∧ ∀ groupKey id, db.primary groupKey = some id →
      (∃ a ∈ db'.library.albums, a.id = id) ∧ db'.primary groupKey = some id ∨
        (∀ a ∈ db'.library.albums, a.id ≠ id) ∧
          db'.primary groupKey = db'.oldest groupKey := by
  have none : start.OnePrimary := by
    intro a ha
    rw [noAlbums] at ha
    cases ha
  have one := run_onePrimary stays run none
  exact ⟨replaceDirAlbums_onePrimary imported one, fun _ _ => replaceDirAlbums_primary imported⟩

/-- The first dir loses its version, which was the primary. -/
def versionLost : List Write := twoVersions ++ [.replaceDirAlbums 10 []]

theorem versionLost_promotes : (afterWrites versionLost (by decide)).OnePrimary ∧
    (afterWrites versionLost (by decide)).primary "release" =
      (afterWrites versionLost (by decide)).oldest "release" := by
  have imported : replaceDirAlbums 10 [] (afterWrites twoVersions (by decide)) =
      .ok (afterWrites versionLost (by decide)) := by rfl
  have noAlbums : Database.empty.library.albums = [] := rfl
  obtain ⟨one, moves⟩ := imports_keep_primaries noAlbums (by simp [twoVersions, firstScans])
    (afterWrites_run twoVersions (by decide)) imported
  refine ⟨one, ?_⟩
  rcases moves "release" 30 (by decide) with ⟨stays, _⟩ | ⟨_, promoted⟩
  · exact absurd stays (by decide)
  · exact promoted

end Byom.Sqlite.Database
