import Mathlib.Data.Fin.SuccPred
import Byom.Sqlite.TrackView

/-!
# Which rows keep their IDs

An album keeps its ID for as long as the payload has its key. A track keeps it
unless an album that holds the track, and does not list it, is imported before
the album that lists it: the delete of stale tracks runs once for each album.
-/

namespace Byom.Metadata

/-- The album that a track is under after `before` is imported, if it was under `owner`. -/
def holder (owner : Storage.UUID × String) (key : Storage.UUID × Int) (before : List ImportAlbum) :
    Storage.UUID × String :=
  ((before.filter fun al => al.Lists key).getLast?.map ImportAlbum.key).getD owner

/-- No album of the payload is imported while it holds the track without listing it. -/
def HeldThroughout (owner : Storage.UUID × String) (key : Storage.UUID × Int)
    (albums : List ImportAlbum) : Prop :=
  ∀ i : Fin albums.length, albums[i].Lists key ∨
    albums[i].key ≠ holder owner key (albums.take i)

instance (owner : Storage.UUID × String) (key : Storage.UUID × Int) (albums : List ImportAlbum) :
    Decidable (HeldThroughout owner key albums) :=
  inferInstanceAs (Decidable (∀ _ : Fin albums.length, _ ∨ _ ≠ _))

variable {al : ImportAlbum} {rest : List ImportAlbum} {owner : Storage.UUID × String}
  {key : Storage.UUID × Int}

theorem holder_cons : holder owner key (al :: rest) =
    holder (if al.Lists key then al.key else owner) key rest := by
  by_cases lists : al.Lists key
  · simp [holder, lists, List.getLast?_cons]
  · simp [holder, lists]

theorem heldThroughout_cons : HeldThroughout owner key (al :: rest) ↔
    (al.Lists key ∨ al.key ≠ owner) ∧
      HeldThroughout (if al.Lists key then al.key else owner) key rest := by
  unfold HeldThroughout
  refine (Fin.forall_fin_succ (n := rest.length)).trans ?_
  simp only [← holder_cons]
  rfl

end Byom.Metadata

namespace Byom.Sqlite

open Storage Relational Library Metadata

/-! ### One track through the loop -/

section Claim

variable {al : ImportAlbum} {albums : List ImportAlbum} {key : UUID × Int}
  {old : Option TrackView} {view : TrackView}

theorem claimTrack_of_not_lists (absent : ¬al.Lists key) :
    claimTrack al key old = old.filter fun view => view.owner ≠ al.key := by
  have none : al.tracks.filter (fun t => t.key = key) = [] := by
    rw [List.filter_eq_nil_iff]
    intro t ht same
    exact absent (List.mem_map.mpr ⟨t, ht, by simpa using same⟩)
  simp only [claimTrack, none]

theorem claimTracks_of_absent (absent : ∀ al ∈ albums, ¬al.Lists key) (old : Option TrackView) :
    claimTracks key albums old =
      old.filter fun view => view.owner ∉ albums.map ImportAlbum.key := by
  induction albums generalizing old with
  | nil => cases old <;> rfl
  | cons al rest ih =>
    obtain ⟨here, later⟩ := List.forall_mem_cons.mp absent
    rw [claimTracks, ih later, claimTrack_of_not_lists here, Option.filter_filter]
    congr 1
    funext view
    simp

theorem claimTrack_of_lists (lists : al.Lists key) (old : Option TrackView) :
    ∃ t ∈ al.tracks, ∃ last ∈ al.tracks, t.key = key ∧ last.key = key ∧ claimTrack al key old =
      some ⟨(old.map TrackView.id).getD t.id, al.key, last.details⟩ := by
  have member : ∀ t ∈ al.tracks.filter (fun t => t.key = key), t ∈ al.tracks ∧ t.key = key := by
    simp
  unfold claimTrack
  cases listed : al.tracks.filter fun t => t.key = key with
  | nil =>
    obtain ⟨t, ht, same⟩ := List.mem_map.mp lists
    exact absurd (by simpa using same) (List.filter_eq_nil_iff.mp listed t ht)
  | cons t later =>
    rw [listed] at member
    obtain ⟨ht, same⟩ := member t List.mem_cons_self
    have last : later.getLast?.getD t ∈ t :: later := by
      cases tail : later.getLast? with
      | none => exact List.mem_cons_self
      | some u => exact List.mem_cons_of_mem _ (List.mem_of_getLast? tail)
    obtain ⟨hlast, sameLast⟩ := member _ last
    exact ⟨t, ht, _, hlast, same, sameLast, rfl⟩

/-- A track that comes out of the loop went into it, or is of the payload. -/
theorem id_of_claimTracks (h : claimTracks key albums old = some view) :
    (∃ before, old = some before ∧ view.id = before.id) ∨
      ∃ al ∈ albums, ∃ t ∈ al.tracks, view.id = t.id := by
  induction albums generalizing old with
  | nil => exact .inl ⟨view, h, rfl⟩
  | cons al rest ih =>
    rcases ih h with ⟨mid, step, same⟩ | ⟨al', hal, t, ht, same⟩
    · by_cases lists : al.Lists key
      · obtain ⟨t, ht, _, _, _, _, claimed⟩ := claimTrack_of_lists lists old
        rw [claimed] at step
        obtain rfl := Option.some.inj step
        cases old with
        | none => exact .inr ⟨al, List.mem_cons_self, t, ht, same⟩
        | some before => exact .inl ⟨before, rfl, same⟩
      · rw [claimTrack_of_not_lists lists, Option.filter_eq_some_iff] at step
        exact .inl ⟨mid, step.1, same⟩
    · exact .inr ⟨al', List.mem_cons_of_mem _ hal, t, ht, same⟩

/-- A track that the payload lists comes out under an album of the payload. -/
theorem owner_of_claimTracks (h : claimTracks key albums old = some view) :
    view.owner ∈ albums.map ImportAlbum.key ∨ old = some view ∧ ∀ al ∈ albums, ¬al.Lists key := by
  induction albums generalizing old with
  | nil => exact .inr ⟨h, by simp⟩
  | cons al rest ih =>
    rcases ih h with listed | ⟨step, absent⟩
    · exact .inl (List.mem_cons_of_mem _ listed)
    · by_cases lists : al.Lists key
      · obtain ⟨_, _, _, _, _, _, claimed⟩ := claimTrack_of_lists lists old
        rw [claimed] at step
        obtain rfl := Option.some.inj step
        exact .inl List.mem_cons_self
      · rw [claimTrack_of_not_lists lists, Option.filter_eq_some_iff] at step
        exact .inr ⟨step.1, List.forall_mem_cons.mpr ⟨lists, absent⟩⟩

/-- The row of a track survives the loop exactly if it is held throughout. -/
theorem claimTracks_keepsID_iff (fresh : ∀ al ∈ albums, ∀ t ∈ al.tracks, t.id ≠ view.id) :
    (∃ after, claimTracks key albums (some view) = some after ∧
      after.id = view.id) ↔ HeldThroughout view.owner key albums := by
  induction albums generalizing view with
  | nil => exact iff_of_true ⟨view, rfl, rfl⟩ fun i => i.elim0
  | cons al rest ih =>
    obtain ⟨_, later⟩ := List.forall_mem_cons.mp fresh
    rw [heldThroughout_cons, claimTracks]
    by_cases lists : al.Lists key
    · obtain ⟨t, _, last, _, _, _, claimed⟩ := claimTrack_of_lists lists (some view)
      have held := @ih ⟨view.id, al.key, last.details⟩ later
      simpa [claimed, lists] using held
    · rw [claimTrack_of_not_lists lists]
      by_cases owned : view.owner = al.key
      · -- the album holds the track and does not list it
        have gone : (some view).filter (fun view => view.owner ≠ al.key) = none := by
          simp [Option.filter, owned]
        rw [gone]
        refine iff_of_false ?_ (by simp [lists, owned])
        rintro ⟨after, result, same⟩
        rcases id_of_claimTracks result with ⟨before, none, _⟩ | ⟨al', hal, t, ht, minted⟩
        · cases none
        · exact later al' hal t ht (minted.symm.trans same)
      · have stays : (some view).filter (fun view => view.owner ≠ al.key) = some view := by
          simp [Option.filter, owned]
        rw [stays, ih later]
        simp [lists, Ne.symm owned]

end Claim

namespace Database

variable {db db' : Database} {dirID : UUID} {albums : List ImportAlbum}

/-- Each album row with a key of the payload, and each track row that the payload lists,
has the ID it had. -/
def KeepsIDs (albums : List ImportAlbum) (db db' : Database) : Prop :=
  (∀ al ∈ albums, ∀ a ∈ db.library.albums, a.key = al.key →
    ∃ a' ∈ db'.library.albums, a'.key = a.key ∧ a'.id = a.id) ∧
  (∀ al ∈ albums, ∀ r ∈ db.library.tracks, al.Lists r.key →
    ∃ r' ∈ db'.library.tracks, r'.key = r.key ∧ r'.id = r.id)

/-- Every track that the payload lists is held by albums that list it. -/
def TracksHeld (albums : List ImportAlbum) (db : Database) : Prop :=
  ∀ al ∈ albums, ∀ r ∈ db.library.tracks, al.Lists r.key →
    ∀ a ∈ db.library.albums, a.id = r.albumID → HeldThroughout a.key r.key albums

instance (albums : List ImportAlbum) (db db' : Database) : Decidable (KeepsIDs albums db db') :=
  inferInstanceAs (Decidable ((∀ al ∈ albums, ∀ a ∈ db.library.albums, _ → _) ∧
    (∀ al ∈ albums, ∀ r ∈ db.library.tracks, _ → _)))

instance (albums : List ImportAlbum) (db : Database) : Decidable (TracksHeld albums db) :=
  inferInstanceAs (Decidable (∀ al ∈ albums, ∀ r ∈ db.library.tracks, _ →
    ∀ a ∈ db.library.albums, _ → HeldThroughout a.key r.key albums))

theorem replaceDirAlbums_keepsAlbum (h : replaceDirAlbums dirID albums db = .ok db')
    {al : ImportAlbum} (hal : al ∈ albums) {a : AlbumRow} (ha : a ∈ db.library.albums)
    (same : a.key = al.key) : ∃ a' ∈ db'.library.albums, a'.key = a.key ∧ a'.id = a.id := by
  obtain ⟨mid, _, loop, stays⟩ := replaceDirAlbums_keepsStored h
  obtain ⟨b, hb, idB, keyB, _⟩ := importAlbums_keepsAlbum loop ha
  obtain ⟨c, hc, keyC, idC⟩ := stays al hal b hb (keyB.trans same)
  exact ⟨c, hc, keyC.trans keyB, idC.trans idB⟩

theorem replaceDirAlbums_keepsTrack_iff (h : replaceDirAlbums dirID albums db = .ok db')
    {al : ImportAlbum} (hal : al ∈ albums) {r : TrackRow} (hr : r ∈ db.library.tracks)
    (lists : al.Lists r.key) (fresh : ∀ al ∈ albums, ∀ t ∈ al.tracks, t.id ≠ r.id)
    {a : AlbumRow} (ha : a ∈ db.library.albums) (owner : a.id = r.albumID) :
    (∃ r' ∈ db'.library.tracks, r'.key = r.key ∧ r'.id = r.id) ↔
      HeldThroughout a.key r.key albums := by
  have before : db.trackAt r.key = some ⟨r.id, a.key, r.details⟩ :=
    trackAt_eq_some_iff.mpr ⟨r, hr, rfl, rfl, rfl, owner ▸ albumKey_of_mem ha⟩
  have after := replaceDirAlbums_trackAt h r.key
  rw [before] at after
  have held : (∃ view, claimTracks r.key albums (some ⟨r.id, a.key, r.details⟩) = some view ∧
      view.id = r.id) ↔ HeldThroughout a.key r.key albums := claimTracks_keepsID_iff fresh
  rw [← held]
  constructor
  · rintro ⟨r', hr', same, id⟩
    obtain ⟨k, owned⟩ := exists_albumKey hr'
    have found : db'.trackAt r.key = some ⟨r'.id, k, r'.details⟩ :=
      trackAt_eq_some_iff.mpr ⟨r', hr', same, rfl, rfl, owned⟩
    rw [after, Option.filter_eq_some_iff] at found
    exact ⟨_, found.1, id⟩
  · rintro ⟨view, result, id⟩
    have stays : ownerStays dirID albums view.owner = true := by
      rcases owner_of_claimTracks result with listed | ⟨_, absent⟩
      · simp [ownerStays, listed]
      · exact absurd lists (absent al hal)
    have found : db'.trackAt r.key = some view := by
      rw [after, result]
      simp [Option.filter, stays]
    obtain ⟨r', hr', same, idR', _⟩ := trackAt_eq_some_iff.mp found
    exact ⟨r', hr', same, idR'.trans id⟩

/-- Albums keep their IDs over every import. Tracks do exactly if no album of the payload
is imported while it holds a track that only another one lists. -/
theorem import_keepsIDs_iff (h : replaceDirAlbums dirID albums db = .ok db')
    (fresh : ∀ al ∈ albums, ∀ t ∈ al.tracks, ∀ r ∈ db.library.tracks, t.id ≠ r.id) :
    KeepsIDs albums db db' ↔ TracksHeld albums db := by
  constructor
  · rintro ⟨_, tracks⟩ al hal r hr lists a ha owner
    have minted := fun al hal t ht => fresh al hal t ht r hr
    exact (replaceDirAlbums_keepsTrack_iff h hal hr lists minted ha owner).mp
      (tracks al hal r hr lists)
  · intro held
    refine ⟨fun al hal a ha same => replaceDirAlbums_keepsAlbum h hal ha same, ?_⟩
    intro al hal r hr lists
    obtain ⟨a, ha, owner⟩ := db.referenced.trackAlbums.exists_parent hr
    have minted := fun al hal t ht => fresh al hal t ht r hr
    exact (replaceDirAlbums_keepsTrack_iff h hal hr lists minted ha owner).mpr
      (held al hal r hr lists a ha owner)

/-- Both files of dir 10 are tracks of one album. -/
def oneAlbum : List Write :=
  firstScans ++ [.replaceDirAlbums 10 [albumIn 30 10 "A" [wholeFile 40 20, wholeFile 41 21]]]

/-- The first file is retagged to another album. -/
def retagged : List ImportAlbum :=
  [albumIn 32 10 "B" [wholeFile 43 20], albumIn 31 10 "A" [wholeFile 42 21]]

theorem newAlbumFirst_keepsIDs : KeepsIDs retagged (afterWrites oneAlbum (by decide))
    (afterWrites (oneAlbum ++ [.replaceDirAlbums 10 retagged]) (by decide)) := by
  have stored : replaceDirAlbums 10 retagged (afterWrites oneAlbum (by decide)) =
      .ok (afterWrites (oneAlbum ++ [.replaceDirAlbums 10 retagged]) (by decide)) := by rfl
  exact (import_keepsIDs_iff stored (by decide)).mpr (by decide)

/-- In the other order the retagged track is a new row. -/
theorem oldAlbumFirst_losesID :
    ¬ ∀ (db db' : Database) (dirID : UUID) (albums : List ImportAlbum), db.Reachable →
      (∀ al ∈ albums, al.album.dirID = dirID) →
      (∀ al ∈ albums, ∀ t ∈ al.tracks, ∀ r ∈ db.library.tracks, t.id ≠ r.id) →
      replaceDirAlbums dirID albums db = .ok db' → KeepsIDs albums db db' := by
  intro keeps
  have after := keeps (afterWrites oneAlbum (by decide))
    (afterWrites (oneAlbum ++ [.replaceDirAlbums 10 retagged.reverse]) (by decide)) 10
    retagged.reverse ⟨oneAlbum, afterWrites_run _ _⟩ (by decide) (by decide) (by rfl)
  exact absurd after (by decide)

end Database

end Byom.Sqlite
