import Byom.Sqlite.History

/-!
# The image index

Only `ImageIndex.Upsert` writes it, and a content hash keeps the ID it has.
-/

namespace Byom.Sqlite.Database

open Storage Relational Library

/-- The image with the content hash has the ID. -/
def HasImage (db : Database) (sha : String) (id : UUID) : Prop :=
  ∃ row ∈ db.library.images, row.contentHash = sha ∧ row.id = id

variable {db db' : Database} {sha : String} {id id' : UUID} {img : Image}

theorem HasImage.unique (first : db.HasImage sha id) (second : db.HasImage sha id') : id = id' := by
  obtain ⟨row, hrow, hash, rfl⟩ := first
  obtain ⟨row', hrow', hash', rfl⟩ := second
  rw [db.unique.imageHashes.eq_of_key hrow hrow' (hash.trans hash'.symm)]

theorem HasImage.of_images (has : db.HasImage sha id)
    (same : db'.library.images = db.library.images) : db'.HasImage sha id := by
  unfold HasImage
  rw [same]
  exact has

/-- Every write but `Upsert` leaves the index alone. -/
theorem step_images {w : Write} (h : db.step w = some db') (other : ∀ img, w ≠ .upsertImage img) :
    db'.library.images = db.library.images := by
  rcases step_keeps (f := LibraryTables.images) (fun _ _ _ _ _ _ => rfl) h with
    same | ⟨artist, aliases, _, stored⟩ | ⟨img, id, rfl, _⟩
  · exact same
  · have kept : Keeps LibraryTables.images db db' :=
      insertArtist_keeps (fun _ _ => rfl) (fun _ _ => rfl) stored
    exact kept.2
  · exact absurd rfl (other img)

theorem upsertImage_spec (h : db.upsertImage img = .ok (db', id)) :
    db'.library.images = upsertOn Image.contentHash (refreshImage img) img db.library.images ∧
      id = (upserted Image.contentHash (refreshImage img) img db.library.images).id := by
  obtain ⟨mid, first, second⟩ := bind_ok h
  cases second
  exact ⟨by rw [(write_spec first).2], rfl⟩

/-- The image is in the index, with the ID that is returned. -/
theorem upsertImage_hasImage (h : db.upsertImage img = .ok (db', id)) :
    db'.HasImage img.contentHash id := by
  obtain ⟨images, rfl⟩ := upsertImage_spec h
  have keeps : ∀ r, (refreshImage img r).contentHash = r.contentHash := fun _ => rfl
  have found := lookup_upsertOn_self img db.library.images keeps
  unfold HasImage
  rw [images]
  exact ⟨_, mem_of_lookup found, key_of_lookup found, rfl⟩

theorem HasImage.upserted (has : db.HasImage sha id) (h : db.upsertImage img = .ok (db', id')) :
    db'.HasImage sha id := by
  obtain ⟨row, hrow, hash, own⟩ := has
  refine ⟨_, (upsertImage_spec h).1 ▸ upsertOn_keeps hrow, ?_⟩
  split
  · exact ⟨hash, own⟩
  · exact ⟨hash, own⟩

/-- `Upsert` puts no other content hash into the index. -/
theorem HasImage.of_upserted (h : db.upsertImage img = .ok (db', id'))
    (has : db'.HasImage sha id) : sha = img.contentHash ∨ db.HasImage sha id := by
  obtain ⟨row, hrow, hash, own⟩ := has
  rw [(upsertImage_spec h).1] at hrow
  rcases mem_upsertOn hrow with ⟨rfl, _⟩ | ⟨old, _⟩ | ⟨old, hold, _, rfl⟩
  · exact .inl hash.symm
  · exact .inr ⟨row, old, hash, own⟩
  · exact .inr ⟨old, hold, hash, own⟩

end Byom.Sqlite.Database
