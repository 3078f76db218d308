import Byom.Sqlite.History

/-!
# Artists and their aliases

Only `InsertArtist` writes them, and it adds an artist with its aliases.
-/

namespace Byom.Sqlite.Database

open Storage Relational Library

/-- What `ArtistsByAlias` reads. -/
def people (l : LibraryTables) : List Artist × List AliasRow := (l.artists, l.artistAliases)

variable {db db' : Database} {norm other : String} {artist : Artist}

theorem artistsByAlias_of_people (same : people db'.library = people db.library) (norm : String) :
    db'.artistsByAlias norm = db.artistsByAlias norm := by
  obtain ⟨artists, aliases⟩ := Prod.mk.inj same
  unfold artistsByAlias
  rw [artists, aliases]

/-- Every write but `InsertArtist` leaves them alone. -/
theorem step_people {w : Write} (h : db.step w = some db')
    (other : ∀ artist aliases, w ≠ .insertArtist artist aliases) :
    people db'.library = people db.library := by
  rcases step_keeps (f := people) (fun _ _ _ _ _ _ => rfl) h with
    same | ⟨artist, aliases, rfl, _⟩ | ⟨img, id, _, stored⟩
  · exact same
  · exact absurd rfl (other artist aliases)
  · have kept : Keeps people db db' := upsertImage_keeps (fun _ _ => rfl) stored
    exact kept.2

/-- `InsertArtist` with one alias adds the artist and the alias. -/
theorem insertArtist_spec (h : db.insertArtist artist [norm] = .ok db') :
    db'.library.artists = db.library.artists ++ [artist] ∧
      db'.library.artistAliases = db.library.artistAliases ++ [⟨norm, artist.id⟩] := by
  obtain ⟨mid, first, second⟩ := bind_ok h
  obtain ⟨last, second, done⟩ := bind_ok second
  cases done
  refine ⟨?_, ?_⟩
  · rw [(write_spec second).2, (write_spec first).2]
  · rw [(write_spec second).2, (write_spec first).2]

/-- The artists that have the alias. -/
theorem mem_artistsByAlias : artist ∈ db.artistsByAlias norm ↔
    artist ∈ db.library.artists ∧ (⟨norm, artist.id⟩ : AliasRow) ∈ db.library.artistAliases := by
  unfold artistsByAlias
  simp only [List.mem_insertionSort, List.mem_filterMap, List.mem_filter, decide_eq_true_eq]
  constructor
  · rintro ⟨⟨name, id⟩, ⟨listed, rfl⟩, found⟩
    have own : artist.id = id := key_of_lookup found
    exact ⟨mem_of_lookup found, own ▸ listed⟩
  · rintro ⟨known, listed⟩
    exact ⟨_, ⟨listed, rfl⟩, db.unique.artistIDs.lookup_of_mem known⟩

theorem artistsByAlias_eq_nil_iff :
    db.artistsByAlias norm = [] ↔ ∀ a ∈ db.library.artistAliases, a.normName ≠ norm := by
  constructor
  · intro nobody a ha named
    obtain ⟨artist, known, own⟩ := db.referenced.aliasArtists.exists_parent ha
    have listed : artist ∈ db.artistsByAlias norm := by
      refine mem_artistsByAlias.mpr ⟨known, ?_⟩
      rw [own, ← named]
      exact ha
    rw [nobody] at listed
    cases listed
  · intro nobody
    apply List.eq_nil_iff_forall_not_mem.mpr
    intro artist listed
    exact nobody _ (mem_artistsByAlias.mp listed).2 rfl

/-- The artist that `ArtistsByAlias` lists first has the least ID. -/
structure Oldest (db : Database) (norm : String) (id : UUID) : Prop where
  exists_ : ∃ artist ∈ db.library.artists, artist.id = id
  listed : (⟨norm, id⟩ : AliasRow) ∈ db.library.artistAliases
  least : ∀ artist ∈ db.library.artists,
    (⟨norm, artist.id⟩ : AliasRow) ∈ db.library.artistAliases → id ≤ artist.id

theorem oldest_of_head {others : List Artist} (h : db.artistsByAlias norm = artist :: others) :
    db.Oldest norm artist.id := by
  have first : artist ∈ db.artistsByAlias norm := by
    rw [h]
    exact List.mem_cons_self
  obtain ⟨known, listed⟩ := mem_artistsByAlias.mp first
  refine ⟨⟨artist, known, rfl⟩, listed, ?_⟩
  intro x hx listedX
  have sorted : (db.artistsByAlias norm).Pairwise fun a b => a.id ≤ b.id :=
    List.pairwise_insertionSort _ _
  have member : x ∈ artist :: others := h ▸ mem_artistsByAlias.mpr ⟨hx, listedX⟩
  rw [h] at sorted
  rcases List.mem_cons.mp member with rfl | later
  · exact BitVec.le_refl _
  · exact List.rel_of_pairwise_cons sorted later

theorem Oldest.of_people {id : UUID} (oldest : db.Oldest norm id)
    (same : people db'.library = people db.library) : db'.Oldest norm id := by
  obtain ⟨artists, aliases⟩ := Prod.mk.inj same
  refine ⟨?_, ?_, ?_⟩
  · rw [artists]
    exact oldest.exists_
  · rw [aliases]
    exact oldest.listed
  · rw [artists, aliases]
    exact oldest.least

/-- An artist that is inserted where nobody had its alias. -/
theorem oldest_of_inserted (h : db.insertArtist artist [norm] = .ok db')
    (nobody : db.artistsByAlias norm = []) : db'.Oldest norm artist.id := by
  obtain ⟨artists, aliases⟩ := insertArtist_spec h
  refine ⟨⟨artist, ?_, rfl⟩, ?_, ?_⟩
  · rw [artists]
    exact List.mem_append_right _ List.mem_cons_self
  · rw [aliases]
    exact List.mem_append_right _ List.mem_cons_self
  · intro x _ listed
    rw [aliases] at listed
    rcases List.mem_append.mp listed with old | new
    · exact absurd rfl (artistsByAlias_eq_nil_iff.mp nobody _ old)
    · obtain ⟨_, own⟩ := AliasRow.mk.inj (List.mem_singleton.mp new)
      rw [own]
      exact BitVec.le_refl _

/-- It changes nothing for the artists of other aliases. -/
theorem Oldest.inserted {id : UUID} (oldest : db.Oldest other id)
    (h : db.insertArtist artist [norm] = .ok db') (apart : norm ≠ other) : db'.Oldest other id := by
  obtain ⟨artists, aliases⟩ := insertArtist_spec h
  have older : ∀ {x : UUID}, (⟨other, x⟩ : AliasRow) ∈ db'.library.artistAliases →
      (⟨other, x⟩ : AliasRow) ∈ db.library.artistAliases := by
    intro x listed
    rw [aliases] at listed
    rcases List.mem_append.mp listed with old | new
    · exact old
    · exact absurd (AliasRow.mk.inj (List.mem_singleton.mp new)).1.symm apart
  refine ⟨?_, ?_, ?_⟩
  · obtain ⟨x, known, own⟩ := oldest.exists_
    exact ⟨x, artists ▸ List.mem_append_left _ known, own⟩
  · rw [aliases]
    exact List.mem_append_left _ oldest.listed
  · intro x _ listed
    obtain ⟨y, known, own⟩ := db.referenced.aliasArtists.exists_parent (older listed)
    have same : y.id = x.id := own
    have bound := oldest.least y known (same ▸ older listed)
    exact same ▸ bound

end Byom.Sqlite.Database
