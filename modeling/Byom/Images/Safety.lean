import Byom.Images.Store

/-!
# What the image store keeps

A blob is on the disk before its row is in the index, a derivative is made from a blob, and
all of them stay for good. So whatever calls were running when a process stopped, the next
one finds complete files and an index that refers to them.
-/

namespace Byom.Images.Store

open Storage Files Library Sqlite Relational Transition

variable {k : Codec} {root : Path} {s s' : Store} {i : Nat} {call old : Call} {sha : String}
  {size : Int} {data out : Bytes} {img : Image} {newID : UUID} {job : Job Path}

def HasBlob (root : Path) (s : Store) (sha : String) : Prop := (s.files (blobPath root sha)).isSome

/-- The bytes have been added, and a blob with their hash is in place. -/
structure Original (k : Codec) (root : Path) (s : Store) (sha : String) (data : Bytes) : Prop where
  added : data ∈ s.added
  hash : k.sha data = sha
  stored : s.HasBlob root sha

/-- The files under lasting names. -/
structure Disk (k : Codec) (root : Path) (s : Store) : Prop where
  blob : ∀ sha data, validHash sha = true → s.files (blobPath root sha) = some data →
    data ∈ s.added ∧ k.sha data = sha
  derivative : ∀ sha size out, validHash sha = true →
    s.files (derivativePath root sha size) = some out →
      size ∈ supportedSizes ∧ ∃ data, s.Original k root sha data ∧ k.resizeJPEG data size = .ok out

/-- A call writes the blob of what it adds, or a derivative. -/
inductive Target (k : Codec) (root : Path) (s : Store) (job : Job Path) : Prop where
  | blob (data : Bytes) (added : data ∈ s.added)
    (aims : job.path = blobPath root (k.sha data) ∧ job.data = data)
  | derivative (sha : String) (size : Int) (data : Bytes) (valid : validHash sha = true)
    (listed : size ∈ supportedSizes) (original : s.Original k root sha data)
    (aims : job.path = derivativePath root sha size ∧ k.resizeJPEG data size = .ok job.data)

/-- What a call knows by where it is. -/
def Knows (k : Codec) (root : Path) (s : Store) : Call → Prop
  | .adding data stage => data ∈ s.added ∧
    match stage with
    | .storing _ _ _ job => job.path = blobPath root (k.sha data) ∧ job.data = data
    | .upserting _ _ _ => s.HasBlob root (k.sha data)
    | .publishing img => s.db.HasImage (k.sha data) img.id
    | _ => True
  | .opening sha size stage =>
    match stage with
    | .cached | .missed | .reading _ => validHash sha = true ∧ size ∈ supportedSizes
    | .resizing _ data =>
      (validHash sha = true ∧ size ∈ supportedSizes) ∧ s.Original k root sha data
    | .storing _ job =>
      (validHash sha = true ∧ size ∈ supportedSizes) ∧ job.path = derivativePath root sha size ∧
        ∃ data, s.Original k root sha data ∧ k.resizeJPEG data size = .ok job.data
    | _ => True

structure Inv (k : Codec) (root : Path) (s : Store) : Prop where
  disk : s.Disk k root
  staging : Staging tempPath s.files fun i => s.calls[i]?.bind Call.job
  knows : ∀ call ∈ s.calls, s.Knows k root call
  rows : ∀ sha id, s.db.HasImage sha id → validHash sha = true ∧ s.HasBlob root sha
  known : ∀ sha img, (sha, img) ∈ s.known → s.db.HasImage sha img.id
  results : ∀ data img, (data, img) ∈ s.results → s.db.HasImage (k.sha data) img.id

theorem start_inv (k : Codec) (root : Path) {db : Database} (empty : db.library.images = []) :
    (start db).Inv k root := by
  refine ⟨⟨nofun, nofun⟩, .idle _ _, nofun, ?_, nofun, nofun⟩
  rintro sha id ⟨row, hrow, _⟩
  have none_ : row ∈ db.library.images := hrow
  rw [empty] at none_
  cases none_

/-! ### Nothing is lost -/

structure Grows (root : Path) (s s' : Store) : Prop where
  added : s.added ⊆ s'.added
  blobs : ∀ sha, validHash sha = true → s.HasBlob root sha → s'.HasBlob root sha
  rows : ∀ sha id, s.db.HasImage sha id → s'.db.HasImage sha id

theorem Original.mono (original : s.Original k root sha data) (grows : s.Grows root s') :
    s'.Original k root sha data := by
  refine ⟨grows.added original.added, original.hash, grows.blobs sha ?_ original.stored⟩
  rw [← original.hash]
  exact validHash_hexString _

theorem Knows.mono (knows : s.Knows k root call) (grows : s.Grows root s') :
    s'.Knows k root call := by
  cases call with
  | adding data stage =>
    refine ⟨grows.added knows.1, ?_⟩
    cases stage with
    | upserting _ _ _ => exact grows.blobs _ (validHash_hexString _) knows.2
    | publishing img => exact grows.rows _ _ knows.2
    | storing _ _ _ job => exact knows.2
    | _ => trivial
  | opening sha size stage =>
    cases stage with
    | resizing _ data => exact ⟨knows.1, knows.2.mono grows⟩
    | storing _ job =>
      obtain ⟨accepted, path, data, original, resized⟩ := knows
      exact ⟨accepted, path, data, original.mono grows, resized⟩
    | cached => exact knows
    | missed => exact knows
    | reading _ => exact knows
    | _ => trivial

theorem Disk.mono (disk : s.Disk k root) (grows : s.Grows root s') (files : s'.files = s.files) :
    s'.Disk k root := by
  refine ⟨?_, ?_⟩
  · intro sha data valid stored
    rw [files] at stored
    obtain ⟨added, hash⟩ := disk.blob sha data valid stored
    exact ⟨grows.added added, hash⟩
  · intro sha size out valid stored
    rw [files] at stored
    obtain ⟨listed, data, original, resized⟩ := disk.derivative sha size out valid stored
    exact ⟨listed, data, original.mono grows, resized⟩

theorem Knows.target (knows : s.Knows k root call) (writes : call.job = some job) :
    s.Target k root job := by
  cases call with
  | adding data stage =>
    cases stage with
    | storing mime width height own =>
      cases writes
      exact .blob data knows.1 knows.2
    | _ => cases writes
  | opening sha size stage =>
    cases stage with
    | storing flight own =>
      cases writes
      obtain ⟨⟨valid, listed⟩, path, data, original, resized⟩ := knows
      exact .derivative sha size data valid listed original ⟨path, resized⟩
    | _ => cases writes

theorem Target.lasting (target : s.Target k root job) : ¬ IsTemporary tempPath job.path := by
  cases target with
  | blob data added aims =>
    rw [aims.1]
    exact lasting_blobPath (validHash_hexString _)
  | derivative sha size data valid listed original aims =>
    rw [aims.1]
    exact lasting_derivativePath

/-! ### Steps that leave the disk and the index alone -/

theorem Grows.of_same (files : s'.files = s.files)
    (images : s'.db.library.images = s.db.library.images) (added : s.added ⊆ s'.added) :
    s.Grows root s' := by
  refine ⟨added, ?_, ?_⟩
  · intro sha _ stored
    unfold HasBlob
    rw [files]
    exact stored
  · intro sha id has
    exact has.of_images images

theorem Inv.of_same (inv : s.Inv k root) (files : s'.files = s.files)
    (images : s'.db.library.images = s.db.library.images) (added : s.added ⊆ s'.added)
    (knows : ∀ call ∈ s'.calls, call ∈ s.calls ∨ s'.Knows k root call)
    (begins : ∀ (i : Nat) (job : Job Path), s'.calls[i]?.bind Call.job = some job →
      s.calls[i]?.bind Call.job = some job ∨ job.stage = .making)
    (known : ∀ sha img, (sha, img) ∈ s'.known → (sha, img) ∈ s.known ∨ s.db.HasImage sha img.id)
    (results : ∀ data img, (data, img) ∈ s'.results →
      (data, img) ∈ s.results ∨ s.db.HasImage (k.sha data) img.id) : s'.Inv k root := by
  have grows : s.Grows root s' := .of_same files images added
  have knows' : ∀ call ∈ s'.calls, s'.Knows k root call := by
    intro call member
    rcases knows call member with old | new
    · exact (inv.knows call old).mono grows
    · exact new
  refine ⟨inv.disk.mono grows files, ?_, knows', ?_, ?_, ?_⟩
  · rw [files]
    apply inv.staging.mono
    intro i job writes
    refine (begins i job writes).imp_right fun making => ⟨making, ?_⟩
    obtain ⟨call, found, own⟩ := Option.bind_eq_some_iff.mp writes
    exact ((knows' call (List.mem_of_getElem? found)).target own).lasting
  · intro sha id has
    obtain ⟨valid, stored⟩ := inv.rows sha id (has.of_images images.symm)
    exact ⟨valid, grows.blobs sha valid stored⟩
  · intro sha img listed
    exact grows.rows _ _ ((known sha img listed).elim (inv.known sha img) id)
  · intro data img listed
    exact grows.rows _ _ ((results data img listed).elim (inv.results data img) id)

/-- One call goes on. A write that it has under way has just begun. -/
theorem Inv.move (inv : s.Inv k root) (knows : s.Knows k root call)
    (begins : ∀ job, call.job = some job → job.stage = .making) :
    (s.setCall i call).Inv k root := by
  refine inv.of_same rfl rfl (List.Subset.refl _) ?_ ?_ (fun _ _ => .inl) (fun _ _ => .inl)
  · intro d member
    obtain ⟨j, at_⟩ := List.mem_iff_getElem?.mp member
    rcases Transition.getElem?_set_cases at_ with ⟨_, rfl⟩ | ⟨_, before⟩
    · exact .inr (knows.mono (.of_same rfl rfl (List.Subset.refl _)))
    · exact .inl (List.mem_of_getElem? before)
  · intro j job writes
    obtain ⟨d, at_, own⟩ := Option.bind_eq_some_iff.mp writes
    rcases Transition.getElem?_set_cases at_ with ⟨_, rfl⟩ | ⟨_, before⟩
    · exact .inr (begins job own)
    · exact .inl (Option.bind_eq_some_iff.mpr ⟨d, before, own⟩)

/-- A flight begins or lands. -/
theorem Inv.flights (inv : s.Inv k root) {flights : List Flight} :
    ({ s with flights } : Store).Inv k root :=
  inv.of_same rfl rfl (List.Subset.refl _) (fun _ => .inl) (fun _ _ => .inl) (fun _ _ => .inl)
    fun _ _ => .inl

theorem Inv.land (inv : s.Inv k root) (flight : Nat) (ok : Bool) : (s.land flight ok).Inv k root :=
  inv.flights

theorem Inv.returns (inv : s.Inv k root) (added : data ∈ s.added)
    (has : s.db.HasImage (k.sha data) img.id) :
    (s.returns i data img).Inv k root := by
  have moved : (s.setCall i (.adding data (.returned img))).Inv k root :=
    inv.move ⟨added, trivial⟩ nofun
  refine moved.of_same rfl rfl (List.Subset.refl _) (fun _ => .inl) (fun _ _ => .inl)
    (fun _ _ => .inl) ?_
  intro data' img' listed
  refine (List.mem_append.mp listed).imp_right fun new => ?_
  cases List.mem_singleton.mp new
  exact has

/-- A call is made. -/
theorem Inv.begin (inv : s.Inv k root) {added : List Bytes} (more : s.added ⊆ added)
    (writes : call.job = none)
    (knows : ({ s with calls := s.calls ++ [call], added } : Store).Knows k root call) :
    ({ s with calls := s.calls ++ [call], added } : Store).Inv k root := by
  refine inv.of_same rfl rfl more ?_ ?_ (fun _ _ => .inl) (fun _ _ => .inl)
  · intro d member
    refine (List.mem_append.mp member).imp_right fun new => ?_
    rw [List.mem_singleton.mp new]
    exact knows
  · intro j job own
    obtain ⟨d, at_, own⟩ := Option.bind_eq_some_iff.mp own
    rw [List.getElem?_append] at at_
    split at at_
    · exact .inl (Option.bind_eq_some_iff.mpr ⟨d, at_, own⟩)
    · rw [List.mem_singleton.mp (List.mem_of_getElem? at_), writes] at own
      cases own

theorem Inv.restart (inv : s.Inv k root) : s.restart.Inv k root :=
  inv.of_same rfl rfl (List.Subset.refl _) nofun nofun nofun fun _ _ => .inl

/-! ### The disk -/

theorem write_cases {a : WriteAction} (h : s.write i a = some s') :
    ∃ call job files job', s.calls[i]? = some call ∧ call.job = some job ∧
      job.step tempPath s.files a = some (files, job') ∧
        s' = { s.setCall i (call.withJob job') with files } := by
  unfold Store.write at h
  split at h
  · cases h
  · rename_i call found
    split at h
    · cases h
    · rename_i job writes
      obtain ⟨⟨files, job'⟩, stepped, rfl⟩ := Option.map_eq_some_iff.mp h
      exact ⟨call, job, files, job', found, writes, stepped, rfl⟩

theorem job_withJob {job' : Job Path} (writes : call.job = some job) :
    (call.withJob job').job = some job' := by
  cases call with
  | adding data stage => cases stage <;> first | rfl | cases writes
  | opening sha size stage => cases stage <;> first | rfl | cases writes

/-- A call knows the same of its write at every step of it. -/
theorem Knows.withJob {job' : Job Path} (knows : s.Knows k root call) (writes : call.job = some job)
    (same : job'.path = job.path ∧ job'.data = job.data) :
    s.Knows k root (call.withJob job') := by
  cases call with
  | adding data stage =>
    cases stage with
    | storing mime width height own =>
      cases writes
      exact ⟨knows.1, same.1.trans knows.2.1, same.2.trans knows.2.2⟩
    | _ => cases writes
  | opening sha size stage =>
    cases stage with
    | storing flight own =>
      cases writes
      obtain ⟨accepted, path, data, original, resized⟩ := knows
      refine ⟨accepted, same.1.trans path, data, original, ?_⟩
      rw [same.2]
      exact resized
    | _ => cases writes

/-- What a step of a write does to the files under lasting names. -/
theorem Disk.write (disk : s.Disk k root) (target : s.Target k root job) (grows : s.Grows root s')
    (lasting : ∀ p, ¬ IsTemporary tempPath p →
      s'.files p = s.files p ∨ p = job.path ∧ s'.files p = some job.data) : s'.Disk k root := by
  refine ⟨?_, ?_⟩
  · intro sha data valid stored
    rcases lasting _ (lasting_blobPath valid) with same | ⟨own, whole⟩
    · obtain ⟨added, hash⟩ := disk.blob sha data valid (same ▸ stored)
      exact ⟨grows.added added, hash⟩
    · rw [whole] at stored
      cases stored
      cases target with
      | blob data added aims =>
        rw [aims.2]
        exact ⟨grows.added added, (blobPath_inj (own.trans aims.1)).symm⟩
      | derivative sha' size data valid' listed original aims =>
        exact absurd (own.trans aims.1) (blobPath_ne_derivativePath valid)
  · intro sha size out valid stored
    rcases lasting _ lasting_derivativePath with same | ⟨own, whole⟩
    · obtain ⟨listed, data, original, resized⟩ := disk.derivative sha size out valid (same ▸ stored)
      exact ⟨listed, data, original.mono grows, resized⟩
    · rw [whole] at stored
      cases stored
      cases target with
      | blob data added aims =>
        exact absurd (aims.1.symm.trans own.symm)
          (blobPath_ne_derivativePath (validHash_hexString _))
      | derivative sha' size' data valid' listed original aims =>
        obtain ⟨rfl, rfl⟩ := derivativePath_inj valid valid' (own.trans aims.1)
        exact ⟨listed, data, original.mono grows, aims.2⟩

theorem Inv.write {a : WriteAction} (inv : s.Inv k root) (h : s.write i a = some s') :
    s'.Inv k root := by
  obtain ⟨call, job, files, job', found, writes, stepped, rfl⟩ := write_cases h
  have under : s.calls[i]?.bind Call.job = some job := by
    rw [found]
    exact writes
  have moves := Job.moves_of_step stepped
  have staged := inv.staging.staged i job under
  have knows := inv.knows call (List.mem_of_getElem? found)
  have grows : s.Grows root { s.setCall i (call.withJob job') with files } :=
    ⟨List.Subset.refl _, fun sha valid => moves.stays staged (lasting_blobPath valid), fun _ _ => id⟩
  refine ⟨?_, ?_, ?_, ?_, inv.known, inv.results⟩
  · exact inv.disk.write (knows.target writes) grows fun p => moves.lasting staged
  · have jobs : (fun j => (s.calls.set i (call.withJob job'))[j]?.bind Call.job) =
        Function.update (fun j => s.calls[j]?.bind Call.job) i (some job') := by
      funext j
      by_cases here : j = i
      · subst here
        rw [Function.update_self,
          List.getElem?_set_self (List.getElem?_eq_some_iff.mp found).1]
        exact job_withJob writes
      · rw [Function.update_of_ne here, List.getElem?_set_ne (Ne.symm here)]
    have stays := inv.staging.step under stepped
    rw [← jobs] at stays
    exact stays
  · intro d member
    obtain ⟨j, at_⟩ := List.mem_iff_getElem?.mp member
    rcases Transition.getElem?_set_cases at_ with ⟨_, rfl⟩ | ⟨_, before⟩
    · exact (knows.withJob writes moves.target).mono grows
    · exact (inv.knows d (List.mem_of_getElem? before)).mono grows
  · intro sha id has
    obtain ⟨valid, stored⟩ := inv.rows sha id has
    exact ⟨valid, grows.blobs sha valid stored⟩

/-! ### The index -/

theorem commit_cases {db : Database} (h : s.commit k i newID = some (data, img, db)) :
    ∃ mime width height, s.calls[i]? = some (.adding data (.upserting mime width height)) ∧
      s.db.upsertImage ⟨newID, k.sha data, mime, width, height⟩ = .ok (db, img.id) := by
  unfold commit at h
  split at h
  · rename_i mime width height found
    simp only at h
    split at h
    · rename_i db' id stored
      cases h
      exact ⟨mime, width, height, found, stored⟩
    · cases h
  · cases h

/-- The row goes into the index once its blob is in place. -/
theorem Inv.commit {db : Database} (inv : s.Inv k root)
    (h : s.commit k i newID = some (data, img, db)) : ({ s with db } : Store).Inv k root := by
  obtain ⟨mime, width, height, found, stored⟩ := commit_cases h
  obtain ⟨added, placed⟩ := inv.knows _ (List.mem_of_getElem? found)
  have grows : s.Grows root { s with db } :=
    ⟨List.Subset.refl _, fun _ _ => id, fun _ _ has => has.upserted stored⟩
  refine ⟨inv.disk.mono grows rfl, inv.staging, ?_, ?_, ?_, ?_⟩
  · exact fun call member => (inv.knows call member).mono grows
  · intro sha id has
    rcases has.of_upserted stored with rfl | old
    · exact ⟨validHash_hexString _, placed⟩
    · exact inv.rows sha id old
  · exact fun sha img listed => (inv.known sha img listed).upserted stored
  · exact fun data img listed => (inv.results data img listed).upserted stored

theorem Inv.upsert {db : Database} (inv : s.Inv k root)
    (h : s.commit k i newID = some (data, img, db)) :
    ({ s.setCall i (.adding data (.publishing img)) with db } : Store).Inv k root := by
  have committed := inv.commit h
  obtain ⟨mime, width, height, found, stored⟩ := commit_cases h
  obtain ⟨added, _⟩ := inv.knows _ (List.mem_of_getElem? found)
  have knows : ({ s with db } : Store).Knows k root (.adding data (.publishing img)) :=
    ⟨added, Database.upsertImage_hasImage stored⟩
  exact committed.move knows nofun

theorem Inv.upsertLost {db : Database} (inv : s.Inv k root)
    (h : s.commit k i newID = some (data, img, db)) :
    ({ s.setCall i (.adding data .failed) with db } : Store).Inv k root := by
  have committed := inv.commit h
  obtain ⟨mime, width, height, found, _⟩ := commit_cases h
  obtain ⟨added, _⟩ := inv.knows _ (List.mem_of_getElem? found)
  have knows : ({ s with db } : Store).Knows k root (.adding data .failed) := ⟨added, trivial⟩
  exact committed.move knows nofun

theorem Inv.store {w : Write} (inv : s.Inv k root) (h : s.store w = some s') : s'.Inv k root := by
  have step : ∃ db, s.db.step w = some db ∧ (∀ img, w ≠ .upsertImage img) ∧
      s' = { s with db } := by
    unfold Store.store at h
    split at h
    · cases h
    · rename_i other
      obtain ⟨db, written, rfl⟩ := Option.map_eq_some_iff.mp h
      exact ⟨db, written, other, rfl⟩
  obtain ⟨db, written, other, rfl⟩ := step
  exact inv.of_same rfl (Database.step_images written other) (List.Subset.refl _)
    (fun _ => .inl) (fun _ _ => .inl) (fun _ _ => .inl) fun _ _ => .inl

/-! ### The calls -/

theorem openStage_knows (s : Store) (sha : String) (size : Int) :
    s.Knows k root (.opening sha size (openStage sha size)) := by
  unfold openStage
  split
  · trivial
  · rename_i valid
    split
    · trivial
    · rename_i supported
      split
      · trivial
      · rename_i resized
        refine ⟨by simpa using valid, ?_⟩
        simpa [resized, supportedSize] using supported

theorem openStage_writes (sha : String) (size : Int) :
    (Call.opening sha size (openStage sha size)).job = none := by
  unfold openStage
  split
  · rfl
  · split
    · rfl
    · split <;> rfl

theorem Inv.readKnown (inv : s.Inv k root) (h : s.readKnown k i = some s') : s'.Inv k root := by
  unfold Store.readKnown at h
  split at h
  · rename_i data found
    obtain ⟨added, _⟩ := inv.knows _ (List.mem_of_getElem? found)
    split at h
    · rename_i sha img hit
      cases h
      have own : sha = k.sha data := key_of_lookup hit
      subst own
      exact inv.returns added (inv.known _ _ (mem_of_lookup hit))
    · cases h
      exact inv.move ⟨added, trivial⟩ nofun
  · cases h

theorem Inv.probe (inv : s.Inv k root) (h : s.probe k root i = some s') : s'.Inv k root := by
  unfold Store.probe at h
  split at h
  · rename_i data found
    obtain ⟨added, _⟩ := inv.knows _ (List.mem_of_getElem? found)
    split at h
    · cases h
      exact inv.move ⟨added, trivial⟩ nofun
    · cases h
      refine inv.move ⟨added, rfl, rfl⟩ ?_
      intro job writes
      cases writes
      rfl
  · cases h

theorem Inv.written (inv : s.Inv k root) (h : s.written i = some s') : s'.Inv k root := by
  unfold Store.written at h
  split at h
  · rename_i data mime width height job found
    obtain ⟨added, path, _⟩ := inv.knows _ (List.mem_of_getElem? found)
    split at h
    · rename_i returned
      cases h
      have under : s.calls[i]?.bind Call.job = some job := by
        rw [found]
        rfl
      have placed := (inv.staging.staged i job under).done returned
      rw [path] at placed
      exact inv.move ⟨added, placed⟩ nofun
    · cases h
      exact inv.move ⟨added, trivial⟩ nofun
    · cases h
  · rename_i sha size flight job found
    split at h
    · cases h
      exact (inv.land flight true).move trivial nofun
    · cases h
      exact (inv.land flight false).move trivial nofun
    · cases h
  · cases h

theorem Inv.publish (inv : s.Inv k root) (h : s.publish k i = some s') : s'.Inv k root := by
  unfold Store.publish at h
  split at h
  · rename_i data img found
    obtain ⟨added, has⟩ := inv.knows _ (List.mem_of_getElem? found)
    split at h
    · rename_i sha existing hit
      cases h
      have own : sha = k.sha data := key_of_lookup hit
      subst own
      exact inv.returns added (inv.known _ _ (mem_of_lookup hit))
    · cases h
      have returned : (s.returns i data img).Inv k root := inv.returns added has
      refine returned.of_same rfl rfl (List.Subset.refl _) (fun _ => .inl) (fun _ _ => .inl) ?_
        fun _ _ => .inl
      intro sha other listed
      refine (List.mem_append.mp listed).imp_right fun new => ?_
      cases List.mem_singleton.mp new
      exact has
  · cases h

theorem Inv.openOriginal (inv : s.Inv k root) (h : s.openOriginal root i = some s') :
    s'.Inv k root := by
  unfold Store.openOriginal at h
  split at h
  · rename_i sha size found
    split at h
    · cases h
      exact inv.move trivial nofun
    · cases h
      exact inv.move trivial nofun
  · cases h

theorem Inv.probeOriginal (inv : s.Inv k root) (h : s.probeOriginal k i = some s') :
    s'.Inv k root := by
  unfold Store.probeOriginal at h
  split at h
  · rename_i sha size data found
    split at h
    · cases h
      exact inv.move trivial nofun
    · cases h
      exact inv.move trivial nofun
  · cases h

theorem Inv.openCached (inv : s.Inv k root) (h : s.openCached root i = some s') :
    s'.Inv k root := by
  unfold Store.openCached at h
  split at h
  · rename_i sha size found
    have accepted := inv.knows _ (List.mem_of_getElem? found)
    split at h
    · cases h
      exact inv.move trivial nofun
    · cases h
      exact inv.move accepted nofun
  · cases h

theorem Inv.enterFlight (inv : s.Inv k root) (h : s.enterFlight i = some s') : s'.Inv k root := by
  unfold Store.enterFlight at h
  split at h
  · rename_i sha size found
    have accepted := inv.knows _ (List.mem_of_getElem? found)
    split at h
    · cases h
      exact inv.move trivial nofun
    · cases h
      have moved : (s.setCall i (.opening sha size (.reading s.flights.length))).Inv k root :=
        inv.move accepted nofun
      exact moved.flights
  · cases h

/-- The blob that is read is the original. -/
theorem Inv.readOriginal (inv : s.Inv k root) (h : s.readOriginal root i = some s') :
    s'.Inv k root := by
  unfold Store.readOriginal at h
  split at h
  · rename_i sha size flight found
    have accepted := inv.knows _ (List.mem_of_getElem? found)
    split at h
    · rename_i data stored
      cases h
      obtain ⟨added, hash⟩ := inv.disk.blob sha data accepted.1 stored
      have original : s.Original k root sha data := by
        refine ⟨added, hash, ?_⟩
        unfold HasBlob
        rw [stored]
        rfl
      exact inv.move ⟨accepted, original⟩ nofun
    · cases h
      exact (inv.land flight false).move trivial nofun
  · cases h

theorem Inv.resize (inv : s.Inv k root) (h : s.resize k root i = some s') : s'.Inv k root := by
  unfold Store.resize at h
  split at h
  · rename_i sha size flight data found
    obtain ⟨accepted, original⟩ := inv.knows _ (List.mem_of_getElem? found)
    split at h
    · rename_i out resized
      cases h
      refine inv.move ⟨accepted, rfl, data, original, resized⟩ ?_
      intro job writes
      cases writes
      rfl
    · cases h
      exact (inv.land flight false).move trivial nofun
  · cases h

theorem Inv.wake (inv : s.Inv k root) (h : s.wake i = some s') : s'.Inv k root := by
  unfold Store.wake at h
  split at h
  · rename_i sha size flight found
    split at h
    · cases h
      exact inv.move trivial nofun
    · cases h
      exact inv.move trivial nofun
    · cases h
  · cases h

theorem Inv.reopen (inv : s.Inv k root) (h : s.reopen root i = some s') : s'.Inv k root := by
  unfold Store.reopen at h
  split at h
  · rename_i sha size found
    split at h
    · cases h
      exact inv.move trivial nofun
    · cases h
      exact inv.move trivial nofun
  · cases h

theorem Inv.fail (inv : s.Inv k root) (h : s.fail i = some s') : s'.Inv k root := by
  unfold Store.fail at h
  split at h
  · rename_i data mime width height found
    obtain ⟨added, _⟩ := inv.knows _ (List.mem_of_getElem? found)
    cases h
    exact inv.move ⟨added, trivial⟩ nofun
  · rename_i sha size flight found
    cases h
    exact (inv.land flight false).move trivial nofun
  · rename_i found
    cases h
    exact inv.move trivial nofun
  · rename_i found
    cases h
    exact inv.move trivial nofun
  · rename_i found
    cases h
    exact inv.move trivial nofun
  · rename_i found
    cases h
    exact inv.move trivial nofun
  · cases h

theorem step_inv {a : StoreAction} (inv : s.Inv k root) (h : s.step k root a = some s') :
    s'.Inv k root := by
  cases a with
  | add data =>
    cases h
    refine inv.begin (List.subset_append_left _ _) rfl ⟨?_, trivial⟩
    exact List.mem_append_right _ (List.mem_singleton_self data)
  | openImage sha size =>
    cases h
    exact inv.begin (List.Subset.refl _) (openStage_writes sha size) (openStage_knows _ sha size)
  | readKnown i => exact inv.readKnown h
  | probe i => exact inv.probe h
  | write i a => exact inv.write h
  | written i => exact inv.written h
  | upsert i newID =>
    obtain ⟨⟨data, img, db⟩, committed, rfl⟩ := Option.map_eq_some_iff.mp h
    exact inv.upsert committed
  | upsertLost i newID =>
    obtain ⟨⟨data, img, db⟩, committed, rfl⟩ := Option.map_eq_some_iff.mp h
    exact inv.upsertLost committed
  | publish i => exact inv.publish h
  | openOriginal i => exact inv.openOriginal h
  | probeOriginal i => exact inv.probeOriginal h
  | openCached i => exact inv.openCached h
  | enterFlight i => exact inv.enterFlight h
  | readOriginal i => exact inv.readOriginal h
  | resize i => exact inv.resize h
  | wake i => exact inv.wake h
  | reopen i => exact inv.reopen h
  | fail i => exact inv.fail h
  | restart =>
    cases h
    exact inv.restart
  | store w => exact inv.store h

/-- In every state that any calls and restarts lead to, if no two of the byte strings that were
added collide: a blob is absent or exactly what was added, a derivative is absent or made from
its blob, every row of the index has its blob, and `Add` has returned one ID for equal bytes,
which is the ID in the index. -/
theorem contents_safe (k : Codec) (root : Path) {db : Database} (empty : db.library.images = [])
    {as : List StoreAction} {s : Store} (ran : run (step k root) (start db) as = some s)
    (apart : ∀ a ∈ s.added, ∀ b ∈ s.added, k.sha a = k.sha b → a = b) :
    (∀ data ∈ s.added, s.files (blobPath root (k.sha data)) = none ∨
      s.files (blobPath root (k.sha data)) = some data) ∧
    (∀ sha data, validHash sha = true → s.files (blobPath root sha) = some data →
      k.sha data = sha) ∧
    (∀ sha size out, validHash sha = true → s.files (derivativePath root sha size) = some out →
      size ∈ supportedSizes ∧ ∃ original, s.files (blobPath root sha) = some original ∧
        k.resizeJPEG original size = .ok out) ∧
    (∀ row ∈ s.db.library.images, ∃ data, s.files (blobPath root row.contentHash) = some data ∧
      k.sha data = row.contentHash) ∧
    ∀ data img, (data, img) ∈ s.results →
      (∀ img', (data, img') ∈ s.results → img.id = img'.id) ∧
      (∃ row ∈ s.db.library.images, row.contentHash = k.sha data) ∧
      ∀ row ∈ s.db.library.images, row.contentHash = k.sha data → row.id = img.id := by
  have inv : s.Inv k root :=
    invariant_of_run (I := Inv k root) (fun _ _ _ inv h => step_inv inv h) (start_inv k root empty)
      ran
  have stored : ∀ sha, s.HasBlob root sha → ∃ data, s.files (blobPath root sha) = some data :=
    fun sha => Option.isSome_iff_exists.mp
  refine ⟨?_, ?_, ?_, ?_, ?_⟩
  · intro data added
    cases content : s.files (blobPath root (k.sha data)) with
    | none => exact .inl rfl
    | some other =>
      obtain ⟨added', hash⟩ := inv.disk.blob _ other (validHash_hexString _) content
      rw [apart other added' data added hash]
      exact .inr rfl
  · intro sha data valid content
    exact (inv.disk.blob sha data valid content).2
  · intro sha size out valid content
    obtain ⟨listed, data, original, resized⟩ := inv.disk.derivative sha size out valid content
    obtain ⟨other, placed⟩ := stored sha original.stored
    obtain ⟨added', hash⟩ := inv.disk.blob sha other valid placed
    have same : other = data := apart other added' data original.added (hash.trans original.hash.symm)
    rw [same] at placed
    exact ⟨listed, data, placed, resized⟩
  · intro row hrow
    obtain ⟨valid, has⟩ := inv.rows _ _ ⟨row, hrow, rfl, rfl⟩
    obtain ⟨data, content⟩ := stored _ has
    exact ⟨data, content, (inv.disk.blob _ data valid content).2⟩
  · intro data img returned
    have has := inv.results data img returned
    refine ⟨?_, ?_, ?_⟩
    · intro img' returned'
      exact has.unique (inv.results data img' returned')
    · obtain ⟨row, hrow, hash, _⟩ := has
      exact ⟨row, hrow, hash⟩
    · intro row hrow hash
      have listed : s.db.HasImage (k.sha data) row.id := ⟨row, hrow, hash, rfl⟩
      exact listed.unique has

/-- A GIF of one pixel that ends after its header, which `DecodeConfig` accepts and
`Decode` does not. -/
def headerOnly : Bytes := [71, 73, 70, 56, 57, 97, 1, 0, 1, 0, 0, 0, 0]

def headerCodec : Codec where
  sum256 _ := 0xe166f869cdc0a87f67fc5841ad08082c87d0ffa3c1d677956415ea3110e1fd3f
  decodeConfig _ := .ok ("gif", 1, 1)
  resizeJPEG _ _ := .error "images: decode: gif: reading frames: unexpected EOF"

/-- Two calls race to add a GIF, and the process stops before the first one has returned. The next
one adds it again and fails to resize it. -/
def racing : List StoreAction :=
  [.add headerOnly, .add headerOnly, .readKnown 0, .readKnown 1, .probe 0, .probe 1,
    .write 0 .mkdir, .write 1 .mkdir, .write 0 .stat, .write 1 .stat,
    .write 0 (.create "1"), .write 1 (.create "2"), .write 0 (.write 13), .write 0 .close,
    .write 1 (.write 5), .write 0 .rename, .written 0, .upsert 0 60,
    .write 1 (.write 13), .write 1 .close, .write 1 .rename, .written 1, .upsert 1 61, .publish 1,
    .restart, .add headerOnly, .readKnown 0, .probe 0, .write 0 .mkdir, .write 0 .stat, .written 0,
    .upsert 0 62, .publish 0, .openImage (headerCodec.sha headerOnly) 160, .openCached 1,
    .enterFlight 1, .readOriginal 1, .resize 1]

theorem racing_safe : ∃ s, run (step headerCodec ["var"]) (start .empty) racing = some s ∧
    s.results.map (fun r => (r.1, r.2.id)) = [(headerOnly, 60), (headerOnly, 60)] ∧
    s.files (blobPath ["var"] (headerCodec.sha headerOnly)) = some headerOnly ∧
    ∀ row ∈ s.db.library.images, ∃ data, s.files (blobPath ["var"] row.contentHash) = some data ∧
      headerCodec.sha data = row.contentHash := by
  have reaches : (run (step headerCodec ["var"]) (start .empty) racing).map (fun s =>
      (s.results.map (fun r => (r.1, r.2.id)), s.added,
        s.files (blobPath ["var"] (headerCodec.sha headerOnly)))) =
      some ([(headerOnly, 60), (headerOnly, 60)], [headerOnly, headerOnly, headerOnly],
        some headerOnly) := by rfl
  obtain ⟨s, ran, kept⟩ := Option.map_eq_some_iff.mp reaches
  obtain ⟨results, kept⟩ := Prod.mk.inj kept
  obtain ⟨added, placed⟩ := Prod.mk.inj kept
  have apart : ∀ a ∈ s.added, ∀ b ∈ s.added, headerCodec.sha a = headerCodec.sha b → a = b := by
    have only : ∀ a ∈ s.added, a = headerOnly := by
      rw [added]
      simp
    intro a ha b hb _
    exact (only a ha).trans (only b hb).symm
  exact ⟨s, ran, results, placed, (contents_safe headerCodec ["var"] rfl ran apart).2.2.2.1⟩

end Byom.Images.Store
