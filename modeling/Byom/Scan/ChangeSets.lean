import Byom.Scan.Reconcile

/-!
# A change set turns the known files into the walked ones

The rows of a dir before and after its change set: the listed files marked missing, then
the changed ones upserted. A file that is not known is compared with the zero `File`, so
one that has the size and the mod time of it is left out.
-/

namespace Byom.Sqlite.ScanTables

open Storage Relational

/-- What `SyncDir` does to the file rows, once it has the ID of the dir. -/
def applyChangeset (newFileID : Path → UUID) (dirID : UUID) (changed : List File)
    (missing : List UUID) (t : ScanTables) : Except SqlError ScanTables :=
  upsertFiles newFileID dirID changed (markMissingFiles missing t)

/-- The row of a file. -/
def fileRow (dirID : UUID) (f : File) : FileRow :=
  ⟨f.id, dirID, f.name, f.kind, f.info, f.missing⟩

/-- The row of a name, unless it is missing. -/
def liveAt (dirID : UUID) (name : Path) (t : ScanTables) : Option FileRow :=
  (lookup FileRow.key (dirID, name) t.files).filter fun f => f.missing = false

/-- The rows of a dir that are not missing. -/
def liveFiles (dirID : UUID) (t : ScanTables) : List FileRow :=
  (t.rowsOf dirID).filter fun f => f.missing = false

section

variable {t t' : ScanTables} {d newDirID : UUID} {newFileID : Path → UUID} {name : Path}

/-- `SyncDir` applies the change set once it has upserted the dir. -/
theorem syncDir_eq (newDirID : UUID) (newFileID : Path → UUID) (p : Scan.SyncPayload)
    (t : ScanTables) :
    syncDir newDirID newFileID p t = (do
      let (t, dirID) ← upsertDir newDirID p t
      let t ← applyChangeset newFileID dirID p.changed p.missing t
      return (t, dirID)) := rfl

theorem mem_liveFiles (keys : UniqueOn FileRow.key t.files) {r : FileRow} :
    r ∈ t.liveFiles d ↔ t.liveAt d r.name = some r := by
  rw [liveFiles, liveAt, rowsOf, List.mem_filter, List.mem_filter, Option.filter_eq_some_iff,
    keys.lookup_eq_some_iff]
  simp [FileRow.key]

theorem upsertFile_ok {f : File}
    (new : lookup FileRow.key (d, f.name) t.files = none →
      ∀ r ∈ t.files, r.id ≠ (newFile newFileID d f).id) :
    upsertFile newFileID d f t =
      .ok { t with files := upsertOn FileRow.key (refreshFile f) (newFile newFileID d f) t.files } := by
  unfold upsertFile
  simp only
  apply if_neg
  rintro ⟨absent, used⟩
  obtain ⟨r, hr, same⟩ := List.any_eq_true.mp used
  exact new (Option.isNone_iff_eq_none.mp absent) r hr (by simpa using same)

/-- An upsert goes through if the files without a row have no ID yet, and the IDs that
they get are new. -/
theorem upsertFiles_ok {fs : List File} (unique : UniqueOn File.name fs)
    (unnamed : ∀ f ∈ fs, lookup FileRow.key (d, f.name) t.files = none → f.id = .nil)
    (fresh : ∀ f ∈ fs, ∀ r ∈ t.files, r.id ≠ newFileID f.name)
    (apart : ∀ f ∈ fs, ∀ g ∈ fs, newFileID f.name = newFileID g.name → f.name = g.name) :
    ∃ t', upsertFiles newFileID d fs t = .ok t' := by
  induction fs generalizing t with
  | nil => exact ⟨t, rfl⟩
  | cons f fs ih =>
    obtain ⟨new, distinct⟩ := List.nodup_cons.mp unique
    obtain ⟨unnamedF, unnamed⟩ := List.forall_mem_cons.mp unnamed
    obtain ⟨freshF, fresh⟩ := List.forall_mem_cons.mp fresh
    have minted : lookup FileRow.key (d, f.name) t.files = none →
        (newFile newFileID d f).id = newFileID f.name := by
      intro absent
      rw [newFile, if_pos (unnamedF absent)]
    have other : ∀ g ∈ fs, g.name ≠ f.name := by
      intro g hg same
      exact new (same ▸ List.mem_map_of_mem hg)
    have first := upsertFile_ok (f := f) fun absent => minted absent ▸ freshF
    have rest : ∃ t', upsertFiles newFileID d fs { t with
        files := upsertOn FileRow.key (refreshFile f) (newFile newFileID d f) t.files } =
          .ok t' := by
      apply ih distinct
      · intro g hg absent
        apply unnamed g hg
        rw [← absent]
        apply (lookup_upsertOn_ne (refreshFile_key f) _).symm
        rw [newFile_key]
        intro clash
        exact other g hg (Prod.mk.inj clash).2
      · intro g hg r hr same
        rcases mem_upsertOn hr with ⟨rfl, absent⟩ | ⟨old, _⟩ | ⟨old, hold, _, rfl⟩
        · rw [newFile_key] at absent
          rw [minted absent] at same
          exact other g hg (apart f List.mem_cons_self g (List.mem_cons_of_mem f hg) same).symm
        · exact fresh g hg r old same
        · exact fresh g hg old hold same
      · intro g hg g' hg'
        exact apart g (List.mem_cons_of_mem f hg) g' (List.mem_cons_of_mem f hg')
    obtain ⟨t', done⟩ := rest
    refine ⟨t', ?_⟩
    unfold upsertFiles
    rw [first]
    exact done

theorem upsertFiles_keys {fs : List File} (keys : UniqueOn FileRow.key t.files)
    (h : upsertFiles newFileID d fs t = .ok t') : UniqueOn FileRow.key t'.files := by
  induction fs generalizing t with
  | nil =>
    cases h
    exact keys
  | cons f fs ih =>
    obtain ⟨u, first, rest⟩ := upsertFiles_cons h
    obtain ⟨rfl, _⟩ := upsertFile_spec first
    exact ih (keys.upsertOn (refreshFile_key f)) rest

end

end Byom.Sqlite.ScanTables

namespace Byom.Scan

open Storage Relational Sqlite ScanTables

/-- The files known for a dir, in the order that the map has them, and their rows. -/
structure KnownRows (known : List File) (d : UUID) (t : ScanTables) : Prop where
  names : UniqueOn File.name known
  ids : UniqueOn File.id known
  there : ∀ k ∈ known, k.id ≠ .nil
  rows : (t.rowsOf d).Perm (known.map (fileRow d))
  keys : UniqueOn FileRow.key t.files

/-- The IDs that `uuid.NewV7` returns for walked files are new. -/
structure Minted (newFileID : Path → UUID) (res : WalkResult) (t : ScanTables) : Prop where
  fresh : ∀ f ∈ res.files, ∀ r ∈ t.files, r.id ≠ newFileID f.name
  apart : ∀ f ∈ res.files, ∀ g ∈ res.files,
    newFileID f.name = newFileID g.name → f.name = g.name

/-- The live rows are the walked files with a successful stat. -/
structure ShowsWalk (known : List File) (res : WalkResult) (live : List FileRow) : Prop where
  names : UniqueOn FileRow.name live
  walked : ∀ r ∈ live, ∃ f ∈ res.files, f.name = r.name ∧ f.info = some r.info
  complete : ∀ f ∈ res.files, f.info.isSome → ∃ r ∈ live, r.name = f.name
  ids : ∀ r ∈ live, ∀ k ∈ known, k.name = r.name → r.id = k.id

/-- The change set goes through and leaves the walked files, and lists no known ID twice. -/
structure ReachesWalk (newFileID : Path → UUID) (d : UUID) (known : List File) (res : WalkResult)
    (t : ScanTables) : Prop where
  applied : ∃ t', applyChangeset newFileID d (computeChangeset known res).1
    (computeChangeset known res).2.1 t = .ok t' ∧ ShowsWalk known res (t'.liveFiles d)
  once : ∀ k ∈ known, ((computeChangeset known res).1.map File.id ++
    (computeChangeset known res).2.1).count k.id ≤ 1

section

variable {known : List File} {res : WalkResult} {t t' : ScanTables} {d : UUID}
  {newFileID : Path → UUID} {name : Path} {info : FileInfo}

/-! ### The IDs of a change set -/

/-- The IDs of the known files, with one taken out. -/
theorem count_deleted {old : File} (found : lookup File.name name known = some old) (id : UUID) :
    (old.id :: (deleteWhere (fun k => k.name = name) known).map File.id).count id ≤
      (known.map File.id).count id := by
  induction known with
  | nil => cases found
  | cons k ks ih =>
    rw [List.map_cons]
    by_cases named : k.name = name
    · have here : k = old := by simpa [lookup, named] using found
      have fewer : ((deleteWhere (fun k => k.name = name) ks).map File.id).count id ≤
          (ks.map File.id).count id :=
        (List.Sublist.map File.id List.filter_sublist).count_le id
      have gone : deleteWhere (fun k => k.name = name) (k :: ks) =
          deleteWhere (fun k => k.name = name) ks := by
        simp [deleteWhere, named]
      rw [gone, here, List.count_cons, List.count_cons]
      omega
    · have later : lookup File.name name ks = some old := by simpa [lookup, named] using found
      have kept : deleteWhere (fun k => k.name = name) (k :: ks) =
          k :: deleteWhere (fun k => k.name = name) ks := by
        simp [deleteWhere, named]
      have tail := ih later
      simp only [kept, List.map_cons, List.count_cons] at tail ⊢
      omega

/-- Each known ID comes out of the loop at most as often as it went in. -/
theorem count_compareWalked (files : List WalkEntry) (known : List File) {id : UUID}
    (there : id ≠ .nil) :
    ((compareWalked files known).1.map File.id).count id +
        (compareWalked files known).2.1.count id +
        ((compareWalked files known).2.2.map File.id).count id ≤ (known.map File.id).count id := by
  induction files generalizing known with
  | nil => simp [compareWalked]
  | cons f fs ih =>
    have tail := ih (deleteWhere (fun k => k.name = f.name) known)
    have taken : ((previous known f.name).id ::
        (deleteWhere (fun k => k.name = f.name) known).map File.id).count id ≤
          (known.map File.id).count id := by
      cases found : lookup File.name f.name known with
      | some old =>
        rw [previous, found]
        exact count_deleted found id
      | none =>
        rw [previous, found, List.count_cons_of_ne (by exact there.symm)]
        exact (List.Sublist.map File.id List.filter_sublist).count_le id
    rw [List.count_cons] at taken
    unfold compareWalked
    generalize compareWalked fs (deleteWhere (fun k => k.name = f.name) known) = rest at tail ⊢
    obtain ⟨changed, missing, leftover⟩ := rest
    simp only at tail
    cases f.info with
    | none =>
      by_cases ok : (lookup File.name f.name known).isSome = true
      · simp only [ok, if_true, List.count_cons]
        omega
      · simp only [if_neg ok]
        omega
    | some info =>
      by_cases same : unchanged (previous known f.name) info = true
      · simp only [same, if_true]
        omega
      · simp only [if_neg same, List.map_cons, List.count_cons]
        omega

theorem known_once (rows : KnownRows known d t) : ∀ k ∈ known,
    ((computeChangeset known res).1.map File.id ++
      (computeChangeset known res).2.1).count k.id ≤ 1 := by
  intro k hk
  have counts := count_compareWalked res.files known (rows.there k hk)
  have single : (known.map File.id).count k.id ≤ 1 := List.nodup_iff_count_le_one.mp rows.ids k.id
  have lists : (computeChangeset known res).1 = (compareWalked res.files known).1 ∧
      (computeChangeset known res).2.1 = (compareWalked res.files known).2.1 ++
        (compareWalked res.files known).2.2.map File.id := ⟨rfl, rfl⟩
  rw [lists.1, lists.2, List.count_append, List.count_append]
  omega

/-! ### The rows after a change set -/

theorem KnownRows.row (rows : KnownRows known d t) (name : Path) :
    lookup FileRow.key (d, name) t.files = (lookup File.name name known).map (fileRow d) := by
  rw [lookup_rowsOf, (rowsOf_names rows.keys d).lookup_perm rows.rows]
  unfold Relational.lookup
  rw [List.find?_map]
  rfl

theorem KnownRows.found (rows : KnownRows known d t) {k : File} (hk : k ∈ known)
    (named : k.name = name) : lookup File.name name known = some k := by
  rw [← named]
  exact rows.names.lookup_of_mem hk

theorem KnownRows.unchanged_of_known (rows : KnownRows known d t)
    (isKnown : ∃ k ∈ known, k.name = name ∧ k.missing = false ∧ k.info = info) :
    unchanged (previous known name) info = true := by
  obtain ⟨k, hk, named, live, same⟩ := isKnown
  rw [unchanged_iff, previous, rows.found hk named]
  exact ⟨live, same⟩

/-- A file is compared with the known one, and with the zero file if there is none. -/
theorem unchanged_cases (same : unchanged (previous known name) info = true) :
    (∃ k, lookup File.name name known = some k ∧ k.missing = false ∧ k.info = info) ∨
      lookup File.name name known = none ∧ info = File.zero.info := by
  rw [unchanged_iff, previous] at same
  cases found : lookup File.name name known with
  | none =>
    rw [found] at same
    exact .inr ⟨rfl, same.2.symm⟩
  | some k =>
    rw [found] at same
    exact .inl ⟨k, rfl, same⟩

theorem applyChangeset_ok (rows : KnownRows known d t) (walked : UniqueOn WalkEntry.name res.files)
    (minted : Minted newFileID res t) :
    ∃ t', applyChangeset newFileID d (computeChangeset known res).1
      (computeChangeset known res).2.1 t = .ok t' := by
  have listed : ∀ c ∈ (computeChangeset known res).1, ∃ f ∈ res.files,
      f.name = c.name ∧ c.id = (previous known c.name).id := by
    intro c hc
    obtain ⟨f, hf, _, _, _, rfl⟩ := (mem_changed_iff walked).mp hc
    exact ⟨f, hf, rfl, rfl⟩
  apply upsertFiles_ok
  · exact (compareWalked_names res.files known).nodup walked
  · intro c hc absent
    obtain ⟨_, _, _, source⟩ := listed c hc
    rw [lookup_markMissingFiles, rows.row, Option.map_eq_none_iff, Option.map_eq_none_iff]
      at absent
    rw [source, previous, absent]
    rfl
  · intro c hc r hr
    obtain ⟨f, hf, same, _⟩ := listed c hc
    obtain ⟨old, hold, rfl⟩ := mem_updateWhere.mp hr
    rw [← same]
    split <;> exact minted.fresh f hf old hold
  · intro c hc c' hc' same
    obtain ⟨f, hf, named, _⟩ := listed c hc
    obtain ⟨f', hf', named', _⟩ := listed c' hc'
    rw [← named, ← named'] at same ⊢
    exact minted.apart f hf f' hf' same

section Applied

variable (rows : KnownRows known d t) (walked : UniqueOn WalkEntry.name res.files)
  (done : applyChangeset newFileID d (computeChangeset known res).1
    (computeChangeset known res).2.1 t = .ok t')

include rows walked done

theorem applied_row (name : Path) :
    let marked := (lookup File.name name known).map fun k =>
      if k.id ∈ (computeChangeset known res).2.1 ∧ k.missing = false then
        { fileRow d k with missing := true } else fileRow d k
    lookup FileRow.key (d, name) t'.files =
      match lookup File.name name (computeChangeset known res).1 with
      | none => marked
      | some c => some ((marked.map (refreshFile c)).getD (newFile newFileID d c)) := by
  have names : UniqueOn File.name (computeChangeset known res).1 :=
    (compareWalked_names res.files known).nodup walked
  intro marked
  rw [lookup_upsertFiles names done, lookup_markMissingFiles, rows.row, Option.map_map]
  rfl

/-- Without a stat, the row of a name is missing. -/
theorem live_of_unseen (unseen : res.stat name = none) : t'.liveAt d name = none := by
  have kept : lookup File.name name (computeChangeset known res).1 = none := by
    apply Option.eq_none_iff_forall_ne_some.mpr
    intro c changed
    obtain ⟨statd, _⟩ := info_of_lookup_computed walked changed
    rw [unseen] at statd
    cases statd
  have row := applied_row rows walked done name
  simp only [kept] at row
  rw [liveAt, row]
  cases found : lookup File.name name known with
  | none => rfl
  | some k =>
    have listed : k.id ∈ (computeChangeset known res).2.1 := by
      apply (mem_missing_iff walked rows.names k.id).mpr
      refine ⟨k, mem_of_lookup found, rfl, ?_⟩
      intro f hf named
      rw [← stat_of_mem walked hf, named, key_of_lookup found]
      exact unseen
    cases gone : k.missing with
    | true => simp [fileRow, gone]
    | false => simp [listed, gone]

/-- A file that looks unchanged keeps the row that it has, if it has one. -/
theorem live_of_unchanged (statd : res.stat name = some info)
    (same : unchanged (previous known name) info = true) :
    t'.liveAt d name = (lookup File.name name known).map (fileRow d) := by
  have kept : lookup File.name name (computeChangeset known res).1 = none := by
    apply Option.eq_none_iff_forall_ne_some.mpr
    intro c changed
    obtain ⟨again, differs⟩ := info_of_lookup_computed walked changed
    rw [statd] at again
    obtain rfl := Option.some.inj again
    rw [same] at differs
    cases differs
  have row := applied_row rows walked done name
  simp only [kept] at row
  rw [liveAt, row]
  rcases unchanged_cases same with ⟨k, found, live, _⟩ | ⟨absent, _⟩
  · have spared : k.id ∉ (computeChangeset known res).2.1 := by
      intro listed
      obtain ⟨k', hk', sameID, clear⟩ := (mem_missing_iff walked rows.names k.id).mp listed
      obtain rfl := rows.ids.eq_of_key hk' (mem_of_lookup found) sameID
      obtain ⟨f, hf, named, some_⟩ := (stat_eq_some_iff walked).mp statd
      rw [clear f hf (named.trans (key_of_lookup found).symm)] at some_
      cases some_
    rw [found]
    simp [spared, fileRow, live]
  · rw [absent]
    rfl

/-- A changed file gets the row that its stat says. -/
theorem live_of_changed (statd : res.stat name = some info)
    (differs : unchanged (previous known name) info = false) :
    ∃ r, t'.liveAt d name = some r ∧ r.name = name ∧ r.info = info.stored ∧
      ∀ k ∈ known, k.name = name → r.id = k.id := by
  obtain ⟨f, hf, rfl, some_⟩ := (stat_eq_some_iff walked).mp statd
  have listed := (mem_changed_iff walked).mpr ⟨f, hf, info, some_, differs, rfl⟩
  have names : UniqueOn File.name (computeChangeset known res).1 :=
    (compareWalked_names res.files known).nodup walked
  have changed := names.lookup_of_mem listed
  have row := applied_row rows walked done f.name
  simp only [changed] at row
  rw [liveAt, row]
  cases found : lookup File.name f.name known with
  | none =>
    refine ⟨_, rfl, rfl, rfl, ?_⟩
    intro k hk named
    exact absurd named (lookup_eq_none_iff.mp found k hk)
  | some old =>
    have named : old.name = f.name := key_of_lookup found
    refine ⟨_, rfl, ?_, rfl, ?_⟩
    · simp only [Option.map_some, Option.getD_some, refreshFile]
      split <;> exact named
    · intro k hk named
      rw [rows.found hk named] at found
      obtain rfl := Option.some.inj found
      simp only [Option.map_some, Option.getD_some, refreshFile]
      split <;> rfl

end Applied

theorem applyChangeset_keys {changed : List File} {missing : List UUID}
    (keys : UniqueOn FileRow.key t.files)
    (done : applyChangeset newFileID d changed missing t = .ok t') :
    UniqueOn FileRow.key t'.files := by
  have keeps : ∀ f : FileRow, ({ f with missing := true } : FileRow).key = f.key := fun _ => rfl
  have marked : UniqueOn FileRow.key (markMissingFiles missing t).files := keys.updateWhere keeps
  exact upsertFiles_keys marked done

/-- A live row is that of a known file, or has what the stat of a walked one says. -/
theorem live_cases (rows : KnownRows known d t) (walked : UniqueOn WalkEntry.name res.files)
    (done : applyChangeset newFileID d (computeChangeset known res).1
      (computeChangeset known res).2.1 t = .ok t') {r : FileRow} (hr : r ∈ t'.liveFiles d) :
    ∃ f ∈ res.files, ∃ info, f.name = r.name ∧ f.info = some info ∧
      ((∃ k ∈ known, k.missing = false ∧ k.info = info ∧ r = fileRow d k) ∨
        unchanged (previous known r.name) info = false ∧ r.info = info.stored ∧
          ∀ k ∈ known, k.name = r.name → r.id = k.id) := by
  have live := (mem_liveFiles (applyChangeset_keys rows.keys done)).mp hr
  cases statd : res.stat r.name with
  | none =>
    rw [live_of_unseen rows walked done statd] at live
    cases live
  | some info =>
    obtain ⟨f, hf, named, some_⟩ := (stat_eq_some_iff walked).mp statd
    refine ⟨f, hf, info, named, some_, ?_⟩
    cases same : unchanged (previous known r.name) info with
    | true =>
      left
      rw [live_of_unchanged rows walked done statd same] at live
      rcases unchanged_cases same with ⟨k, found, there, equal⟩ | ⟨absent, _⟩
      · rw [found] at live
        exact ⟨k, mem_of_lookup found, there, equal, (Option.some.inj live).symm⟩
      · rw [absent] at live
        cases live
    | false =>
      right
      obtain ⟨r', row, _, stored, ids⟩ := live_of_changed rows walked done statd same
      obtain rfl := Option.some.inj (live.symm.trans row)
      exact ⟨rfl, stored, ids⟩

/-- The live rows are as walked when every stat is known or can be stored. -/
theorem showsWalk_of_fits (rows : KnownRows known d t)
    (walked : UniqueOn WalkEntry.name res.files)
    (done : applyChangeset newFileID d (computeChangeset known res).1
      (computeChangeset known res).2.1 t = .ok t')
    (fits : ∀ f ∈ res.files, ∀ info, f.info = some info →
      (∃ k ∈ known, k.name = f.name ∧ k.missing = false ∧ k.info = info) ∨ info.stored = info) :
    ShowsWalk known res (t'.liveFiles d) := by
  have keys := applyChangeset_keys rows.keys done
  refine ⟨(rowsOf_names keys d).filter _, ?_, ?_, ?_⟩
  · intro r hr
    obtain ⟨f, hf, info, named, some_, ⟨k, _, _, rfl, rfl⟩ | ⟨differs, stored, _⟩⟩ :=
      live_cases rows walked done hr
    · exact ⟨f, hf, named, some_⟩
    · refine ⟨f, hf, named, some_.trans (congrArg some ?_)⟩
      rcases fits f hf info some_ with isKnown | column
      · rw [← named, rows.unchanged_of_known isKnown] at differs
        cases differs
      · exact column.symm.trans stored.symm
  · intro f hf some_
    obtain ⟨info, some_⟩ := Option.isSome_iff_exists.mp some_
    have statd : res.stat f.name = some info := (stat_of_mem walked hf).trans some_
    have atName : ∀ r, t'.liveAt d f.name = some r → r.name = f.name →
        ∃ r ∈ t'.liveFiles d, r.name = f.name := by
      intro r live named
      exact ⟨r, (mem_liveFiles keys).mpr (named.symm ▸ live), named⟩
    cases same : unchanged (previous known f.name) info with
    | true =>
      have live := live_of_unchanged rows walked done statd same
      rcases unchanged_cases same with ⟨k, found, _, _⟩ | ⟨absent, rfl⟩
      · rw [found] at live
        have named : k.name = f.name := key_of_lookup found
        exact atName _ live named
      · -- The zero mod time is in no column.
        rcases fits f hf _ some_ with ⟨k, hk, named, _⟩ | column
        · exact absurd named (lookup_eq_none_iff.mp absent k hk)
        · exact absurd column (by decide)
    | false =>
      obtain ⟨r, live, named, _⟩ := live_of_changed rows walked done statd same
      exact atName r live named
  · intro r hr k hk named
    obtain ⟨f, hf, info, _, _, ⟨k', hk', _, _, rfl⟩ | ⟨_, _, ids⟩⟩ :=
      live_cases rows walked done hr
    · rw [rows.names.eq_of_key hk hk' named]
      rfl
    · exact ids k hk named

/-- What the live rows say of a stat was known, or fits its columns. -/
theorem fits_of_showsWalk (rows : KnownRows known d t)
    (walked : UniqueOn WalkEntry.name res.files)
    (done : applyChangeset newFileID d (computeChangeset known res).1
      (computeChangeset known res).2.1 t = .ok t')
    (shows : ShowsWalk known res (t'.liveFiles d)) {f : WalkEntry} (hf : f ∈ res.files)
    (some_ : f.info = some info) :
    (∃ k ∈ known, k.name = f.name ∧ k.missing = false ∧ k.info = info) ∨ info.stored = info := by
  obtain ⟨r, hr, named⟩ := shows.complete f hf (some_ ▸ rfl)
  obtain ⟨g, hg, sameName, statd⟩ := shows.walked r hr
  obtain rfl := walked.eq_of_key hg hf (sameName.trans named)
  obtain rfl : r.info = info := Option.some.inj (statd.symm.trans some_)
  obtain ⟨f, hf', info, atRow, found, cases⟩ := live_cases rows walked done hr
  obtain rfl := walked.eq_of_key hf' hf (atRow.trans named)
  obtain rfl : r.info = info := Option.some.inj (statd.symm.trans found)
  rcases cases with ⟨k, hk, there, _, rfl⟩ | ⟨_, stored, _⟩
  · exact .inl ⟨k, hk, named, there, rfl⟩
  · exact .inr stored.symm

/-- A change set turns the known files into the walked ones exactly if each file with a
stat is known as live with that stat, or has a mod time that its column can hold. -/
theorem reachesWalk_iff (rows : KnownRows known d t)
    (walked : UniqueOn WalkEntry.name res.files) (minted : Minted newFileID res t) :
    ReachesWalk newFileID d known res t ↔ ∀ f ∈ res.files, ∀ info, f.info = some info →
      (∃ k ∈ known, k.name = f.name ∧ k.missing = false ∧ k.info = info) ∨
        info.stored = info := by
  constructor
  · rintro ⟨⟨t', done, shows⟩, _⟩ f hf info some_
    exact fits_of_showsWalk rows walked done shows hf some_
  · intro fits
    obtain ⟨t', done⟩ := applyChangeset_ok rows walked minted
    exact ⟨⟨t', done, showsWalk_of_fits rows walked done fits⟩, known_once rows⟩

end

/-- A dir with a file that stays, one that grew, one that is gone and one that is back. -/
def knownFour : List File :=
  [⟨11, ["keep.flac"], .audio, ⟨2, 100⟩, false⟩, ⟨12, ["grew.flac"], .audio, ⟨2, 100⟩, false⟩,
    ⟨13, ["gone.flac"], .audio, ⟨2, 100⟩, false⟩, ⟨14, ["back.flac"], .audio, ⟨2, 100⟩, true⟩]

/-- The walk of that dir, with a new file and one that has no stat. -/
def walkedFive : WalkResult :=
  ⟨[], [⟨["back.flac"], .audio, some ⟨2, 100⟩⟩, ⟨["gone.flac"], .audio, none⟩,
    ⟨["grew.flac"], .audio, some ⟨4, 100⟩⟩, ⟨["keep.flac"], .audio, some ⟨2, 100⟩⟩,
    ⟨["new.flac"], .audio, some ⟨1, 100⟩⟩]⟩

def newIDs (name : Path) : UUID :=
  BitVec.ofNat 128 (21 + walkedFive.files.findIdx fun f => f.name = name)

theorem walkedFive_reached :
    ReachesWalk newIDs 1 knownFour walkedFive ⟨[], [], [], knownFour.map (fileRow 1)⟩ := by
  apply (reachesWalk_iff ⟨by decide, by decide, by decide, by decide, by decide⟩ (by decide)
    ⟨by decide, by decide⟩).mpr
  intro f hf info some_
  have fits : ∀ f ∈ walkedFive.files, f.info.all (fun i => i.stored = i) = true := by decide
  have column := fits f hf
  rw [some_] at column
  exact .inr (by simpa using column)

/-- An empty file with the zero mod time, in a new dir. -/
def zeroFile : WalkResult := ⟨[], [⟨["01.flac"], .audio, some ⟨0, zeroTime⟩⟩]⟩

theorem zeroFile_left_out :
    KnownRows [] 1 ScanTables.empty ∧ UniqueOn WalkEntry.name zeroFile.files ∧
      Minted (fun _ => 2) zeroFile ScanTables.empty ∧
        ¬ReachesWalk (fun _ => 2) 1 [] zeroFile ScanTables.empty := by
  refine ⟨⟨by decide, by decide, by decide, .refl _, by decide⟩, by decide,
    ⟨by decide, by decide⟩, ?_⟩
  rintro ⟨⟨t', done, shows⟩, _⟩
  have nothing : applyChangeset (fun _ => 2) 1 (computeChangeset [] zeroFile).1
      (computeChangeset [] zeroFile).2.1 ScanTables.empty = .ok ScanTables.empty := by decide
  obtain rfl := Except.ok.inj (done.symm.trans nothing)
  obtain ⟨r, hr, _⟩ := shows.complete ⟨["01.flac"], .audio, some ⟨0, zeroTime⟩⟩
    List.mem_cons_self (by decide)
  cases hr

end Byom.Scan
