import Byom.Metadata.ImportedTracks
import Byom.Sqlite.Artists

/-!
# Interning artists side by side

Calls of `internArtist` share the cache behind a read-write lock. The cache is read
under the read lock and again under the write lock, and the store is called under the
write lock. `Interning` takes a call apart at these points; a call of the store may fail, and
an `InsertArtist` that fails may have committed. All other writes of the stores come in
between as they like.
-/

namespace Byom.Metadata

open Storage Relational Library Sqlite Transition

/-- How far a call is. From `locked` to `inserting` it holds the write lock. -/
inductive InternStage where
  | called
  | missed
  | locked
  | looking
  | inserting (id : UUID)
  | returned (id : UUID)
  | failed
  deriving DecidableEq, Repr

def InternStage.holds : InternStage → Bool
  | .locked => true
  | .looking => true
  | .inserting _ => true
  | _ => false

structure InternCall where
  name : String
  stage : InternStage
  deriving DecidableEq, Repr

/-- `inserted` records the artists that were inserted, with their normal forms. -/
structure Interning where
  im : Importer
  writer : Option Nat
  calls : List InternCall
  inserted : List (String × Artist)

inductive InternAction where
  | call (name : String)
  | read (i : Nat)
  | lock (i : Nat)
  | recheck (i : Nat)
  | artistsByAlias (i : Nat) (newID : UUID)
  | insertArtist (i : Nat)
  | insertLost (i : Nat)
  | fail (i : Nat)
  | store (w : Write)

/-- The call that takes a step. -/
def InternAction.actor : InternAction → Option Nat
  | .read i => some i
  | .lock i => some i
  | .recheck i => some i
  | .artistsByAlias i _ => some i
  | .insertArtist i => some i
  | .insertLost i => some i
  | .fail i => some i
  | _ => none

namespace Interning

variable {u : Unicode}

/-- An importer that has just been made. -/
def start (db : Database) : Interning := ⟨⟨db, []⟩, none, [], []⟩

/-- The call goes on. -/
def goTo (s : Interning) (i : Nat) (c : InternCall) (stage : InternStage) : Interning :=
  { s with calls := s.calls.set i { c with stage } }

/-- The call returns, and gives the write lock back. -/
def leave (s : Interning) (i : Nat) (c : InternCall) (stage : InternStage) : Interning :=
  { s.goTo i c stage with writer := none }

def cached (s : Interning) (norm : String) : Option UUID :=
  (lookup Prod.fst norm s.im.artists).map Prod.snd

/-- A name without a normal form has no artist, and no lock is taken for it. -/
def call (u : Unicode) (s : Interning) (name : String) : Interning :=
  let stage := if normalizeArtistName u name = "" then .returned .nil else .called
  { s with calls := s.calls ++ [⟨name, stage⟩] }

/-- The look under the read lock, which nobody holds together with a writer. -/
def read (u : Unicode) (s : Interning) (i : Nat) : Option Interning :=
  match s.calls[i]?, s.writer with
  | some c, none =>
    if c.stage = .called then
      match s.cached (normalizeArtistName u c.name) with
      | some id => some (s.goTo i c (.returned id))
      | none => some (s.goTo i c .missed)
    else none
  | _, _ => none

def lock (s : Interning) (i : Nat) : Option Interning :=
  match s.calls[i]?, s.writer with
  | some c, none =>
    if c.stage = .missed then some { s.goTo i c .locked with writer := some i } else none
  | _, _ => none

/-- The second look, under the write lock. -/
def recheck (u : Unicode) (s : Interning) (i : Nat) : Option Interning :=
  match s.calls[i]? with
  | none => none
  | some c =>
    if c.stage = .locked then
      match s.cached (normalizeArtistName u c.name) with
      | some id => some (s.leave i c (.returned id))
      | none => some (s.goTo i c .looking)
    else none

/-- The name is put into the cache, and the call returns. -/
def remember (s : Interning) (i : Nat) (c : InternCall) (norm : String) (id : UUID) : Interning :=
  let s := s.leave i c (.returned id)
  { s with im := { s.im with artists := s.im.artists ++ [(norm, id)] } }

/-- `ArtistsByAlias` returns, and where it finds nobody an ID is minted. -/
def artistsByAlias (u : Unicode) (s : Interning) (i : Nat) (newID : UUID) : Option Interning :=
  match s.calls[i]? with
  | none => none
  | some c =>
    if c.stage = .looking then
      let norm := normalizeArtistName u c.name
      match s.im.db.artistsByAlias norm with
      | oldest :: _ => some (s.remember i c norm oldest.id)
      | [] => some (s.goTo i c (.inserting newID))
    else none

/-- The artist that a call inserts. -/
def newArtist (id : UUID) (name : String) : Artist := ⟨id, trimSpace name, trimSpace name⟩

/-- The transaction of `InsertArtist`, committed. -/
def commit (u : Unicode) (s : Interning) (i : Nat) : Option (InternCall × UUID × Interning) :=
  match s.calls[i]? with
  | none => none
  | some c =>
    match c.stage with
    | .inserting id =>
      let norm := normalizeArtistName u c.name
      let artist := newArtist id c.name
      match s.im.db.insertArtist artist [norm] with
      | .ok db =>
        some (c, id, { s with
          im := { s.im with db }
          inserted := s.inserted ++ [(norm, artist)] })
      | .error _ => none
    | _ => none

/-- A call of the store returns an error; `NewV7` may as well. -/
def fail (s : Interning) (i : Nat) : Option Interning :=
  match s.calls[i]? with
  | none => none
  | some c =>
    match c.stage with
    | .looking | .inserting _ => some (s.leave i c .failed)
    | _ => none

/-- Any other write of a store. -/
def store (s : Interning) (w : Write) : Option Interning :=
  match w with
  | .insertArtist _ _ => none
  | w => (s.im.db.step w).map fun db => { s with im := { s.im with db } }

def step (u : Unicode) (s : Interning) : InternAction → Option Interning
  | .call name => some (s.call u name)
  | .read i => s.read u i
  | .lock i => s.lock i
  | .recheck i => s.recheck u i
  | .artistsByAlias i newID => s.artistsByAlias u i newID
  | .insertArtist i => (s.commit u i).map fun (c, id, t) =>
      t.remember i c (normalizeArtistName u c.name) id
  | .insertLost i => (s.commit u i).map fun (c, _, t) => t.leave i c .failed
  | .fail i => s.fail i
  | .store w => s.store w

/-! ### The lock -/

/-- What a call knows by where it is. -/
def Knows (u : Unicode) (s : Interning) (c : InternCall) : Prop :=
  let norm := normalizeArtistName u c.name
  match c.stage with
  | .looking => s.cached norm = none
  | .inserting _ => s.cached norm = none ∧ s.im.db.artistsByAlias norm = []
  | .returned id => norm = "" ∨ s.cached norm = some id
  | _ => True

structure Locked (u : Unicode) (s : Interning) : Prop where
  bound : ∀ i, s.writer = some i → i < s.calls.length
  writer : ∀ (i : Nat) (c : InternCall), s.calls[i]? = some c →
    (c.stage.holds = true ↔ s.writer = some i)
  knows : ∀ c ∈ s.calls, s.Knows u c
  named : ∀ c ∈ s.calls, normalizeArtistName u c.name = "" → c.stage = .returned .nil

variable {s s' : Interning} {i : Nat} {c : InternCall} {stage : InternStage} {norm : String}
  {id newID : UUID} {db₀ : Database}

theorem mem_goTo {d : InternCall} (h : d ∈ s.calls.set i { c with stage }) :
    d = { c with stage } ∨ ∃ j, j ≠ i ∧ s.calls[j]? = some d := by
  obtain ⟨j, at_⟩ := List.mem_iff_getElem?.mp h
  rcases Transition.getElem?_set_cases at_ with ⟨_, rfl⟩ | ⟨apart, old⟩
  · exact .inl rfl
  · exact .inr ⟨j, apart, old⟩

/-- What is known is not forgotten: names stay in the cache, and a call that knows
what is not there has the lock. -/
theorem Knows.mono {d : InternCall} (knows : s.Knows u d)
    (kept : ∀ norm id, s.cached norm = some id → s'.cached norm = some id)
    (same : d.stage.holds = true → s'.im.artists = s.im.artists ∧
      Database.people s'.im.db.library = Database.people s.im.db.library) : s'.Knows u d := by
  unfold Knows at knows ⊢
  cases at_ : d.stage with
  | looking =>
    rw [at_] at knows same
    simp only [cached] at knows ⊢
    rw [(same rfl).1]
    exact knows
  | inserting id =>
    rw [at_] at knows same
    obtain ⟨artists, people⟩ := same rfl
    simp only [cached] at knows ⊢
    rw [artists, Database.artistsByAlias_of_people people]
    exact knows
  | returned id =>
    rw [at_] at knows
    exact knows.imp_right (kept _ _)
  | _ => trivial

/-- One call goes on. -/
theorem Locked.move (locked : s.Locked u) (found : s.calls[i]? = some c)
    (named : normalizeArtistName u c.name = "" → stage = .returned .nil)
    (knows : s'.Knows u { c with stage }) (calls : s'.calls = s.calls.set i { c with stage })
    (own : stage.holds = true ↔ s'.writer = some i)
    (others : ∀ j, j ≠ i → (s'.writer = some j ↔ s.writer = some j))
    (kept : ∀ norm id, s.cached norm = some id → s'.cached norm = some id)
    (same : s.writer ≠ some i → s'.im.artists = s.im.artists ∧
      Database.people s'.im.db.library = Database.people s.im.db.library) : s'.Locked u := by
  refine ⟨?_, ?_, ?_, ?_⟩
  · intro j writer
    rw [calls, List.length_set]
    by_cases here : j = i
    · exact here ▸ (List.getElem?_eq_some_iff.mp found).1
    · exact locked.bound j ((others j here).mp writer)
  · intro j d at_
    rw [calls] at at_
    rcases Transition.getElem?_set_cases at_ with ⟨rfl, rfl⟩ | ⟨apart, old⟩
    · exact own
    · rw [others j apart]
      exact locked.writer j d old
  · intro d hd
    rw [calls] at hd
    rcases mem_goTo hd with rfl | ⟨j, apart, old⟩
    · exact knows
    · apply (locked.knows d (List.mem_of_getElem? old)).mono kept
      intro holds
      apply same
      rw [(locked.writer j d old).mp holds]
      exact fun both => apart (Option.some.inj both)
  · intro d hd empty
    rw [calls] at hd
    rcases mem_goTo hd with rfl | ⟨j, _, old⟩
    · exact named empty
    · exact locked.named d (List.mem_of_getElem? old) empty

/-! ### The cache and the store -/

/-- The store has the artists that were there at the start, and those that were inserted, one
for a normal form that nobody had as an alias. -/
structure Catalog (db₀ : Database) (s : Interning) : Prop where
  oldest : ∀ norm id, (norm, id) ∈ s.im.artists → norm ≠ "" ∧ s.im.db.Oldest norm id
  artists : s.im.db.library.artists = db₀.library.artists ++ s.inserted.map Prod.snd
  aliases : s.im.db.library.artistAliases =
    db₀.library.artistAliases ++ s.inserted.map fun p => ⟨p.1, p.2.id⟩
  once : (s.inserted.map Prod.fst).Nodup
  fresh : ∀ p ∈ s.inserted, ∀ a ∈ db₀.library.artistAliases, a.normName ≠ p.1

theorem Catalog.of_same (catalog : s.Catalog db₀) (cache : s'.im.artists = s.im.artists)
    (people : Database.people s'.im.db.library = Database.people s.im.db.library)
    (inserted : s'.inserted = s.inserted) : s'.Catalog db₀ := by
  obtain ⟨artists, aliases⟩ := Prod.mk.inj people
  refine ⟨?_, ?_, ?_, ?_, ?_⟩
  · intro norm id listed
    rw [cache] at listed
    obtain ⟨named, oldest⟩ := catalog.oldest norm id listed
    exact ⟨named, oldest.of_people people⟩
  · rw [artists, inserted]
    exact catalog.artists
  · rw [aliases, inserted]
    exact catalog.aliases
  · rw [inserted]
    exact catalog.once
  · rw [inserted]
    exact catalog.fresh

theorem Catalog.remember (catalog : s.Catalog db₀) (named : norm ≠ "")
    (oldest : s.im.db.Oldest norm id) : (s.remember i c norm id).Catalog db₀ := by
  refine ⟨?_, catalog.artists, catalog.aliases, catalog.once, catalog.fresh⟩
  intro other x listed
  rcases List.mem_append.mp listed with old | new
  · exact catalog.oldest other x old
  · cases List.mem_singleton.mp new
    exact ⟨named, oldest⟩

theorem commit_cases {t : Interning} (h : s.commit u i = some (c, id, t)) :
    s.calls[i]? = some c ∧ c.stage = .inserting id ∧
      ∃ db, s.im.db.insertArtist (newArtist id c.name) [normalizeArtistName u c.name] = .ok db ∧
        t = { s with
          im := { s.im with db }
          inserted := s.inserted ++ [(normalizeArtistName u c.name, newArtist id c.name)] } := by
  unfold commit at h
  split at h
  · cases h
  · rename_i d found
    split at h
    · rename_i x stage
      simp only at h
      split at h
      · rename_i db stored
        cases h
        exact ⟨found, stage, db, stored, rfl⟩
      · cases h
    · cases h

/-- The artist is inserted where nobody has its alias. -/
theorem Catalog.commit (catalog : s.Catalog db₀) {t : Interning}
    (h : s.commit u i = some (c, id, t))
    (nobody : s.im.db.artistsByAlias (normalizeArtistName u c.name) = []) : t.Catalog db₀ := by
  obtain ⟨_, _, db, stored, rfl⟩ := commit_cases h
  obtain ⟨artists, aliases⟩ := Database.insertArtist_spec stored
  have absent := Database.artistsByAlias_eq_nil_iff.mp nobody
  refine ⟨?_, ?_, ?_, ?_, ?_⟩
  · intro norm x listed
    obtain ⟨named, oldest⟩ := catalog.oldest norm x listed
    refine ⟨named, oldest.inserted stored ?_⟩
    rintro rfl
    exact absent _ oldest.listed rfl
  · rw [artists, catalog.artists, List.map_append, List.append_assoc]
    rfl
  · rw [aliases, catalog.aliases, List.map_append, List.append_assoc]
    rfl
  · rw [List.map_append]
    refine catalog.once.append (List.nodup_singleton _) ?_
    intro norm listed new
    obtain ⟨p, hp, rfl⟩ := List.mem_map.mp listed
    have stored : (⟨p.1, p.2.id⟩ : AliasRow) ∈ s.im.db.library.artistAliases := by
      rw [catalog.aliases]
      exact List.mem_append_right _ (List.mem_map_of_mem hp)
    exact absent _ stored (List.mem_singleton.mp new)
  · intro p hp a ha
    rcases List.mem_append.mp hp with old | new
    · exact catalog.fresh p old a ha
    · obtain rfl := List.mem_singleton.mp new
      apply absent
      rw [catalog.aliases]
      exact List.mem_append_left _ ha

theorem cached_remember (absent : s.cached norm = none) (other : String) :
    (s.remember i c norm id).cached other = if other = norm then some id else s.cached other := by
  have absent' : lookup Prod.fst norm s.im.artists = none := Option.map_eq_none_iff.mp absent
  show (lookup Prod.fst other (s.im.artists ++ [(norm, id)])).map Prod.snd = _
  rw [Importer.lookup_cached id absent']
  split
  · rfl
  · rfl

/-- A call puts its name into the cache, and returns. -/
theorem Locked.remember (locked : s.Locked u) (found : s.calls[i]? = some c)
    (holds : c.stage.holds = true) (absent : s.cached (normalizeArtistName u c.name) = none)
    (named : normalizeArtistName u c.name ≠ "") {t : Interning} (calls : t.calls = s.calls)
    (cache : t.im.artists = s.im.artists) :
    (t.remember i c (normalizeArtistName u c.name) id).Locked u := by
  have writer : s.writer = some i := (locked.writer i c found).mp holds
  have absent' : t.cached (normalizeArtistName u c.name) = none := by
    unfold cached
    rw [cache]
    exact absent
  have same : ∀ other, t.cached other = s.cached other := by
    intro other
    unfold cached
    rw [cache]
  have put : ∀ other, (t.remember i c (normalizeArtistName u c.name) id).cached other =
      if other = normalizeArtistName u c.name then some id else t.cached other :=
    fun other => cached_remember absent' other
  have knows : (t.remember i c (normalizeArtistName u c.name) id).Knows u
      { c with stage := .returned id } := by
    unfold Knows
    exact Or.inr ((put _).trans (if_pos rfl))
  refine locked.move found (fun empty => absurd empty named) knows ?_ ?_ ?_ ?_ ?_
  · show t.calls.set i _ = _
    rw [calls]
  · exact ⟨nofun, nofun⟩
  · intro j apart
    rw [writer]
    exact ⟨nofun, fun both => absurd (Option.some.inj both).symm apart⟩
  · intro other x here
    rw [put]
    split
    · rename_i own
      rw [own, absent] at here
      cases here
    · rw [same]
      exact here
  · exact fun other => absurd writer other

/-- A call returns, or gives up, and only the call itself has changed. -/
theorem Locked.leave (locked : s.Locked u) (found : s.calls[i]? = some c)
    (holds : c.stage.holds = true) (named : normalizeArtistName u c.name ≠ "")
    (free : stage.holds = false) {t : Interning} (calls : t.calls = s.calls)
    (cache : t.im.artists = s.im.artists) (knows : (t.leave i c stage).Knows u { c with stage }) :
    (t.leave i c stage).Locked u := by
  have writer : s.writer = some i := (locked.writer i c found).mp holds
  refine locked.move found (fun empty => absurd empty named) knows ?_ ?_ ?_ ?_ ?_
  · show t.calls.set i _ = _
    rw [calls]
  · rw [free]
    exact ⟨nofun, nofun⟩
  · intro j apart
    rw [writer]
    exact ⟨nofun, fun both => absurd (Option.some.inj both).symm apart⟩
  · intro other x here
    show (lookup Prod.fst other t.im.artists).map Prod.snd = _
    rw [cache]
    exact here
  · exact fun other => absurd writer other

/-- A call goes on without taking or giving back the lock. -/
theorem Locked.goTo (locked : s.Locked u) (found : s.calls[i]? = some c)
    (named : normalizeArtistName u c.name ≠ "") (same : stage.holds = c.stage.holds)
    (knows : s.Knows u { c with stage }) : (s.goTo i c stage).Locked u := by
  refine locked.move found (fun empty => absurd empty named) knows rfl ?_ ?_ ?_ ?_
  · rw [same]
    exact locked.writer i c found
  · exact fun _ _ => Iff.rfl
  · exact fun _ _ here => here
  · exact fun _ => ⟨rfl, rfl⟩

/-! ### All steps -/

/-- What one action does. -/
inductive Moves (u : Unicode) (s : Interning) : InternAction → Interning → Prop where
  | call (name : String) : Moves u s (.call name) (s.call u name)
  | hit (i : Nat) {c id} (free : s.writer = none) (found : s.calls[i]? = some c)
    (called : c.stage = .called) (hit : s.cached (normalizeArtistName u c.name) = some id) :
    Moves u s (.read i) (s.goTo i c (.returned id))
  | miss (i : Nat) {c} (free : s.writer = none) (found : s.calls[i]? = some c)
    (called : c.stage = .called) (miss : s.cached (normalizeArtistName u c.name) = none) :
    Moves u s (.read i) (s.goTo i c .missed)
  | lock (i : Nat) {c} (free : s.writer = none) (found : s.calls[i]? = some c)
    (missed : c.stage = .missed) : Moves u s (.lock i) { s.goTo i c .locked with writer := some i }
  | hitLocked (i : Nat) {c id} (found : s.calls[i]? = some c) (locked : c.stage = .locked)
    (hit : s.cached (normalizeArtistName u c.name) = some id) :
    Moves u s (.recheck i) (s.leave i c (.returned id))
  | missLocked (i : Nat) {c} (found : s.calls[i]? = some c) (locked : c.stage = .locked)
    (miss : s.cached (normalizeArtistName u c.name) = none) :
    Moves u s (.recheck i) (s.goTo i c .looking)
  | known (i : Nat) (newID : UUID) {c oldest others} (found : s.calls[i]? = some c)
    (looking : c.stage = .looking)
    (matches_ : s.im.db.artistsByAlias (normalizeArtistName u c.name) = oldest :: others) :
    Moves u s (.artistsByAlias i newID)
      (s.remember i c (normalizeArtistName u c.name) oldest.id)
  | unknown (i : Nat) (newID : UUID) {c} (found : s.calls[i]? = some c)
    (looking : c.stage = .looking)
    (nobody : s.im.db.artistsByAlias (normalizeArtistName u c.name) = []) :
    Moves u s (.artistsByAlias i newID) (s.goTo i c (.inserting newID))
  | insertArtist (i : Nat) {c id t} (committed : s.commit u i = some (c, id, t)) :
    Moves u s (.insertArtist i) (t.remember i c (normalizeArtistName u c.name) id)
  | insertLost (i : Nat) {c id t} (committed : s.commit u i = some (c, id, t)) :
    Moves u s (.insertLost i) (t.leave i c .failed)
  | fail (i : Nat) {c} (found : s.calls[i]? = some c)
    (calling : c.stage = .looking ∨ ∃ id, c.stage = .inserting id) :
    Moves u s (.fail i) (s.leave i c .failed)
  | store (w : Write) {db} (written : s.im.db.step w = some db)
    (other : ∀ artist aliases, w ≠ .insertArtist artist aliases) :
    Moves u s (.store w) { s with im := { s.im with db } }

theorem read_moves (h : s.read u i = some s') : s.Moves u (.read i) s' := by
  unfold Interning.read at h
  split at h
  · rename_i c found free
    split at h
    · rename_i called
      split at h
      · rename_i id hit
        cases h
        exact .hit i free found called hit
      · rename_i miss
        cases h
        exact .miss i free found called miss
    · cases h
  · cases h

theorem lock_moves (h : s.lock i = some s') : s.Moves u (.lock i) s' := by
  unfold Interning.lock at h
  split at h
  · rename_i c found free
    split at h
    · rename_i missed
      cases h
      exact .lock i free found missed
    · cases h
  · cases h

theorem recheck_moves (h : s.recheck u i = some s') : s.Moves u (.recheck i) s' := by
  unfold Interning.recheck at h
  split at h
  · cases h
  · rename_i c found
    split at h
    · rename_i locked
      split at h
      · rename_i id hit
        cases h
        exact .hitLocked i found locked hit
      · rename_i miss
        cases h
        exact .missLocked i found locked miss
    · cases h

theorem artistsByAlias_moves (h : s.artistsByAlias u i newID = some s') :
    s.Moves u (.artistsByAlias i newID) s' := by
  unfold Interning.artistsByAlias at h
  split at h
  · cases h
  · rename_i c found
    split at h
    · rename_i looking
      simp only at h
      split at h
      · rename_i oldest others matches_
        cases h
        exact .known i newID found looking matches_
      · rename_i nobody
        cases h
        exact .unknown i newID found looking nobody
    · cases h

theorem fail_moves (h : s.fail i = some s') : s.Moves u (.fail i) s' := by
  unfold Interning.fail at h
  split at h
  · cases h
  · rename_i c found
    split at h
    · rename_i looking
      cases h
      exact .fail i found (.inl looking)
    · rename_i id inserting
      cases h
      exact .fail i found (.inr ⟨id, inserting⟩)
    · cases h

theorem store_moves {w : Write} (h : s.store w = some s') : s.Moves u (.store w) s' := by
  unfold Interning.store at h
  split at h
  · cases h
  · rename_i other
    obtain ⟨db, written, rfl⟩ := Option.map_eq_some_iff.mp h
    exact .store w written other

theorem step_moves {a : InternAction} (h : s.step u a = some s') : s.Moves u a s' := by
  cases a with
  | call name =>
    cases h
    exact .call name
  | read i => exact read_moves h
  | lock i => exact lock_moves h
  | recheck i => exact recheck_moves h
  | artistsByAlias i newID => exact artistsByAlias_moves h
  | insertArtist i =>
    obtain ⟨⟨c, id, t⟩, committed, rfl⟩ := Option.map_eq_some_iff.mp h
    exact .insertArtist i committed
  | insertLost i =>
    obtain ⟨⟨c, id, t⟩, committed, rfl⟩ := Option.map_eq_some_iff.mp h
    exact .insertLost i committed
  | fail i => exact fail_moves h
  | store w => exact store_moves h

structure Inv (u : Unicode) (db₀ : Database) (s : Interning) : Prop where
  locked : s.Locked u
  catalog : s.Catalog db₀

theorem start_inv (db : Database) : (start db).Inv u db := by
  refine ⟨⟨?_, ?_, ?_, ?_⟩, ⟨?_, ?_, ?_, ?_, ?_⟩⟩ <;> simp [start]

theorem Locked.name_of_stage (locked : s.Locked u) (found : s.calls[i]? = some c)
    (running : c.stage ≠ .returned .nil) : normalizeArtistName u c.name ≠ "" :=
  fun empty => running (locked.named c (List.mem_of_getElem? found) empty)

theorem Inv.call (inv : s.Inv u db₀) (name : String) : (s.call u name).Inv u db₀ := by
  refine ⟨⟨?_, ?_, ?_, ?_⟩, inv.catalog.of_same rfl rfl rfl⟩
  · intro i writer
    have before := inv.locked.bound i writer
    simp only [Interning.call, List.length_append]
    omega
  · intro i d at_
    simp only [Interning.call] at at_ ⊢
    rcases Nat.lt_or_ge i s.calls.length with before | after
    · rw [List.getElem?_append_left before] at at_
      exact inv.locked.writer i d at_
    · rw [List.getElem?_append_right after, List.getElem?_singleton] at at_
      have free : d.stage.holds = false := by
        split at at_
        · cases at_
          simp only
          split <;> rfl
        · cases at_
      rw [free]
      refine ⟨nofun, fun writer => ?_⟩
      have before := inv.locked.bound i writer
      omega
  · intro d hd
    rcases List.mem_append.mp hd with old | new
    · exact (inv.locked.knows d old).mono (fun _ _ here => here) fun _ => ⟨rfl, rfl⟩
    · obtain rfl := List.mem_singleton.mp new
      by_cases empty : normalizeArtistName u name = ""
      · simp [Knows, empty]
      · simp [Knows, empty]
  · intro d hd empty
    rcases List.mem_append.mp hd with old | new
    · exact inv.locked.named d old empty
    · obtain rfl := List.mem_singleton.mp new
      simp only at empty
      simp [empty]

/-- What a call knows when it asks the store. -/
theorem Inv.before_look (inv : s.Inv u db₀) (found : s.calls[i]? = some c)
    (looking : c.stage = .looking) : normalizeArtistName u c.name ≠ "" ∧
      s.cached (normalizeArtistName u c.name) = none := by
  have knows := inv.locked.knows c (List.mem_of_getElem? found)
  unfold Knows at knows
  rw [looking] at knows
  exact ⟨inv.locked.name_of_stage found (looking ▸ nofun), knows⟩

/-- What a call knows when its `InsertArtist` commits. -/
theorem Inv.before_commit (inv : s.Inv u db₀) {t : Interning}
    (h : s.commit u i = some (c, id, t)) : normalizeArtistName u c.name ≠ "" ∧
      c.stage.holds = true ∧ s.cached (normalizeArtistName u c.name) = none ∧
        s.im.db.artistsByAlias (normalizeArtistName u c.name) = [] := by
  obtain ⟨found, stage, _⟩ := commit_cases h
  have knows := inv.locked.knows c (List.mem_of_getElem? found)
  unfold Knows at knows
  rw [stage] at knows
  refine ⟨inv.locked.name_of_stage found (stage ▸ nofun), ?_, knows⟩
  rw [stage]
  rfl

theorem Inv.insertArtist (inv : s.Inv u db₀) {t : Interning}
    (h : s.commit u i = some (c, id, t)) :
    (t.remember i c (normalizeArtistName u c.name) id).Inv u db₀ := by
  obtain ⟨named, holds, absent, nobody⟩ := inv.before_commit h
  have catalog := inv.catalog.commit h nobody
  obtain ⟨found, _, db, stored, rfl⟩ := commit_cases h
  refine ⟨inv.locked.remember found holds absent named rfl rfl, ?_⟩
  exact catalog.remember named (Database.oldest_of_inserted stored nobody)

theorem Inv.insertLost (inv : s.Inv u db₀) {t : Interning}
    (h : s.commit u i = some (c, id, t)) : (t.leave i c .failed).Inv u db₀ := by
  obtain ⟨named, holds, absent, nobody⟩ := inv.before_commit h
  have catalog := inv.catalog.commit h nobody
  obtain ⟨found, _, db, stored, rfl⟩ := commit_cases h
  exact ⟨inv.locked.leave found holds named rfl rfl rfl trivial, catalog.of_same rfl rfl rfl⟩

theorem Inv.store (inv : s.Inv u db₀) {w : Write} {db : Database}
    (written : s.im.db.step w = some db)
    (other : ∀ artist aliases, w ≠ .insertArtist artist aliases) :
    ({ s with im := { s.im with db } } : Interning).Inv u db₀ := by
  have people := Database.step_people written other
  refine ⟨⟨inv.locked.bound, inv.locked.writer, ?_, inv.locked.named⟩, ?_⟩
  · intro d hd
    exact (inv.locked.knows d hd).mono (fun _ _ here => here) fun _ => ⟨rfl, people⟩
  · exact inv.catalog.of_same rfl people rfl

theorem Moves.inv {a : InternAction} (inv : s.Inv u db₀) (h : s.Moves u a s') : s'.Inv u db₀ := by
  cases h with
  | call name => exact inv.call name
  | hit i free found called hit =>
    have named := inv.locked.name_of_stage found (called ▸ nofun)
    refine ⟨inv.locked.goTo found named ?_ ?_, inv.catalog.of_same rfl rfl rfl⟩
    · rw [called]
      rfl
    · exact Or.inr hit
  | miss i free found called miss =>
    have named := inv.locked.name_of_stage found (called ▸ nofun)
    refine ⟨inv.locked.goTo found named ?_ trivial, inv.catalog.of_same rfl rfl rfl⟩
    rw [called]
    rfl
  | lock i free found missed =>
    have named := inv.locked.name_of_stage found (missed ▸ nofun)
    refine ⟨?_, inv.catalog.of_same rfl rfl rfl⟩
    refine inv.locked.move found (fun empty => absurd empty named) ?_ rfl ?_ ?_ ?_ ?_
    · trivial
    · exact ⟨fun _ => rfl, fun _ => rfl⟩
    · intro j apart
      rw [free]
      exact ⟨fun both => absurd (Option.some.inj both).symm apart, nofun⟩
    · exact fun _ _ here => here
    · exact fun _ => ⟨rfl, rfl⟩
  | hitLocked i found locked hit =>
    have named := inv.locked.name_of_stage found (locked ▸ nofun)
    refine ⟨inv.locked.leave found (locked ▸ rfl) named rfl rfl rfl ?_,
      inv.catalog.of_same rfl rfl rfl⟩
    exact Or.inr hit
  | missLocked i found locked miss =>
    have named := inv.locked.name_of_stage found (locked ▸ nofun)
    refine ⟨inv.locked.goTo found named ?_ miss, inv.catalog.of_same rfl rfl rfl⟩
    rw [locked]
    rfl
  | known i newID found looking matches_ =>
    obtain ⟨named, absent⟩ := inv.before_look found looking
    refine ⟨inv.locked.remember found (looking ▸ rfl) absent named rfl rfl, ?_⟩
    exact inv.catalog.remember named (Database.oldest_of_head matches_)
  | unknown i newID found looking nobody =>
    obtain ⟨named, absent⟩ := inv.before_look found looking
    refine ⟨inv.locked.goTo found named ?_ ⟨absent, nobody⟩, inv.catalog.of_same rfl rfl rfl⟩
    rw [looking]
    rfl
  | insertArtist i committed => exact inv.insertArtist committed
  | insertLost i committed => exact inv.insertLost committed
  | @fail i c found calling =>
    have holds : c.stage.holds = true ∧ c.stage ≠ .returned .nil := by
      rcases calling with stage | ⟨id, stage⟩
      · rw [stage]
        exact ⟨rfl, nofun⟩
      · rw [stage]
        exact ⟨rfl, nofun⟩
    have named := inv.locked.name_of_stage found holds.2
    exact ⟨inv.locked.leave found holds.1 named rfl rfl rfl trivial,
      inv.catalog.of_same rfl rfl rfl⟩
  | store w written other => exact inv.store written other

theorem step_inv {a : InternAction} (inv : s.Inv u db₀) (h : s.step u a = some s') :
    s'.Inv u db₀ :=
  (step_moves h).inv inv

/-- The call that a step belongs to has returned `id`. -/
def Returns (s' : Interning) (a : InternAction) (c : InternCall) (id : UUID) : Prop :=
  ∃ i, a.actor = some i ∧ s'.calls[i]? = some c ∧ c.stage = .returned id

theorem calls_remember (found : s.calls[i]? = some c) :
    (s.remember i c norm id).calls[i]? = some { c with stage := .returned id } := by
  show (s.calls.set i _)[i]? = _
  rw [List.getElem?_set_self (List.getElem?_eq_some_iff.mp found).1]

/-- A step puts a name into the cache only if its call returns. -/
theorem step_cache {a : InternAction} (h : s.step u a = some s') :
    s'.im.artists = s.im.artists ∨ ∃ c id, s'.Returns a c id ∧
      s'.im.artists = s.im.artists ++ [(normalizeArtistName u c.name, id)] := by
  cases step_moves h with
  | known i newID found looking matches_ =>
    exact .inr ⟨_, _, ⟨i, rfl, calls_remember found, rfl⟩, rfl⟩
  | insertArtist i committed =>
    obtain ⟨found, _, db, _, rfl⟩ := commit_cases committed
    exact .inr ⟨_, _, ⟨i, rfl, calls_remember found, rfl⟩, rfl⟩
  | insertLost i committed =>
    obtain ⟨_, _, db, _, rfl⟩ := commit_cases committed
    exact .inl rfl
  | _ => exact .inl rfl

theorem Returns.of_set {a : InternAction} {d : InternCall} (returns : s'.Returns a d id)
    (acts : a.actor = some i) (found : s.calls[i]? = some c)
    (calls : s'.calls = s.calls.set i { c with stage }) : d.name = c.name ∧ stage = .returned id := by
  obtain ⟨j, acts', found', returned⟩ := returns
  rw [acts] at acts'
  cases acts'
  rw [calls, List.getElem?_set_self (List.getElem?_eq_some_iff.mp found).1] at found'
  cases found'
  exact ⟨rfl, returned⟩

/-- The runtime in which the next artist gets this ID. -/
def minting (rt : Runtime) (u : Unicode) (id : UUID) : Runtime :=
  { rt with unicode := u, newArtistID := fun _ => id }

theorem internArtist_cached (rt : Runtime) {im : Importer} {name : String}
    (named : normalizeArtistName u name ≠ "")
    (hit : (lookup Prod.fst (normalizeArtistName u name) im.artists).map Prod.snd = some id) :
    Importer.internArtist (minting rt u id) name im = .ok (id, im) := by
  obtain ⟨⟨norm, x⟩, found, rfl⟩ := Option.map_eq_some_iff.mp hit
  simp [Importer.internArtist, minting, named, found]

/-- A call takes effect as a whole, in the step by which it returns. -/
theorem Inv.returns_internArtist (inv : s.Inv u db₀) {a : InternAction} {d : InternCall}
    (h : s.step u a = some s') (returns : s'.Returns a d id) (rt : Runtime) :
    Importer.internArtist (minting rt u id) d.name s.im = .ok (id, s'.im) := by
  cases step_moves h with
  | hit i free found called hit =>
    obtain ⟨name, returned⟩ := returns.of_set rfl found rfl
    cases returned
    rw [name]
    exact internArtist_cached rt (inv.locked.name_of_stage found (called ▸ nofun)) hit
  | hitLocked i found locked hit =>
    obtain ⟨name, returned⟩ := returns.of_set rfl found rfl
    cases returned
    rw [name]
    exact internArtist_cached rt (inv.locked.name_of_stage found (locked ▸ nofun)) hit
  | known i newID found looking matches_ =>
    obtain ⟨named, absent⟩ := inv.before_look found looking
    have absent' := Option.map_eq_none_iff.mp absent
    obtain ⟨name, returned⟩ := returns.of_set rfl found rfl
    cases returned
    rw [name]
    simp only [Importer.internArtist, minting, if_neg named, absent', matches_]
    rfl
  | insertArtist i committed =>
    obtain ⟨named, _, absent, nobody⟩ := inv.before_commit committed
    have absent' := Option.map_eq_none_iff.mp absent
    obtain ⟨found, _, db, stored, rfl⟩ := commit_cases committed
    obtain ⟨name, returned⟩ := returns.of_set rfl found rfl
    cases returned
    rw [name]
    simp only [newArtist] at stored
    simp only [Importer.internArtist, minting, if_neg named, absent', nobody, stored]
    rfl
  | insertLost i committed =>
    obtain ⟨found, _, db, stored, rfl⟩ := commit_cases committed
    cases (returns.of_set rfl found rfl).2
  -- No other step lets its call return, and a call that starts is not the actor of a step.
  | miss i free found => cases (returns.of_set rfl found rfl).2
  | lock i free found => cases (returns.of_set rfl found rfl).2
  | missLocked i found => cases (returns.of_set rfl found rfl).2
  | unknown i newID found => cases (returns.of_set rfl found rfl).2
  | fail i found => cases (returns.of_set rfl found rfl).2
  | call name =>
    obtain ⟨_, acts, _⟩ := returns
    cases acts
  | store w =>
    obtain ⟨_, acts, _⟩ := returns
    cases acts

/-- Calls for one normal form return one artist. It is inserted once, and only where nobody had
the alias; a name leads to the artist with the least ID that has it, and a call that fails
does not write the cache. -/
theorem artists_created_once (u : Unicode) (db : Database) {as : List InternAction}
    {s : Interning} (ran : run (step u) (start db) as = some s) :
    (∀ (i j : Nat) (c d : InternCall) (id id' : UUID), s.calls[i]? = some c →
      s.calls[j]? = some d → c.stage = .returned id → d.stage = .returned id' →
      normalizeArtistName u c.name = normalizeArtistName u d.name →
      normalizeArtistName u c.name ≠ "" → id = id') ∧
    s.Catalog db ∧
    ∀ (a : InternAction) (s' : Interning), s.step u a = some s' →
      s'.im.artists = s.im.artists ∨ ∃ c id, s'.Returns a c id ∧
        s'.im.artists = s.im.artists ++ [(normalizeArtistName u c.name, id)] := by
  have inv : s.Inv u db :=
    invariant_of_run (I := Inv u db) (fun _ _ _ inv h => step_inv inv h) (start_inv db) ran
  have known : ∀ (i : Nat) (c : InternCall) (id : UUID), s.calls[i]? = some c →
      c.stage = .returned id → normalizeArtistName u c.name ≠ "" →
        s.cached (normalizeArtistName u c.name) = some id := by
    intro i c id found returned named
    have knows := inv.locked.knows c (List.mem_of_getElem? found)
    unfold Knows at knows
    rw [returned] at knows
    exact knows.resolve_left named
  refine ⟨?_, inv.catalog, fun a s' h => step_cache h⟩
  intro i j c d id id' foundC foundD returnedC returnedD same named
  have first := known i c id foundC returnedC named
  have second := known j d id' foundD returnedD (same ▸ named)
  rw [same, second] at first
  exact (Option.some.inj first).symm

/-- Two calls miss the cache and one fails to insert, before the other does; then a third one
finds the name in the cache. -/
def racing : List InternAction :=
  [.call "The Band", .call "the band", .read 0, .read 1, .lock 1, .recheck 1, .artistsByAlias 1 51,
    .fail 1, .lock 0, .recheck 0, .artistsByAlias 0 50, .insertArtist 0, .call "THE BAND", .read 2]

theorem racing_createsOne : ∃ s, run (step Importer.asciiRuntime.unicode) (start .empty) racing =
      some s ∧ s.calls.map InternCall.stage = [.returned 50, .failed, .returned 50] ∧
        s.Catalog .empty := by
  have reaches : (run (step Importer.asciiRuntime.unicode) (start .empty) racing).map
      (fun s => s.calls.map InternCall.stage) =
        some [.returned 50, .failed, .returned 50] := by rfl
  obtain ⟨s, ran, stages⟩ := Option.map_eq_some_iff.mp reaches
  exact ⟨s, ran, stages, (artists_created_once _ _ ran).2.1⟩

end Interning

end Byom.Metadata
