import Mathlib.Algebra.BigOperators.Ring.List
import Mathlib.Algebra.Ring.Int.Defs
import Mathlib.Algebra.Order.BigOperators.Group.List
import Byom.Relational.Grouping
import Byom.Rpc.ListTracks

/-!
# The page of an album

`TrackList` collects the tracks that it is given by disc, and `sumDurations` adds up their
lengths. A number of JavaScript is an integer here: no sum of a page comes near `2 ^ 53`.
-/

namespace Byom.Ui

open Storage Relational Rpc Library Sqlite

/-- `Disc`. -/
structure Disc where
  number : Int
  heading : String
  tracks : List TrackProto
  deriving DecidableEq

/-- `track.discNumber || 1`. -/
def discOf (track : TrackProto) : Int :=
  if track.discNumber.toInt = 0 then 1 else track.discNumber.toInt

/-- A track is put into its disc. -/
def Disc.push (track : TrackProto) (disc : Disc) : Disc :=
  { disc with
    heading := if track.discSubtitle = "" then disc.heading else track.discSubtitle
    tracks := disc.tracks ++ [track] }

/-- The map by number, in the order in which the numbers came. -/
def byNumber (tracks : List TrackProto) : List Disc :=
  tracks.foldl (fun discs track =>
    upsertOn Disc.number (Disc.push track) (Disc.push track ⟨discOf track, "", []⟩) discs) []

/-- The discs of `TrackList`. -/
def discs (tracks : List TrackProto) : List Disc :=
  (byNumber tracks).mergeSort fun a b => a.number ≤ b.number

/-- `sumDurations`. -/
def sumDurations (ds : List DurationProto) : Int × Int :=
  let seconds := (ds.map fun d => d.seconds.toInt).sum
  let nanos := (ds.map fun d => d.nanos.toInt).sum
  (seconds + nanos / 1000000000, nanos.tmod 1000000000)

/-- The last heading that is not empty. -/
def headingOf (tracks : List TrackProto) : String :=
  ((tracks.map TrackProto.discSubtitle).filter (· ≠ "")).getLast?.getD ""

variable {tracks : List TrackProto} {d : Disc}

def discFrom (number : Int) (tracks : List TrackProto) : Disc :=
  tracks.foldl (fun disc track => disc.push track) ⟨number, "", []⟩

theorem discFrom_concat (number : Int) (tracks : List TrackProto) (track : TrackProto) :
    discFrom number (tracks ++ [track]) = (discFrom number tracks).push track := by
  rw [discFrom, List.foldl_append]
  rfl

theorem discFrom_eq (number : Int) (tracks : List TrackProto) :
    discFrom number tracks = ⟨number, headingOf tracks, tracks⟩ := by
  induction tracks using List.reverseRecOn with
  | nil => rfl
  | append_singleton tracks track ih =>
    rw [discFrom_concat, ih]
    unfold Disc.push headingOf
    by_cases empty : track.discSubtitle = "" <;> simp [empty]

/-- The map has the groups of the tracks by disc. -/
theorem byNumber_eq (tracks : List TrackProto) :
    byNumber tracks = (groupOn discOf tracks).map fun g => discFrom g.1 g.2 := by
  induction tracks using List.reverseRecOn with
  | nil => rfl
  | append_singleton tracks track ih =>
    have pushed : byNumber (tracks ++ [track]) = upsertOn Disc.number (Disc.push track)
        (Disc.push track ⟨discOf track, "", []⟩) (byNumber tracks) := by
      rw [byNumber, List.foldl_append]
      rfl
    have keys : ∀ g : Int × List TrackProto, Disc.number (discFrom g.1 g.2) = g.1 :=
      fun g => congrArg Disc.number (discFrom_eq g.1 g.2)
    have merges : ∀ g : Int × List TrackProto,
        discFrom g.1 (g.2 ++ [track]) = Disc.push track (discFrom g.1 g.2) :=
      fun g => discFrom_concat g.1 g.2 track
    rw [pushed, ih, groupOn_concat]
    exact Eq.symm (map_upsertOn keys merges)

/-- A disc has the tracks of its number, in order, and the last of their headings. -/
theorem mem_discs_iff : d ∈ discs tracks ↔ (∃ t ∈ tracks, discOf t = d.number) ∧
    d.tracks = (tracks.filter fun t => discOf t = d.number) ∧ d.heading = headingOf d.tracks := by
  have collected := groupOn_collected discOf tracks
  rw [discs, List.mem_mergeSort, byNumber_eq, List.mem_map]
  constructor
  · rintro ⟨⟨k, group⟩, listed, rfl⟩
    obtain ⟨t, rest, nonempty⟩ := List.exists_cons_of_ne_nil (collected.some_ _ listed)
    have own : group = tracks.filter fun t => discOf t = k := collected.group _ listed
    have first : t ∈ group := by
      rw [show group = t :: rest from nonempty]
      exact List.mem_cons_self
    simp only [discFrom_eq]
    rw [own, List.mem_filter] at first
    exact ⟨⟨t, first.1, by simpa using first.2⟩, own, trivial⟩
  · rintro ⟨⟨t, ht, number⟩, own, heading⟩
    obtain ⟨⟨k, group⟩, listed, keyed⟩ := collected.all t ht
    have same : group = tracks.filter fun t => discOf t = k := collected.group _ listed
    refine ⟨_, listed, ?_⟩
    have here : k = d.number := keyed.trans number
    subst here
    show discFrom d.number group = d
    rw [discFrom_eq, same, ← own, ← heading]

theorem discs_increasing (tracks : List TrackProto) :
    (discs tracks).Pairwise fun a b => a.number < b.number := by
  have sorted : (discs tracks).Pairwise fun a b => decide (a.number ≤ b.number) = true :=
    List.pairwise_mergeSort (fun a b c => by simpa using le_trans)
      (fun a b => by simpa using le_total _ _) (byNumber tracks)
  have distinct : ((discs tracks).map Disc.number).Nodup := by
    have perm : (discs tracks).Perm (byNumber tracks) := List.mergeSort_perm _ _
    rw [(perm.map Disc.number).nodup_iff, byNumber_eq, List.map_map]
    have keys : (groupOn discOf tracks).map (Disc.number ∘ fun g => discFrom g.1 g.2) =
        (groupOn discOf tracks).map Prod.fst :=
      List.map_congr_left fun g _ => congrArg Disc.number (discFrom_eq g.1 g.2)
    rw [keys]
    exact (groupOn_collected discOf tracks).keys
  refine sorted.imp₂ (fun a b le ne => lt_of_le_of_ne (of_decide_eq_true le) ne) ?_
  exact List.pairwise_map.mp distinct

/-- One disc after the other, the tracks stay in the order in which they were served. -/
theorem discs_flatten (sorted : tracks.Pairwise fun a b => discOf a ≤ discOf b) :
    (discs tracks).flatMap Disc.tracks = tracks := by
  have own : (discs tracks).flatMap Disc.tracks =
      ((discs tracks).map Disc.number).flatMap fun k => tracks.filter fun t => discOf t = k := by
    rw [List.flatMap_map]
    exact List.flatMap_congr fun d hd => (mem_discs_iff.mp hd).2.1
  rw [own]
  refine flatMap_filter_eq (List.pairwise_map.mpr (discs_increasing tracks)) sorted ?_
  intro t ht
  have listed : (⟨discOf t, headingOf (tracks.filter fun a => discOf a = discOf t),
      tracks.filter fun a => discOf a = discOf t⟩ : Disc) ∈ discs tracks :=
    mem_discs_iff.mpr ⟨⟨t, ht, rfl⟩, rfl, rfl⟩
  exact List.mem_map_of_mem listed

/-! ### Lengths -/

/-- The nanoseconds of seconds and nanoseconds. -/
def nanoseconds (d : Int × Int) : Int := d.1 * 1000000000 + d.2

/-- A length that is not negative comes through the message. -/
theorem nanoseconds_new {n : Int} (nonneg : 0 ≤ n) (fits : n < 2 ^ 63) :
    nanoseconds ((DurationProto.new n).seconds.toInt, (DurationProto.new n).nanos.toInt) = n ∧
      0 ≤ (DurationProto.new n).nanos.toInt := by
  have seconds : (DurationProto.new n).seconds.toInt = n / 1000000000 := by
    rw [DurationProto.new, Int.tdiv_eq_ediv_of_nonneg nonneg]
    refine Int64.toInt_ofInt_of_le ?_ ?_ <;> omega
  have nanos : (DurationProto.new n).nanos.toInt = n % 1000000000 := by
    rw [DurationProto.new, Int.tmod_eq_emod_of_nonneg nonneg]
    refine Int32.toInt_ofInt_of_le ?_ ?_ <;> omega
  rw [seconds, nanos, nanoseconds]
  omega

/-- No nanosecond is lost in a sum, and it is in normal form. -/
theorem nanoseconds_sum {ds : List DurationProto} (nonneg : ∀ d ∈ ds, 0 ≤ d.nanos.toInt) :
    nanoseconds (sumDurations ds) =
        (ds.map fun d => nanoseconds (d.seconds.toInt, d.nanos.toInt)).sum ∧
      0 ≤ (sumDurations ds).2 ∧ (sumDurations ds).2 < 1000000000 := by
  have positive : 0 ≤ (ds.map fun d => d.nanos.toInt).sum := by
    refine List.sum_nonneg fun n hn => ?_
    obtain ⟨d, hd, rfl⟩ := List.mem_map.mp hn
    exact nonneg d hd
  have split : (ds.map fun d => nanoseconds (d.seconds.toInt, d.nanos.toInt)).sum =
      (ds.map fun d => d.seconds.toInt).sum * 1000000000 +
        (ds.map fun d => d.nanos.toInt).sum := by
    have scaled : (ds.map fun d => d.seconds.toInt * 1000000000).sum =
        (ds.map fun d => d.seconds.toInt).sum * 1000000000 :=
      List.sum_map_mul_right ds (fun d => d.seconds.toInt) 1000000000
    rw [← scaled]
    exact List.sum_map_add
  rw [split, sumDurations, Int.tmod_eq_emod_of_nonneg positive]
  simp only [nanoseconds]
  omega

/-! ### The page -/

/-- What the page of an album shows of its tracks: each of them once, in disc, track and ID order,
under the disc that it is on, and how long they are together. -/
structure ShowsDiscs (db : Database) (albumID : UUID) (items : List TrackProto) : Prop where
  all : ShowsAlbum db albumID ((discs items).flatMap Disc.tracks)
  increasing : (discs items).Pairwise fun a b => a.number < b.number
  own : ∀ d ∈ discs items, d.tracks ≠ [] ∧ (∀ t ∈ d.tracks, discOf t = d.number) ∧
    d.heading = headingOf d.tracks
  length : nanoseconds (sumDurations (items.map TrackProto.duration)) =
    ((albumTracks db albumID).map fun t => t.details.duration).sum

theorem discOf_le {a b : Track} (before : place a < place b)
    (disc : 0 ≤ a.details.discNumber ∧ a.details.discNumber < 2 ^ 31)
    (disc' : 0 ≤ b.details.discNumber ∧ b.details.discNumber < 2 ^ 31) :
    discOf (trackProto a) ≤ discOf (trackProto b) := by
  have le : a.details.discNumber ≤ b.details.discNumber := by
    rcases Prod.Lex.lt_iff.mp before with first | ⟨same, _⟩
    · exact le_of_lt first
    · exact le_of_eq same
  have read : (trackProto a).discNumber.toInt = a.details.discNumber :=
    (toInt_ofInt_iff disc.1).mpr disc.2
  have read' : (trackProto b).discNumber.toInt = b.details.discNumber :=
    (toInt_ofInt_iff disc'.1).mpr disc'.2
  unfold discOf
  rw [read, read']
  split <;> split <;> omega

end Byom.Ui
