import Byom.Metadata.Tags

/-!
# Messages for clients

`trackProto` narrows the disc and track number of a track to 32 bits.
-/

namespace Byom.Rpc

open Storage Library Metadata

/-- `google.protobuf.Duration`. -/
structure DurationProto where
  seconds : Int64
  nanos : Int32
  deriving DecidableEq

/-- `durationpb.New`, of nanoseconds. -/
def DurationProto.new (d : Int) : DurationProto where
  seconds := .ofInt (d.tdiv 1000000000)
  nanos := .ofInt (d.tmod 1000000000)

structure AudioPropertiesProto where
  codec : String
  sampleRate : Int64
  bitDepth : Int64
  bitrate : Int64
  channels : Int64
  deriving DecidableEq

structure TrackCreditProto where
  artistID : String
  creditedName : String
  role : String
  deriving DecidableEq

structure TrackProto where
  id : String
  albumID : String
  title : String
  discNumber : Int32
  discSubtitle : String
  trackNumber : Int32
  releaseDate : String
  originalReleaseDate : String
  duration : DurationProto
  audio : AudioPropertiesProto
  credits : List TrackCreditProto
  deriving DecidableEq

def trackProto (t : Track) : TrackProto where
  id := t.id.string
  albumID := t.albumID.string
  title := t.details.title
  discNumber := .ofInt t.details.discNumber
  discSubtitle := t.details.discSubtitle
  trackNumber := .ofInt t.details.trackNumber
  releaseDate := t.details.releaseDate
  originalReleaseDate := t.details.originalReleaseDate
  duration := .new t.details.duration
  audio := {
    codec := t.details.audio.codec
    sampleRate := .ofInt t.details.audio.sampleRate
    bitDepth := .ofInt t.details.audio.bitDepth
    bitrate := .ofInt t.details.audio.bitrate
    channels := .ofInt t.details.audio.channels }
  credits := t.credits.map fun c => ⟨c.artistID.string, c.creditedName, c.role⟩

/-- The message of a track has the numbers that came from its tags, and they are in range. -/
def KeepsNumbers (md : TrackMetadata) (pb : TrackProto) : Prop :=
  pb.discNumber.toInt = md.discNumber ∧ pb.trackNumber.toInt = md.trackNumber ∧
    1 ≤ pb.discNumber.toInt ∧ 0 ≤ pb.trackNumber.toInt

instance (md : TrackMetadata) (pb : TrackProto) : Decidable (KeepsNumbers md pb) :=
  inferInstanceAs (Decidable (_ ∧ _ ∧ _ ∧ _))

/-- A number that is not negative fits below `2 ^ 31` only. -/
theorem toInt_ofInt_iff {n : Int} (nonneg : 0 ≤ n) : (Int32.ofInt n).toInt = n ↔ n < 2 ^ 31 := by
  have wraps : (Int32.ofInt n).toInt = n.bmod (2 ^ 32) := Int32.toInt_ofInt
  rw [wraps]
  constructor
  · intro same
    have below := Int.bmod_lt (x := n) (m := 2 ^ 32) (by decide)
    omega
  · intro fits
    apply Int.bmod_eq_of_le
    · omega
    · omega

theorem keepsNumbers_of_metadata (md : TrackMetadata) (pt : ParsedTrack) (t : Track) :
    KeepsNumbers md
        (trackProto { t with details := Importer.trackDetails { pt with metadata := md } }) ↔
      (Int32.ofInt md.discNumber).toInt = md.discNumber ∧
        (Int32.ofInt md.trackNumber).toInt = md.trackNumber ∧
          1 ≤ (Int32.ofInt md.discNumber).toInt ∧ 0 ≤ (Int32.ofInt md.trackNumber).toInt := by
  simp only [KeepsNumbers, trackProto, Importer.trackDetails]

/-- The numbers of a parsed track reach the client exactly if the digits of both tags denote
numbers below `2 ^ 31`. -/
theorem keepsNumbers_iff (tags : Tags) (pt : ParsedTrack) (t : Track) :
    KeepsNumbers (mapTrack tags) (trackProto { t with
        details := Importer.trackDetails { pt with metadata := mapTrack tags } }) ↔
      digitsValue (leadingDigits (firstValue tags ["DISCNUMBER"])) < 2 ^ 31 ∧
        digitsValue (leadingDigits (firstValue tags ["TRACKNUMBER"])) < 2 ^ 31 := by
  have discPos := discNumber_pos tags
  have trackPos := trackNumber_nonneg tags
  rw [keepsNumbers_of_metadata]
  simp only [mapTrack_discNumber, mapTrack_trackNumber]
  rw [← discNumber_lt_iff, ← trackNumber_lt_iff, ← toInt_ofInt_iff trackPos,
    ← toInt_ofInt_iff (Int.le_trans Int.one_nonneg discPos)]
  constructor
  · exact fun kept => ⟨kept.1, kept.2.1⟩
  · rintro ⟨sameDisc, sameTrack⟩
    refine ⟨sameDisc, sameTrack, ?_, ?_⟩
    · rw [sameDisc]
      exact discPos
    · rw [sameTrack]
      exact trackPos

def discTags (disc : String) : Tags := fun key => if key = "DISCNUMBER" then [disc] else []

def discTrack (disc : String) : ParsedTrack :=
  ⟨3, mapTrack (discTags disc), [], ⟨"flac", 44100, 16, 2, 900⟩, 180000000000, 0⟩

/-- The client sees the disc number `-2147483648`. -/
theorem hugeDisc_wraps : ¬KeepsNumbers (mapTrack (discTags "2147483648"))
    (trackProto ⟨1, 2, Importer.trackDetails (discTrack "2147483648"), [], 3, 0⟩) := by
  decide

end Byom.Rpc
