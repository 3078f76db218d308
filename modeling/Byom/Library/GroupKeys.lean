import Byom.Encoding.Utf8
import Byom.Library.UUIDText
import Byom.Text.Words

/-!
# Group keys

The buffer that `AlbumGroupKey` hashes, in bytes: a title may have any bytes, but those of
the artist IDs are hexadecimal digits and dashes.
-/

namespace Byom.Library

open Storage Encoding

/-- What the key of an album is made of: the IDs of its artists and the bytes of its
title. -/
structure Release where
  artistIDs : List UUID
  title : List UInt8
  deriving DecidableEq, Repr

def textBytes (s : String) : List UInt8 := Utf8.bytes s.toList

/-- The loop of `AlbumGroupKey` over the artists. -/
def appendArtists : List UUID → Bool → List UInt8 → Except String (List UInt8)
  | [], _, buf => .ok buf
  | id :: rest, first, buf =>
    if id = .nil then .error "album contains nil artist ID"
    else appendArtists rest false ((if first then buf else buf ++ [0x2f]) ++ textBytes id.string)

/-- The title, or the placeholder for none. -/
def Release.shownTitle (r : Release) : List UInt8 :=
  if r.title ≠ [] then r.title else textBytes "[Unknown Album]"

theorem shownTitle_eq (r : Release) :
    r.shownTitle = if r.title = [] then textBytes "[Unknown Album]" else r.title := by
  simp [Release.shownTitle]

/-- `fmt.Sprintf("%x", sum)`. -/
def hex (sum : UInt64) : String := String.ofList (Nat.toDigits 16 sum.toNat)

/-- `AlbumGroupKey`. -/
def groupKey (sum64 : List UInt8 → UInt64) (r : Release) : Except String String := do
  let buf ← appendArtists r.artistIDs true []
  .ok (hex (sum64 (buf ++ [0] ++ r.shownTitle)))

/-- The buffer of a release whose IDs are not nil. -/
def Release.buffer (r : Release) : List UInt8 :=
  [0x2f].intercalate (r.artistIDs.map fun id => textBytes id.string) ++ 0 :: r.shownTitle

/-! ### Digits -/

theorem hexNumber_append (xs ys : List Char) (n : Nat) :
    UUID.hexNumber (xs ++ ys) n = (UUID.hexNumber xs n).bind (UUID.hexNumber ys) := by
  induction xs generalizing n with
  | nil => rfl
  | cons c xs ih =>
    rw [List.cons_append, UUID.hexNumber, UUID.hexNumber]
    cases UUID.hexValue c with
    | none => rfl
    | some d => exact ih _

theorem hexNumber_toDigits (n : Nat) : UUID.hexNumber (Nat.toDigits 16 n) 0 = some n := by
  induction n using Nat.strongRecOn with
  | ind n ih =>
    by_cases small : n < 16
    · rw [Nat.toDigits_of_lt_base small, UUID.hexNumber, UUID.hexValue_digitChar n small]
      simp [UUID.hexNumber]
    · have digit := UUID.hexValue_digitChar (n % 16) (Nat.mod_lt _ (by decide))
      rw [Nat.toDigits_of_base_le (by decide) (by omega), hexNumber_append, ih _ (by omega)]
      simp only [Option.bind_some, UUID.hexNumber, digit, Option.bind_eq_bind]
      congr 1
      omega

theorem hex_injective {a b : UInt64} (same : hex a = hex b) : a = b := by
  have digits := congrArg (fun s : String => UUID.hexNumber s.toList 0) same
  simp only [hex, String.toList_ofList, hexNumber_toDigits] at digits
  exact UInt64.toNat.inj (Option.some.inj digits)

/-! ### The bytes of an ID -/

def idCharacters : List Char :=
  ['0', '1', '2', '3', '4', '5', '6', '7', '8', '9', 'a', 'b', 'c', 'd', 'e', 'f', '-']

theorem string_characters (id : UUID) : ∀ c ∈ id.string.toList, c ∈ idCharacters := by
  have digit : ∀ d < 16, Nat.digitChar d ∈ idCharacters := by decide
  have digits : ∀ c ∈ (List.range 32).map (UUID.hexDigit id), c ∈ idCharacters := by
    intro c hc
    obtain ⟨i, _, rfl⟩ := List.mem_map.mp hc
    exact digit _ (Nat.mod_lt _ (by decide))
  rw [UUID.string, String.toList_ofList]
  apply Text.forall_mem_intercalate
  · exact List.forall_mem_singleton.mpr (by decide)
  · intro part hpart c hc
    apply digits
    simp only [List.mem_cons, List.not_mem_nil, or_false] at hpart
    rcases hpart with rfl | rfl | rfl | rfl | rfl
    · exact List.mem_of_mem_take hc
    · exact List.mem_of_mem_drop (List.mem_of_mem_take hc)
    · exact List.mem_of_mem_drop (List.mem_of_mem_take hc)
    · exact List.mem_of_mem_drop (List.mem_of_mem_take hc)
    · exact List.mem_of_mem_drop hc

/-- No byte of an ID is a separator. -/
theorem idBytes_plain (id : UUID) : ∀ b ∈ textBytes id.string, b ≠ 0x2f ∧ b ≠ 0 := by
  have plain : (idCharacters.all fun c =>
      (String.utf8EncodeChar c).all fun b => b ≠ 0x2f ∧ b ≠ 0) = true := by decide
  simp only [List.all_eq_true, decide_eq_true_eq] at plain
  intro b hb
  obtain ⟨c, hc, inside⟩ := List.mem_flatMap.mp hb
  exact plain c (string_characters id c hc) b inside

theorem textBytes_injective {s t : String} (same : textBytes s = textBytes t) : s = t := by
  have read := congrArg Utf8.clean same
  rw [textBytes, textBytes, Utf8.clean_bytes, Utf8.clean_bytes] at read
  exact String.toList_inj.mp read

theorem string_injective {a b : UUID} (same : a.string = b.string) : a = b := by
  have read := UUID.parse_string a
  rw [same, UUID.parse_string b] at read
  exact (Option.some.inj read).symm

theorem idBytes_ne_nil (id : UUID) : textBytes id.string ≠ [] := by
  intro empty
  have none_ : id.string = "" := textBytes_injective empty
  have read := UUID.parse_string id
  rw [none_] at read
  cases read

/-! ### The buffer -/

variable {ids : List UUID} {first : Bool} {buf : List UInt8}

theorem appendArtists_error (missing : .nil ∈ ids) (first : Bool) (buf : List UInt8) :
    appendArtists ids first buf = .error "album contains nil artist ID" := by
  induction ids generalizing first buf with
  | nil => cases missing
  | cons id rest ih =>
    rw [appendArtists]
    split
    · rfl
    · rename_i there
      rcases List.mem_cons.mp missing with rfl | later
      · exact absurd rfl there
      · exact ih later _ _

theorem appendArtists_more (there : .nil ∉ ids) (buf : List UInt8) :
    appendArtists ids false buf =
      .ok (buf ++ ids.flatMap fun id => 0x2f :: textBytes id.string) := by
  induction ids generalizing buf with
  | nil => simp [appendArtists]
  | cons id rest ih =>
    obtain ⟨own, later⟩ := not_or.mp (List.mem_cons.not.mp there)
    rw [appendArtists, if_neg (Ne.symm own), ih later]
    simp

theorem appendArtists_ok (there : .nil ∉ ids) :
    appendArtists ids true [] =
      .ok ([0x2f].intercalate (ids.map fun id => textBytes id.string)) := by
  cases ids with
  | nil => rfl
  | cons id rest =>
    obtain ⟨own, later⟩ := not_or.mp (List.mem_cons.not.mp there)
    rw [appendArtists, if_neg (Ne.symm own), appendArtists_more later, List.map_cons,
      Text.intercalate_cons_flatMap, List.flatMap_map]
    rfl

theorem groupKey_ok (sum64 : List UInt8 → UInt64) {r : Release} (there : .nil ∉ r.artistIDs) :
    groupKey sum64 r = .ok (hex (sum64 r.buffer)) := by
  rw [groupKey, appendArtists_ok there]
  simp [Release.buffer, bind, Except.bind]

/-- The buffer has the IDs and the title. -/
theorem buffer_inj {a b : Release} (same : a.buffer = b.buffer) :
    a.artistIDs = b.artistIDs ∧ a.shownTitle = b.shownTitle := by
  have noNull : ∀ ids : List UUID,
      0 ∉ [0x2f].intercalate (ids.map fun id => textBytes id.string) := by
    intro ids null
    refine Text.forall_mem_intercalate (P := fun b : UInt8 => b ≠ 0) ?_ ?_ _ null rfl
    · exact List.forall_mem_singleton.mpr (by decide)
    · intro s hs b hb
      obtain ⟨id, _, rfl⟩ := List.mem_map.mp hs
      exact (idBytes_plain id b hb).2
  rw [Release.buffer, Release.buffer, Text.append_separator_inj (noNull _) (noNull _)] at same
  refine ⟨?_, same.2⟩
  have texts := Text.intercalate_inj ?_ same.1
  · exact List.map_injective_iff.mpr
      (fun _ _ equal => string_injective (textBytes_injective equal)) texts
  · intro w hw
    rw [← List.map_append] at hw
    obtain ⟨id, _, rfl⟩ := List.mem_map.mp hw
    exact ⟨idBytes_ne_nil id, fun slash => (idBytes_plain id _ slash).1 rfl⟩

/-! ### Texts in bytes -/

theorem textBytes_append (s t : String) : textBytes (s ++ t) = textBytes s ++ textBytes t := by
  rw [textBytes, String.toList_append]
  exact List.flatMap_append

theorem bytes_intercalate (sep : List Char) (ws : List (List Char)) :
    Utf8.bytes (sep.intercalate ws) = (Utf8.bytes sep).intercalate (ws.map Utf8.bytes) := by
  induction ws with
  | nil => rfl
  | cons w ws ih =>
    cases ws with
    | nil => simp
    | cons v ws =>
      rw [List.map_cons] at ih
      rw [List.intercalate_cons_cons, List.map_cons, List.map_cons, List.intercalate_cons_cons,
        ← ih]
      simp only [Utf8.bytes, List.flatMap_append]

theorem textBytes_eq_nil_iff {s : String} : textBytes s = [] ↔ s = "" := by
  constructor
  · intro empty
    exact textBytes_injective empty
  · rintro rfl
    rfl

/-- The key of the catalog is this one, for the bytes of its texts. -/
theorem albumGroupKey_eq (sum64 : List UInt8 → UInt64) (al : Album) :
    albumGroupKey (fun s => sum64 (textBytes s)) al =
      groupKey sum64 ⟨al.artists.map AlbumArtist.artistID, textBytes al.details.title⟩ := by
  have nilID : (al.artists.any fun a => a.artistID = .nil) = true ↔
      .nil ∈ al.artists.map AlbumArtist.artistID := by
    simp
  rw [albumGroupKey]
  by_cases missing : .nil ∈ al.artists.map AlbumArtist.artistID
  · rw [if_pos (nilID.mpr missing), groupKey, appendArtists_error missing]
    rfl
  · have slash : Utf8.bytes "/".toList = [0x2f] := by decide
    have null : textBytes "\x00" = [0] := by decide
    have ids : textBytes ("/".intercalate (al.artists.map fun a => a.artistID.string)) =
        [0x2f].intercalate ((al.artists.map AlbumArtist.artistID).map fun id =>
          textBytes id.string) := by
      rw [textBytes, String.toList_intercalate, bytes_intercalate, slash]
      simp only [List.map_map]
      rfl
    have title : textBytes
        (if al.details.title ≠ "" then al.details.title else "[Unknown Album]") =
        Release.shownTitle ⟨al.artists.map AlbumArtist.artistID, textBytes al.details.title⟩ := by
      by_cases untitled : al.details.title = ""
      · rw [if_neg (not_not.mpr untitled), Release.shownTitle,
          if_neg (not_not.mpr (textBytes_eq_nil_iff.mpr untitled))]
      · rw [if_pos untitled, Release.shownTitle,
          if_pos (fun empty => untitled (textBytes_eq_nil_iff.mp empty))]
    rw [if_neg (fun found => missing (nilID.mp found)), groupKey_ok sum64 missing,
      Release.buffer, ← ids, ← title]
    simp only [textBytes_append, null, List.append_assoc]
    rfl

/-- Albums have one key exactly if they have the same artists and the same title, no title being
that of an unknown album. -/
theorem groupKey_identifies (sum64 : List UInt8 → UInt64) (a b : Release)
    (noCollision : sum64 a.buffer = sum64 b.buffer → a.buffer = b.buffer) :
    (.nil ∉ a.artistIDs → .nil ∉ b.artistIDs →
        (groupKey sum64 a = groupKey sum64 b ↔ a.artistIDs = b.artistIDs ∧
          (if a.title = [] then textBytes "[Unknown Album]" else a.title) =
            if b.title = [] then textBytes "[Unknown Album]" else b.title)) ∧
      ((∃ err, groupKey sum64 a = .error err) ↔ .nil ∈ a.artistIDs) := by
  refine ⟨?_, ?_⟩
  · intro thereA thereB
    rw [groupKey_ok sum64 thereA, groupKey_ok sum64 thereB, ← shownTitle_eq, ← shownTitle_eq]
    constructor
    · intro same
      exact buffer_inj (noCollision (hex_injective (Except.ok.inj same)))
    · rintro ⟨ids, title⟩
      rw [Release.buffer, Release.buffer, ids, title]
  · constructor
    · rintro ⟨err, failed⟩
      by_contra there
      rw [groupKey_ok sum64 there] at failed
      cases failed
    · intro missing
      exact ⟨_, by rw [groupKey, appendArtists_error missing]; rfl⟩

def solo : Release := ⟨[1#128], [0x4c, 0x2f, 0, 0xff]⟩

def duet : Release := ⟨[1#128, 2#128], []⟩

def duetUnknown : Release := ⟨[1#128, 2#128], textBytes "[Unknown Album]"⟩

/-- The sums of the buffers. -/
def twoSums (buf : List UInt8) : UInt64 :=
  if buf = solo.buffer then 0xfc435c0bf71c89dc else 0x4864ab978daa832b

theorem solo_apart_duet : groupKey twoSums solo ≠ groupKey twoSums duet ∧
    groupKey twoSums duet = groupKey twoSums duetUnknown := by
  have apart : solo.buffer ≠ duet.buffer := by decide +kernel
  have titled : duet.buffer = duetUnknown.buffer := by decide +kernel
  have keys := (groupKey_identifies twoSums solo duet (by
    intro same
    rw [twoSums, twoSums, if_pos rfl, if_neg apart.symm] at same
    exact absurd same (by decide))).1 (by decide) (by decide)
  have shown := (groupKey_identifies twoSums duet duetUnknown fun _ => titled).1 (by decide)
    (by decide)
  rw [ne_eq, keys, shown]
  decide

end Byom.Library
