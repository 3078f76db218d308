import Mathlib.Data.List.Infix
import Byom.Metadata.NormTags

/-!
# Credited names

The names that `mapCredits` and `mapAlbumArtists` read off normalized tags. Cleaning and
each round of cuts leave trimmed parts of a value, and no part has what an earlier round
removed.
-/

namespace Byom.Metadata

open Library

/-- Splits values on the "Artist A / Artist B" convention. -/
def splitArtistValues (values : List String) : List String := splitValues values [" / "]

def artistNames (tags : Tags) (tag : String) : List String :=
  splitArtistValues (firstMatching tags [tag])

def tagRoles : List (String × String) :=
  [("ARRANGER", "Arranger"), ("COMPOSER", "Composer"), ("CONDUCTOR", "Conductor"),
    ("ENGINEER", "Engineer"), ("LYRICIST", "Lyricist"), ("PERFORMER", "Performer"),
    ("PRODUCER", "Producer")]

/-- `strings.Cut`. -/
def cutString (s sep : String) : Option (String × String) :=
  (Text.cutFirst sep.toList s.toList).map fun (before, after) =>
    (String.ofList before, String.ofList after)

def parseCredit (s : String) : Option Credit := do
  let (name, role) ← cutString s " - "
  let name := trimSpace name
  let role := trimSpace role
  if name = "" ∨ role = "" then none else some ⟨name, role⟩

def artistCredits (tags : Tags) : List Credit :=
  (artistNames tags "ARTIST").map fun name => ⟨name, "Performer"⟩

def roleCredits (tags : Tags) (tr : String × String) : List Credit :=
  (firstMatching tags [tr.1]).map fun name => ⟨name, tr.2⟩

def personnelCredits (tags : Tags) : List Credit :=
  (firstMatching tags ["PERSONNEL"]).filterMap parseCredit

def mapCredits (tags : Tags) : List Credit :=
  artistCredits tags ++ tagRoles.flatMap (roleCredits tags) ++ personnelCredits tags

def mapAlbumArtists (tags : Tags) : List Credit :=
  let artists := (artistNames tags "ALBUMARTIST").map fun name => Credit.mk name ""
  if artists ≠ [] then artists
  else
    match artistNames tags "ARTIST" with
    | [name] => [⟨name, ""⟩]
    | _ => []

/-- `strings.Contains`. -/
def Contains (s part : String) : Prop := part.toList <:+: s.toList

/-- Not empty, without white space at the ends, and without NUL, `;` and double backslashes. -/
structure CleanName (name : String) : Prop where
  trimmed : Text.Trimmed isSpace name.toList
  noNull : ¬Contains name "\x00"
  noDelims : ∀ delim ∈ [";", "\\\\"], ¬Contains name delim

/-- The values of the last entry visited for a key. -/
def lastValues (upper : Char → Char) (order : List (String × List String)) (key : String) :
    List String :=
  ((order.reverse.find? fun entry => upperKey upper entry.1 = key).map Prod.snd).getD []

/-- The values without NULs, trimmed, and without the blank ones. -/
def cleanTexts (values : List String) : List (List Char) :=
  values.filterMap fun v => Text.trimmed isSpace (v.toList.filter fun c => c ≠ '\x00')

/-- The trimmed pieces between `;` and double backslashes, without the blank ones. -/
def pieces (values : List (List Char)) : List String :=
  values.flatMap fun v =>
    ((Text.splitEither [';'] ['\\', '\\'] v).filterMap (Text.trimmed isSpace)).map String.ofList

/-- The pieces of the cleaned values of a key. -/
def piecesOf (upper : Char → Char) (order : List (String × List String)) (key : String) :
    List String :=
  pieces (cleanTexts (lastValues upper order key))

/-- The pieces cut at slashes as well. -/
def artistPiecesOf (upper : Char → Char) (order : List (String × List String)) (key : String) :
    List String :=
  (piecesOf upper order key).flatMap fun piece =>
    ((Text.split " / ".toList piece.toList).filterMap (Text.trimmed isSpace)).map String.ofList

/-- What the credits of normalized tags are. -/
structure CreditsClean (upper : Char → Char) (order : List (String × List String)) (tags : Tags) :
    Prop where
  clean : ∀ c ∈ mapCredits tags ++ mapAlbumArtists tags, CleanName c.creditedName
  artists : ∀ key ∈ ["ARTIST", "ALBUMARTIST"], ∀ name ∈ artistPiecesOf upper order key,
    ¬Contains name " / "
  /-- The artists, then the pieces of each role tag, then the personnel. -/
  credits : mapCredits tags = ((artistPiecesOf upper order "ARTIST").map fun name =>
      Credit.mk name "Performer") ++
    ([("ARRANGER", "Arranger"), ("COMPOSER", "Composer"), ("CONDUCTOR", "Conductor"),
      ("ENGINEER", "Engineer"), ("LYRICIST", "Lyricist"), ("PERFORMER", "Performer"),
      ("PRODUCER", "Producer")].flatMap fun tr =>
        (piecesOf upper order tr.1).map fun name => Credit.mk name tr.2) ++
    (piecesOf upper order "PERSONNEL").filterMap parseCredit
  /-- The album artists, or the one artist if there are none. -/
  albumArtists : (mapAlbumArtists tags).map Credit.creditedName =
    if artistPiecesOf upper order "ALBUMARTIST" ≠ [] then artistPiecesOf upper order "ALBUMARTIST"
    else if (artistPiecesOf upper order "ARTIST").length = 1 then
      artistPiecesOf upper order "ARTIST"
    else []
  /-- It does not matter at which delimiter values are cut first. -/
  eitherFirst : ∀ key, splitValues (cleanValues (lastValues upper order key)) [";", "\\\\"] =
      piecesOf upper order key ∧
    splitValues (cleanValues (lastValues upper order key)) ["\\\\", ";"] = piecesOf upper order key

/-! ### Rounds over texts -/

theorem trimSpace_eq (s : String) : trimSpace s = String.ofList (Text.trim isSpace s.toList) := rfl

theorem nonblank_ofList (p : List Char) :
    nonblank (String.ofList p) = (Text.trimmed isSpace p).map String.ofList := by
  unfold nonblank Text.trimmed
  rw [trimSpace_eq, String.toList_ofList]
  cases Text.trim isSpace p <;> simp [← String.toList_inj]

theorem nonblank_spec {s t : String} (h : nonblank s = some t) :
    Text.Trimmed isSpace t.toList ∧ Contains s t := by
  rw [← String.ofList_toList (s := s), nonblank_ofList] at h
  obtain ⟨p, kept, rfl⟩ := Option.map_eq_some_iff.mp h
  rw [Contains, String.toList_ofList]
  exact Text.trimmed_spec kept

theorem map_toList_ofList (parts : List (List Char)) :
    (parts.map String.ofList).map String.toList = parts := by
  simp [Function.comp_def]

/-- One more round. -/
theorem splitValues_concat (values joins : List String) (delim : String) :
    splitValues values (joins ++ [delim]) =
      (Text.round isSpace delim.toList ((splitValues values joins).map String.toList)).map
        String.ofList := by
  have each : ∀ chunk : String, (splitString chunk delim).filterMap nonblank =
      ((Text.split delim.toList chunk.toList).filterMap (Text.trimmed isSpace)).map
        String.ofList := by
    intro chunk
    rw [splitString, List.filterMap_map, List.map_filterMap]
    simp only [Function.comp_def, nonblank_ofList]
  rw [splitValues, List.foldl_append, Text.round, List.flatMap_map, List.map_flatMap]
  exact List.flatMap_congr fun chunk _ => each chunk

/-- The rounds leave parts of the values, without any of the delimiters. -/
theorem mem_splitValues {values joins : List String} {t : String}
    (h : t ∈ splitValues values joins) :
    (∃ v ∈ values, Contains v t) ∧
      ((∀ v ∈ values, Text.Trimmed isSpace v.toList) → Text.Trimmed isSpace t.toList) ∧
        ∀ delim ∈ joins, delim ≠ "" → ¬Contains t delim := by
  induction joins using List.reverseRecOn generalizing t with
  | nil => exact ⟨⟨t, h, List.infix_rfl⟩, fun all => all t h, by simp⟩
  | append_singleton joins delim ih =>
    rw [splitValues_concat] at h
    obtain ⟨p, hp, rfl⟩ := List.mem_map.mp h
    obtain ⟨trimmed, ⟨v, hv, inside⟩, without⟩ := Text.mem_round hp
    obtain ⟨w, hw, rfl⟩ := List.mem_map.mp hv
    obtain ⟨⟨source, hsource, whole⟩, _, earlier⟩ := ih hw
    simp only [Contains, String.toList_ofList] at whole earlier ⊢
    refine ⟨⟨source, hsource, inside.trans whole⟩, fun _ => trimmed, ?_⟩
    intro d hd some_
    rcases List.mem_append.mp hd with before | last
    · exact fun there => earlier d before some_ (there.trans inside)
    · obtain rfl := List.mem_singleton.mp last
      exact without fun empty => some_ (String.toList_eq_nil_iff.mp empty)

theorem contains_null_iff {s : String} : Contains s "\x00" ↔ '\x00' ∈ s.toList := by
  have null : "\x00".toList = ['\x00'] := by decide
  rw [Contains, null, List.singleton_infix_iff]

theorem mem_cleanValues {values : List String} {t : String} (h : t ∈ cleanValues values) :
    Text.Trimmed isSpace t.toList ∧ ¬Contains t "\x00" := by
  obtain ⟨s, _, kept⟩ := List.mem_filterMap.mp h
  obtain ⟨trimmed, inside⟩ := nonblank_spec kept
  refine ⟨trimmed, fun there => ?_⟩
  have left : '\x00' ∈ (removeNulls s).toList := inside.subset (contains_null_iff.mp there)
  simp [removeNulls] at left

theorem filterMap_nonblank (parts : List (List Char)) :
    (parts.filterMap fun piece => nonblank (String.ofList piece)) =
      (parts.filterMap (Text.trimmed isSpace)).map String.ofList := by
  simp only [nonblank_ofList, List.map_filterMap]

theorem cleanValues_eq (values : List String) :
    cleanValues values = (cleanTexts values).map String.ofList := by
  simp only [cleanValues, cleanTexts, removeNulls, nonblank_ofList, List.map_filterMap]

theorem map_cleanValues (values : List String) :
    (cleanValues values).map String.toList = cleanTexts values := by
  rw [cleanValues_eq, map_toList_ofList]

/-- Two rounds are one with the pieces that they cut. -/
theorem splitValues_two {first second : String} {d e : List Char}
    {parts : List Char → List (List Char)} (readFirst : first.toList = d)
    (readSecond : second.toList = e) (some_ : e ≠ []) (solid : ∀ c ∈ e, isSpace c = false)
    (cuts : ∀ s, (Text.split d s).flatMap (Text.split e) = parts s) (values : List String) :
    splitValues values [first, second] =
      values.flatMap fun v => (parts v.toList).filterMap fun piece =>
        nonblank (String.ofList piece) := by
  subst readFirst readSecond
  have one : splitValues values [first] =
      (Text.round isSpace first.toList (values.map String.toList)).map String.ofList :=
    splitValues_concat values [] first
  have two := splitValues_concat values [first] second
  rw [one, map_toList_ofList, Text.round_round some_ solid, List.flatMap_map,
    List.map_flatMap] at two
  refine two.trans (List.flatMap_congr fun v _ => ?_)
  rw [cuts, List.map_filterMap]
  simp only [nonblank_ofList]

/-- It does not matter which delimiter comes first. -/
theorem splitValues_delims (values : List String) :
    splitValues values [";", "\\\\"] = pieces (values.map String.toList) ∧
      splitValues values ["\\\\", ";"] = pieces (values.map String.toList) := by
  have semicolon : ";".toList = [';'] := by decide
  have slashes : "\\\\".toList = ['\\', '\\'] := by decide
  have apart : ';' ∉ ['\\', '\\'] := by decide
  have cuts := Text.flatMap_split ';' (List.cons_ne_nil _ _) apart
  have one : pieces (values.map String.toList) = values.flatMap fun v =>
      (Text.splitEither [';'] ['\\', '\\'] v.toList).filterMap fun piece =>
        nonblank (String.ofList piece) := by
    rw [pieces, List.flatMap_map]
    exact List.flatMap_congr fun v _ => (filterMap_nonblank _).symm
  rw [one]
  refine ⟨splitValues_two semicolon slashes ?_ ?_ (fun s => (cuts s).1) values,
    splitValues_two slashes semicolon ?_ ?_ (fun s => (cuts s).2) values⟩
  · exact List.cons_ne_nil _ _
  · exact List.forall_mem_cons.mpr ⟨by decide, List.forall_mem_singleton.mpr (by decide)⟩
  · exact List.cons_ne_nil _ _
  · exact List.forall_mem_singleton.mpr (by decide)

/-! ### The names of normalized tags -/

variable {upper : Char → Char} {order : List (String × List String)} {key : String}

theorem normValues_nil (key : String) : normValues key [] = [] := by
  unfold normValues
  split <;> rfl

theorem readTags_normTags (upper : Char → Char) (order : List (String × List String))
    (key : String) :
    readTags (normTags upper order) key = normValues key (lastValues upper order key) := by
  rw [readTags, normTags_eq, lastValues]
  cases order.reverse.find? fun entry => upperKey upper entry.1 = key with
  | none => exact (normValues_nil key).symm
  | some entry => rfl

theorem firstMatching_single (tags : Tags) (tag : String) :
    firstMatching tags [tag] = tags (normTagKey tag) := by
  rw [firstMatching]
  simp only [firstMatching]
  split
  · rename_i none_
    exact none_.symm
  · rfl

/-- Values of a splittable tag are clean. -/
theorem normValues_clean (splittable : key ∈ splittableTags) {values : List String} {t : String}
    (h : t ∈ normValues key values) : CleanName t := by
  rw [normValues, if_pos splittable] at h
  obtain ⟨⟨v, hv, inside⟩, trimmed, without⟩ := mem_splitValues h
  refine ⟨trimmed fun w hw => (mem_cleanValues hw).1, ?_, ?_⟩
  · exact fun null => (mem_cleanValues hv).2 (null.trans inside)
  · intro delim listed
    have some_ : ∀ d ∈ splitDelims, d ≠ "" := by decide
    exact without delim listed (some_ delim listed)

/-- The values of a tag, if the key of the lookup is its own upper case. -/
theorem firstMatching_normTags {tag : String} (own : normTagKey tag = tag) :
    firstMatching (readTags (normTags upper order)) [tag] =
      normValues tag (lastValues upper order tag) := by
  rw [firstMatching_single, own, readTags_normTags]

theorem CleanName.part {v t : String} (clean : CleanName v) (inside : Contains v t)
    (trimmed : Text.Trimmed isSpace t.toList) : CleanName t where
  trimmed := trimmed
  noNull := fun there => clean.noNull (there.trans inside)
  noDelims := fun delim listed there => clean.noDelims delim listed (there.trans inside)

/-- Names cut at " / ". -/
theorem splitArtistValues_clean {values : List String} (clean : ∀ v ∈ values, CleanName v)
    {t : String} (h : t ∈ splitArtistValues values) : CleanName t ∧ ¬Contains t " / " := by
  obtain ⟨⟨v, hv, inside⟩, trimmed, without⟩ := mem_splitValues h
  refine ⟨(clean v hv).part inside (trimmed fun w hw => (clean w hw).trimmed), ?_⟩
  exact without " / " (List.mem_singleton_self _) (by decide)

theorem parseCredit_clean {v : String} (clean : CleanName v) {c : Credit}
    (h : parseCredit v = some c) : CleanName c.creditedName := by
  obtain ⟨⟨name, role⟩, found, kept⟩ := Option.bind_eq_some_iff.mp h
  simp only at kept
  split at kept
  · cases kept
  · rename_i some_
    cases kept
    have named : nonblank name = some (trimSpace name) := by
      rw [nonblank]
      exact if_pos fun empty => some_ (.inl empty)
    obtain ⟨trimmed, inside⟩ := nonblank_spec named
    obtain ⟨⟨before, after⟩, front, same⟩ := Option.map_eq_some_iff.mp found
    cases same
    have leads : Contains v (String.ofList before) := by
      rw [Contains, String.toList_ofList]
      exact (Text.cutFirst_leads front).isInfix
    exact clean.part (inside.trans leads) trimmed

theorem artistNames_clean {tag : String} (own : normTagKey tag = tag)
    (splittable : tag ∈ splittableTags) :
    ∀ name ∈ artistNames (readTags (normTags upper order)) tag,
      CleanName name ∧ ¬Contains name " / " := by
  intro name h
  rw [artistNames, firstMatching_normTags own] at h
  exact splitArtistValues_clean (fun v hv => normValues_clean splittable hv) h

theorem artistCredits_clean : ∀ c ∈ artistCredits (readTags (normTags upper order)),
    CleanName c.creditedName := by
  intro c hc
  obtain ⟨name, listed, rfl⟩ := List.mem_map.mp hc
  exact (artistNames_clean (by decide) (by decide) name listed).1

theorem mapAlbumArtists_clean : ∀ c ∈ mapAlbumArtists (readTags (normTags upper order)),
    CleanName c.creditedName := by
  intro c hc
  unfold mapAlbumArtists at hc
  simp only at hc
  split at hc
  · obtain ⟨name, listed, rfl⟩ := List.mem_map.mp hc
    exact (artistNames_clean (by decide) (by decide) name listed).1
  · split at hc
    · rename_i name single
      obtain rfl := List.mem_singleton.mp hc
      have listed : name ∈ artistNames (readTags (normTags upper order)) "ARTIST" := by
        rw [single]
        exact List.mem_singleton_self _
      exact (artistNames_clean (by decide) (by decide) name listed).1
    · cases hc

/-- The tags of roles are looked up under their own names, and are cut. -/
theorem tagRoles_known : ∀ tr ∈ tagRoles, normTagKey tr.1 = tr.1 ∧ tr.1 ∈ splittableTags := by
  decide

theorem mapCredits_clean : ∀ c ∈ mapCredits (readTags (normTags upper order)),
    CleanName c.creditedName := by
  intro c hc
  rw [mapCredits, List.mem_append, List.mem_append] at hc
  rcases hc with (artist | role) | personnel
  · exact artistCredits_clean c artist
  · obtain ⟨tr, listed, member⟩ := List.mem_flatMap.mp role
    obtain ⟨name, hname, rfl⟩ := List.mem_map.mp member
    obtain ⟨own, splittable⟩ := tagRoles_known tr listed
    rw [firstMatching_normTags own] at hname
    exact normValues_clean splittable hname
  · obtain ⟨v, hv, parsed⟩ := List.mem_filterMap.mp personnel
    rw [firstMatching_normTags (by decide)] at hv
    exact parseCredit_clean (normValues_clean (by decide) hv) parsed

/-- The values of a splittable tag. -/
theorem firstMatching_pieces {tag : String} (own : normTagKey tag = tag)
    (splittable : tag ∈ splittableTags) :
    firstMatching (readTags (normTags upper order)) [tag] = piecesOf upper order tag := by
  rw [firstMatching_normTags own, normValues, if_pos splittable, piecesOf, ← map_cleanValues]
  exact (splitValues_delims _).1

theorem artistNames_eq {tag : String} (own : normTagKey tag = tag)
    (splittable : tag ∈ splittableTags) :
    artistNames (readTags (normTags upper order)) tag = artistPiecesOf upper order tag := by
  rw [artistNames, firstMatching_pieces own splittable, splitArtistValues, artistPiecesOf]
  simp only [splitValues, List.foldl_cons, List.foldl_nil, splitString, List.filterMap_map,
    Function.comp_def, filterMap_nonblank]

/-- For any map of raw tags, in any order of its entries. -/
theorem creditedNames_clean (upper : Char → Char) (order : List (String × List String)) :
    CreditsClean upper order (readTags (normTags upper order)) where
  clean c hc := by
    rcases List.mem_append.mp hc with track | album
    · exact mapCredits_clean c track
    · exact mapAlbumArtists_clean c album
  artists key listed name hname := by
    have known : ∀ key ∈ ["ARTIST", "ALBUMARTIST"], normTagKey key = key ∧
      key ∈ splittableTags := by decide
    obtain ⟨own, splittable⟩ := known key listed
    rw [← artistNames_eq own splittable] at hname
    exact (artistNames_clean own splittable name hname).2
  credits := by
    have roles : tagRoles.flatMap (roleCredits (readTags (normTags upper order))) =
        tagRoles.flatMap fun tr => (piecesOf upper order tr.1).map fun name =>
          Credit.mk name tr.2 := by
      refine List.flatMap_congr fun tr listed => ?_
      obtain ⟨own, splittable⟩ := tagRoles_known tr listed
      rw [roleCredits, firstMatching_pieces own splittable]
    rw [mapCredits, artistCredits, personnelCredits, roles,
      artistNames_eq (by decide) (by decide), firstMatching_pieces (by decide) (by decide)]
    rfl
  albumArtists := by
    rw [← artistNames_eq (by decide) (by decide), ← artistNames_eq (by decide) (by decide),
      mapAlbumArtists]
    by_cases named : artistNames (readTags (normTags upper order)) "ALBUMARTIST" = []
    · rw [named]
      cases artistNames (readTags (normTags upper order)) "ARTIST" with
      | nil => simp
      | cons name more => cases more <;> simp
    · simp [named, Function.comp_def]
  eitherFirst key := by
    rw [piecesOf, ← map_cleanValues]
    exact splitValues_delims _

end Byom.Metadata
