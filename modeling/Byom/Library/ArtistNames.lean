import Byom.Library.Catalog
import Byom.Text.Words

/-!
# Normalized artist names

The loop of `NormalizeArtistName` drops punctuation, splits at runs of separators, maps the
runes of each word and joins the words with hyphens.
-/

namespace Byom.Library

open Text

/-! ### Split, map and join -/

/-- Commas, quotes and backticks. -/
def ignoredPunctuation : List Char := ",'\"`‘’“”".toList

/-- Words are apart at dots, slashes, white space and dashes. -/
def separatesWords (r : Char) : Bool := r ∈ ['.', '/'] || isSpace r || isDash r

/-- A rune of a word: "and" for an ampersand, an o for an o with a slash, else its lower case. -/
def mapRune (u : Unicode) : Char → List Char
  | '&' => "and".toList
  | 'Ø' | 'ø' => ['o']
  | r => [u.toLower r]

def dropIgnored (rs : List Char) : List Char := rs.filter fun r => r ∉ ignoredPunctuation

/-- Split, map and join. -/
def hyphenWords (u : Unicode) (rs : List Char) : List Char :=
  ['-'].intercalate ((words separatesWords (dropIgnored rs)).map fun w => w.flatMap (mapRune u))

/-! ### What the loop asks of a rune -/

theorem isIgnored_eq (r : Char) : isIgnored r = decide (r ∈ ignoredPunctuation) := by
  have runes : ignoredPunctuation =
    [',', '\x27', '\x22', '\x60', '\u2018', '\u2019', '\u201c', '\u201d'] := by decide
  rw [runes]
  rfl

theorem isSeparator_eq : isSeparator = separatesWords := by
  funext r
  simp [isSeparator, separatesWords]

theorem spell_eq (u : Unicode) : spell u = mapRune u := by
  funext r
  unfold spell mapRune
  split
  · rename_i same
    subst same
    have letters : ['a', 'n', 'd'] = "and".toList := by decide
    exact letters
  · split
    · rename_i other stroke
      rcases stroke with rfl | rfl <;> rfl
    · rename_i other stroke
      split
      · exact absurd rfl other
      · exact absurd (.inl rfl) stroke
      · exact absurd (.inr rfl) stroke
      · rfl

def spellWord (u : Unicode) (w : List Char) : List Char := w.flatMap (spell u)

theorem dropIgnored_eq (rs : List Char) : dropIgnored rs = rs.filter fun r => !isIgnored r := by
  simp [dropIgnored, isIgnored_eq]

theorem hyphenWords_eq (u : Unicode) (rs : List Char) : hyphenWords u rs =
    ['-'].intercalate ((words isSeparator (dropIgnored rs)).map (spellWord u)) := by
  have map : spellWord u = fun w => w.flatMap (mapRune u) := by
    funext w
    rw [spellWord, spell_eq]
  rw [hyphenWords, isSeparator_eq, map]

/-! ### The loop -/

/-- Words that follow others. -/
def moreWords (u : Unicode) (ws : List (List Char)) : List Char :=
  ws.flatMap fun w => '-' :: spellWord u w

variable {u : Unicode} {rs written : List Char} {r : Char}

theorem spell_ne_nil (u : Unicode) (r : Char) : spell u r ≠ [] := by
  unfold spell
  split
  · exact List.cons_ne_nil _ _
  · split
    · exact List.cons_ne_nil _ _
    · exact List.cons_ne_nil _ _

theorem hyphenWords_cons {w : List Char} {ws : List (List Char)}
    (split : words isSeparator (dropIgnored rs) = w :: ws) :
    hyphenWords u rs = spellWord u w ++ moreWords u ws := by
  rw [hyphenWords_eq, split, List.map_cons, intercalate_cons_flatMap, List.flatMap_map]
  rfl

/-- The three states of the loop: between words, inside of one, and before the first. -/
structure LoopSpec (u : Unicode) (rs : List Char) : Prop where
  between : ∀ written ≠ [], normalizeRunes u rs written true =
    written ++ moreWords u (words isSeparator (dropIgnored rs))
  inside : ∀ written ≠ [], ∀ p ps, runPieces isSeparator (dropIgnored rs) = p :: ps →
    normalizeRunes u rs written false = written ++ spellWord u p ++ moreWords u (nonempty ps)
  before : normalizeRunes u rs [] false = hyphenWords u rs

theorem loopSpec_ignored (ignored : isIgnored r = true) (spec : LoopSpec u rs) :
    LoopSpec u (r :: rs) := by
  have same : dropIgnored (r :: rs) = dropIgnored rs := by simp [dropIgnored_eq, ignored]
  have step : ∀ written inSpace,
      normalizeRunes u (r :: rs) written inSpace = normalizeRunes u rs written inSpace := by
    intro written inSpace
    rw [normalizeRunes, if_pos ignored]
  refine ⟨?_, ?_, ?_⟩
  · intro written some_
    rw [step, same]
    exact spec.between written some_
  · intro written some_ p ps pieces
    rw [same] at pieces
    rw [step]
    exact spec.inside written some_ p ps pieces
  · rw [step, hyphenWords, same]
    exact spec.before

theorem loopSpec_separator (kept : isIgnored r = false) (sep : isSeparator r = true)
    (spec : LoopSpec u rs) : LoopSpec u (r :: rs) := by
  have cons : dropIgnored (r :: rs) = r :: dropIgnored rs := by simp [dropIgnored_eq, kept]
  have step : ∀ written inSpace, normalizeRunes u (r :: rs) written inSpace =
      normalizeRunes u rs written (inSpace || !written.isEmpty) := by
    intro written inSpace
    rw [normalizeRunes, if_neg (by simp [kept]), if_pos sep]
  refine ⟨?_, ?_, ?_⟩
  · intro written some_
    rw [step, Bool.true_or, cons, words_sep sep]
    exact spec.between written some_
  · intro written some_ p ps pieces
    obtain ⟨qs, cuts, rest⟩ := runPieces_sep sep (dropIgnored rs)
    rw [cons, cuts] at pieces
    obtain ⟨rfl, rfl⟩ := List.cons.inj pieces
    have there : (!written.isEmpty) = true := by simpa using some_
    rw [step, Bool.false_or, there, rest, spec.between written some_]
    simp [spellWord]
  · rw [step, hyphenWords_eq, cons, words_sep sep, ← hyphenWords_eq]
    exact spec.before

theorem loopSpec_word (kept : isIgnored r = false) (word : isSeparator r = false)
    (spec : LoopSpec u rs) : LoopSpec u (r :: rs) := by
  have cons : dropIgnored (r :: rs) = r :: dropIgnored rs := by simp [dropIgnored_eq, kept]
  have step : ∀ written inSpace, normalizeRunes u (r :: rs) written inSpace =
      normalizeRunes u rs ((if inSpace then written ++ ['-'] else written) ++ spell u r) false := by
    intro written inSpace
    rw [normalizeRunes, if_neg (by simp [kept]), if_neg (by simp [word])]
  cases pieces : runPieces isSeparator (dropIgnored rs) with
  | nil => exact absurd pieces (cut_ne_nil _ _ _)
  | cons p ps =>
    obtain ⟨cuts, split⟩ := words_char word pieces
    have spelled : ∀ written, written ++ spell u r ≠ [] := fun written =>
      List.append_ne_nil_of_right_ne_nil _ (spell_ne_nil u r)
    refine ⟨?_, ?_, ?_⟩
    · intro written _
      rw [step, if_pos rfl, spec.inside _ (spelled _) p ps pieces, cons, split]
      simp [moreWords, spellWord]
    · intro written _ q qs front
      rw [cons, cuts] at front
      obtain ⟨rfl, rfl⟩ := List.cons.inj front
      rw [step, if_neg (by decide), spec.inside _ (spelled _) p ps pieces]
      simp [spellWord]
    · rw [step, if_neg (by decide), spec.inside _ (spelled _) p ps pieces,
        hyphenWords_cons (cons ▸ split)]
      simp [spellWord]

/-- The loop, whatever it has written and skipped before. -/
theorem normalizeRunes_spec (u : Unicode) (rs : List Char) : LoopSpec u rs := by
  induction rs with
  | nil =>
    refine ⟨fun written _ => (List.append_nil _).symm, ?_, rfl⟩
    intro written _ p ps pieces
    cases pieces
    simp [normalizeRunes, spellWord, moreWords, nonempty]
  | cons r rs ih =>
    cases ignored : isIgnored r with
    | true => exact loopSpec_ignored ignored ih
    | false =>
      cases sep : isSeparator r with
      | true => exact loopSpec_separator ignored sep ih
      | false => exact loopSpec_word ignored sep ih

/-- No hyphen comes out of a word. -/
theorem hyphen_not_mem_spellWord
    (lowers : ∀ r, isSeparator r = false → isSeparator (u.toLower r) = false) {w : List Char}
    (word : ∀ r ∈ w, isSeparator r = false) : '-' ∉ spellWord u w := by
  intro there
  obtain ⟨r, hr, spelled⟩ := List.mem_flatMap.mp there
  unfold spell at spelled
  split at spelled
  · simp at spelled
  · split at spelled
    · simp at spelled
    · obtain same := List.mem_singleton.mp spelled
      have lowered := lowers r (word r hr)
      rw [← same] at lowered
      exact absurd lowered (by decide)

/-- `NormalizeArtistName` is split, map and join. -/
theorem normalizeArtistName_splitMapJoin (u : Unicode)
    (lowers : ∀ r, separatesWords r = false → separatesWords (u.toLower r) = false) :
    (∀ name, normalizeArtistName u name =
        String.ofList (hyphenWords u (u.stripDiacritics name).toList)) ∧
      (∀ name, NoStray '-' (normalizeArtistName u name).toList) ∧
      ∀ name name', SameRuns separatesWords (dropIgnored (u.stripDiacritics name).toList)
        (dropIgnored (u.stripDiacritics name').toList) →
          normalizeArtistName u name = normalizeArtistName u name' := by
  have same : ∀ name, normalizeArtistName u name =
      String.ofList (hyphenWords u (u.stripDiacritics name).toList) := fun name =>
    congrArg String.ofList (normalizeRunes_spec u _).before
  rw [← isSeparator_eq] at lowers ⊢
  refine ⟨same, ?_, ?_⟩
  · intro name
    rw [same, String.toList_ofList, hyphenWords_eq]
    apply noStray_intercalate
    · intro w hw
      obtain ⟨v, hv, rfl⟩ := List.mem_map.mp hw
      obtain ⟨c, v, rfl⟩ := List.exists_cons_of_ne_nil (words_spec hv).1
      exact List.append_ne_nil_of_left_ne_nil (spell_ne_nil u c) _
    · intro w hw
      obtain ⟨v, hv, rfl⟩ := List.mem_map.mp hw
      exact hyphen_not_mem_spellWord lowers (words_spec hv).2
  · intro name name' runs
    rw [same, same, hyphenWords_eq, hyphenWords_eq, runs.words_eq]

/-- Lower case within ASCII makes no separators. -/
theorem separatesWords_toLower (r : Char) (word : separatesWords r = false) :
    separatesWords r.toLower = false := by
  by_cases upper : r.val ≥ 'A'.val ∧ r.val ≤ 'Z'.val
  · have letters : ∀ n < 26, separatesWords (Char.ofNat (65 + n)).toLower = false := by decide
    have low : 65 ≤ r.toNat := UInt32.le_iff_toNat_le.mp upper.1
    have high : r.toNat ≤ 90 := UInt32.le_iff_toNat_le.mp upper.2
    have letter := letters (r.toNat - 65) (by omega)
    rwa [Nat.add_sub_cancel' low, Char.ofNat_toNat] at letter
  · have same : r.toLower = r := dif_neg upper
    rw [same]
    exact word

theorem asciiNames_splitMapJoin :
    let u : Unicode := ⟨id, Char.toLower⟩
    (∀ name, normalizeArtistName u name =
        String.ofList (hyphenWords u (u.stripDiacritics name).toList)) ∧
      (∀ name, NoStray '-' (normalizeArtistName u name).toList) ∧
      ∀ name name', SameRuns separatesWords (dropIgnored (u.stripDiacritics name).toList)
        (dropIgnored (u.stripDiacritics name').toList) →
          normalizeArtistName u name = normalizeArtistName u name' :=
  normalizeArtistName_splitMapJoin ⟨id, Char.toLower⟩ separatesWords_toLower

end Byom.Library
