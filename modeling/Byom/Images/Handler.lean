import Byom.Images.Safety

/-!
# The image handler

`GET /images/{hash}` answers with a year of caching and an `ETag` made of the hash and the
size. That is right as long as no two answers with one `ETag` differ, whenever they are given.
-/

namespace Byom.Images

open Storage Files Library Sqlite Relational Transition

/-! ### Requests and replies -/

/-- `strconv.Atoi`, for `int` of 64 bits. -/
def atoi (s : String) : Option Int :=
  let (negative, digits) : Bool × List Char :=
    match s.toList with
    | '-' :: cs => (true, cs)
    | '+' :: cs => (false, cs)
    | cs => (false, cs)
  if digits = [] ∨ digits.all Char.isDigit = false then none
  else
    let n : Int := Nat.ofDigitChars 10 digits 0
    let n := if negative then -n else n
    if -2 ^ 63 ≤ n ∧ n < 2 ^ 63 then some n else none

/-- `%v` of the sizes. -/
def sizesText : String := "[" ++ " ".intercalate (supportedSizes.map toString) ++ "]"

/-- A size that is absent stands for the original. -/
def parseSize (raw : String) : Except String Int :=
  if raw = "" then .ok 0
  else
    match atoi raw with
    | some n => if supportedSize n then .ok n else .error ("size must be one of " ++ sizesText)
    | none => .error ("size must be one of " ++ sizesText)

/-- `strconv.Quote` of `%s@%d`. It escapes nothing in a hash. -/
def etag (hash : String) (size : Int) : String := "\"" ++ hash ++ "@" ++ toString size ++ "\""

/-- `immutableCache` goes with every file. -/
inductive Reply where
  | badRequest (text : String)
  | notFound
  | internalError (text : String)
  | file (data : Bytes) (contentType etag : String)
  deriving DecidableEq

structure Request where
  hash : String
  size : String

/-- The call of `Open` that a request leads to. -/
def Request.open_ (r : Request) : Except Reply StoreAction :=
  match parseSize r.size with
  | .error text => .error (.badRequest text)
  | .ok size => .ok (.openImage r.hash size)

/-- The call is one that the request led to. -/
def Request.LedTo (r : Request) (call : Call) : Prop :=
  ∃ n stage, parseSize r.size = .ok n ∧ call = .opening r.hash n stage

/-- What is answered once the call is over. An error of `Open` may be that there is no such
file, and `Stat` may fail. -/
def Call.reply (absent statFails : Bool) : Call → Option Reply
  | .opening hash size .failed =>
    if !validHash hash then some (.badRequest "images: invalid content hash")
    else if size ≠ 0 && !supportedSize size then some (.badRequest "images: unsupported size")
    else if absent then some .notFound
    else some (.internalError "read image")
  | .opening hash size (.opened data mime) =>
    if statFails then some (.internalError "read image")
    else some (.file data mime (etag hash size))
  | _ => none

/-- The sizes that a request leads to are those of an original or of a derivative. -/
theorem parseSize_ok {raw : String} {n : Int} (parsed : parseSize raw = .ok n) :
    n = 0 ∨ n ∈ supportedSizes := by
  unfold parseSize at parsed
  split at parsed
  · cases parsed
    exact .inl rfl
  · split at parsed
    · split at parsed
      · rename_i supported
        cases parsed
        exact .inr (by simpa [supportedSize] using supported)
      · cases parsed
    · cases parsed

/-- The handler has checked the size before `Open` does. -/
theorem reply_supported {r : Request} {call : Call} (asked : r.LedTo call) {absent statFails : Bool} :
    call.reply absent statFails ≠ some (.badRequest "images: unsupported size") := by
  obtain ⟨n, stage, parsed, rfl⟩ := asked
  have sized : (n ≠ 0 && !supportedSize n) = false := by
    rcases parseSize_ok parsed with rfl | listed
    · rfl
    · simp [supportedSize, listed]
  intro replied
  cases stage with
  | failed =>
    simp only [Call.reply, sized, Bool.false_eq_true, if_false] at replied
    split at replied
    · simp at replied
    · split at replied <;> cases replied
  | opened data mime =>
    simp only [Call.reply] at replied
    split at replied <;> cases replied
  | _ => simp [Call.reply] at replied

theorem etag_inj {hash hash' : String} {size size' : Int} (valid : validHash hash = true)
    (valid' : validHash hash' = true) (same : etag hash size = etag hash' size') :
    hash = hash' ∧ size = size' := by
  have named : ∀ (h : String) (n : Int),
      (etag h n).toList = '"' :: (h.toList ++ ('@' :: (toString n).toList ++ ['"'])) := by
    intro h n
    simp [etag, String.toList_append]
  have text := congrArg String.toList same
  rw [named, named] at text
  have lengths := (length_of_validHash valid).trans (length_of_validHash valid').symm
  obtain ⟨first, rest⟩ := List.append_inj (List.cons.inj text).2 lengths
  refine ⟨String.toList_inj.mp first, ?_⟩
  have digits := List.append_cancel_right (List.cons.inj rest).2
  exact toString_int_inj (String.toList_inj.mp digits)

namespace Store

variable {k : Codec} {root : Path} {s s' : Store} {i : Nat} {call : Call} {sha : String}
  {size : Int} {data : Bytes} {mime : String}

theorem open_ledTo {r : Request} {a : StoreAction} (asked : r.open_ = .ok a)
    (h : s.step k root a = some s') : ∃ call, s'.calls = s.calls ++ [call] ∧ r.LedTo call := by
  unfold Request.open_ at asked
  split at asked
  · cases asked
  · rename_i n parsed
    cases asked
    cases h
    exact ⟨_, rfl, n, _, parsed, rfl⟩

/-! ### What is served -/

/-- The bytes that `Open` yields for a hash and a size, from what was added. -/
structure Content (k : Codec) (added : List Bytes) (sha : String) (size : Int) (data : Bytes)
    (mime : String) : Prop where
  valid : validHash sha = true
  made : ∃ original ∈ added, k.sha original = sha ∧
    (size = 0 ∧ data = original ∧ (k.probe original).map Prod.fst = some mime ∨
      size ∈ supportedSizes ∧ mime = "image/jpeg" ∧ k.resizeJPEG original size = .ok data)

theorem Content.mono {added added' : List Bytes} (more : added ⊆ added')
    (content : Content k added sha size data mime) : Content k added' sha size data mime := by
  obtain ⟨valid, original, hadded, made⟩ := content
  exact ⟨valid, original, more hadded, made⟩

/-- Without collisions a hash and a size have one content. -/
theorem Content.unique {added : List Bytes} {data' : Bytes} {mime' : String}
    (apart : ∀ a ∈ added, ∀ b ∈ added, k.sha a = k.sha b → a = b)
    (content : Content k added sha size data mime) (content' : Content k added sha size data' mime') :
    data = data' ∧ mime = mime' := by
  obtain ⟨_, a, ha, hash, made⟩ := content
  obtain ⟨_, b, hb, hash', made'⟩ := content'
  obtain rfl := apart a ha b hb (hash.trans hash'.symm)
  have unsized : (0 : Int) ∉ supportedSizes := by decide
  rcases made with ⟨rfl, rfl, probed⟩ | ⟨listed, rfl, resized⟩
  · rcases made' with ⟨_, rfl, probed'⟩ | ⟨listed', _⟩
    · exact ⟨rfl, Option.some.inj (probed.symm.trans probed')⟩
    · exact absurd listed' unsized
  · rcases made' with ⟨rfl, _⟩ | ⟨_, rfl, resized'⟩
    · exact absurd listed unsized
    · exact ⟨Except.ok.inj (resized.symm.trans resized'), rfl⟩

/-- What a call of `Open` will have served, by where it is. -/
def Serves (k : Codec) (added : List Bytes) : Call → Prop
  | .adding _ _ => True
  | .opening sha size stage =>
    match stage with
    | .failed => True
    | .original => validHash sha = true ∧ size = 0
    | .probing data => (validHash sha = true ∧ size = 0) ∧ data ∈ added ∧ k.sha data = sha
    | .opened data mime => Content k added sha size data mime
    | _ => validHash sha = true ∧ size ∈ supportedSizes

theorem Serves.mono {added added' : List Bytes} (more : added ⊆ added')
    (serves : Serves k added call) : Serves k added' call := by
  cases call with
  | adding data stage => trivial
  | opening sha size stage =>
    cases stage with
    | probing data => exact ⟨serves.1, more serves.2.1, serves.2.2⟩
    | opened data mime => exact Content.mono more serves
    | _ => exact serves

def AllServe (k : Codec) (s : Store) : Prop := ∀ call ∈ s.calls, Serves k s.added call

theorem AllServe.at (serve : s.AllServe k) (found : s.calls[i]? = some call) :
    Serves k s.added call := serve call (List.mem_of_getElem? found)

/-- One call goes on. -/
theorem AllServe.move (serve : s.AllServe k) (serves : Serves k s.added call) :
    (s.setCall i call).AllServe k := by
  intro d member
  obtain ⟨j, at_⟩ := List.mem_iff_getElem?.mp member
  rcases Transition.getElem?_set_cases at_ with ⟨_, rfl⟩ | ⟨_, before⟩
  · exact serves
  · exact serve.at before

/-- A call is made. -/
theorem AllServe.begin {added : List Bytes} (serve : s.AllServe k) (more : s.added ⊆ added)
    (serves : Serves k added call) :
    ({ s with calls := s.calls ++ [call], added } : Store).AllServe k := by
  intro d member
  rcases List.mem_append.mp member with old | new
  · exact (serve d old).mono more
  · rw [List.mem_singleton.mp new]
    exact serves

theorem openStage_serves (k : Codec) (added : List Bytes) (sha : String) (size : Int) :
    Serves k added (.opening sha size (openStage sha size)) := by
  unfold openStage
  split
  · trivial
  · rename_i valid
    have valid : validHash sha = true := by simpa using valid
    split
    · trivial
    · rename_i supported
      split
      · rename_i original
        exact ⟨valid, original⟩
      · rename_i resized
        exact ⟨valid, by simpa [resized, supportedSize] using supported⟩

/-- The write of a derivative goes on. -/
theorem Serves.withJob {job job' : Job Path} {added : List Bytes} (serves : Serves k added call)
    (writes : call.job = some job) : Serves k added (call.withJob job') := by
  cases call with
  | adding data stage => cases stage <;> trivial
  | opening sha size stage =>
    cases stage with
    | storing flight own => exact serves
    | _ => cases writes

theorem Content.of_derivative {out : Bytes} (disk : s.Disk k root) (valid : validHash sha = true)
    (stored : s.files (derivativePath root sha size) = some out) :
    Content k s.added sha size out "image/jpeg" := by
  obtain ⟨listed, data, original, resized⟩ := disk.derivative sha size out valid stored
  exact ⟨valid, data, original.added, original.hash, .inr ⟨listed, rfl, resized⟩⟩

theorem step_serves {a : StoreAction} (inv : s.Inv k root) (serve : s.AllServe k)
    (h : s.step k root a = some s') : s'.AllServe k := by
  cases a with
  | add data =>
    cases h
    exact serve.begin (List.subset_append_left _ _) trivial
  | openImage sha size =>
    cases h
    exact serve.begin (List.Subset.refl _) (openStage_serves k _ sha size)
  | readKnown i =>
    simp only [step, readKnown] at h
    split at h
    · split at h
      · cases h
        exact serve.move trivial
      · cases h
        exact serve.move trivial
    · cases h
  | probe i =>
    simp only [step, probe] at h
    split at h
    · split at h
      · cases h
        exact serve.move trivial
      · cases h
        exact serve.move trivial
    · cases h
  | write i a =>
    obtain ⟨call, job, files, job', found, writes, _, rfl⟩ := write_cases h
    exact serve.move ((serve.at found).withJob writes)
  | written i =>
    simp only [step, written] at h
    split at h
    · split at h
      · cases h
        exact serve.move trivial
      · cases h
        exact serve.move trivial
      · cases h
    · rename_i sha size flight job found
      have asked : validHash sha = true ∧ size ∈ supportedSizes := serve.at found
      split at h
      · cases h
        exact AllServe.move (s := s.land flight true) serve asked
      · cases h
        exact AllServe.move (s := s.land flight false) serve trivial
      · cases h
    · cases h
  | upsert i newID =>
    obtain ⟨⟨data, img, db⟩, _, rfl⟩ := Option.map_eq_some_iff.mp h
    exact AllServe.move serve trivial
  | upsertLost i newID =>
    obtain ⟨⟨data, img, db⟩, _, rfl⟩ := Option.map_eq_some_iff.mp h
    exact AllServe.move serve trivial
  | publish i =>
    simp only [step, publish] at h
    split at h
    · split at h
      · cases h
        exact serve.move trivial
      · cases h
        exact AllServe.move serve trivial
    · cases h
  | openOriginal i =>
    simp only [step, openOriginal] at h
    split at h
    · rename_i sha size found
      have asked := serve.at found
      split at h
      · rename_i data stored
        cases h
        exact serve.move ⟨asked, inv.disk.blob sha data asked.1 stored⟩
      · cases h
        exact serve.move trivial
    · cases h
  | probeOriginal i =>
    simp only [step, probeOriginal] at h
    split at h
    · rename_i sha size data found
      obtain ⟨⟨valid, original⟩, added, hash⟩ := serve.at found
      split at h
      · rename_i mime width height probed
        cases h
        refine serve.move ⟨valid, data, added, hash, .inl ⟨original, rfl, ?_⟩⟩
        rw [probed]
        rfl
      · cases h
        exact serve.move trivial
    · cases h
  | openCached i =>
    simp only [step, openCached] at h
    split at h
    · rename_i sha size found
      have asked := serve.at found
      split at h
      · rename_i data stored
        cases h
        exact serve.move (.of_derivative inv.disk asked.1 stored)
      · cases h
        exact serve.move asked
    · cases h
  | enterFlight i =>
    simp only [step, enterFlight] at h
    split at h
    · rename_i sha size found
      have asked := serve.at found
      split at h
      · cases h
        exact serve.move asked
      · cases h
        exact AllServe.move serve asked
    · cases h
  | readOriginal i =>
    simp only [step, readOriginal] at h
    split at h
    · rename_i sha size flight found
      have asked := serve.at found
      split at h
      · cases h
        exact serve.move asked
      · cases h
        exact AllServe.move (s := s.land flight false) serve trivial
    · cases h
  | resize i =>
    simp only [step, resize] at h
    split at h
    · rename_i sha size flight data found
      have asked := serve.at found
      split at h
      · cases h
        exact serve.move asked
      · cases h
        exact AllServe.move (s := s.land flight false) serve trivial
    · cases h
  | wake i =>
    simp only [step, wake] at h
    split at h
    · rename_i sha size flight found
      have asked := serve.at found
      split at h
      · cases h
        exact serve.move asked
      · cases h
        exact serve.move trivial
      · cases h
    · cases h
  | reopen i =>
    simp only [step, reopen] at h
    split at h
    · rename_i sha size found
      have asked := serve.at found
      split at h
      · rename_i data stored
        cases h
        exact serve.move (.of_derivative inv.disk asked.1 stored)
      · cases h
        exact serve.move trivial
    · cases h
  | fail i =>
    simp only [step, fail] at h
    split at h
    · cases h
      exact serve.move trivial
    · rename_i sha size flight found
      cases h
      exact AllServe.move (s := s.land flight false) serve trivial
    · cases h
      exact serve.move trivial
    · cases h
      exact serve.move trivial
    · cases h
      exact serve.move trivial
    · cases h
      exact serve.move trivial
    · cases h
  | restart =>
    cases h
    intro call listed
    cases listed
  | store w =>
    obtain ⟨db, rfl⟩ : ∃ db, s' = { s with db } := by
      simp only [step, Store.store] at h
      split at h
      · cases h
      · obtain ⟨db, _, rfl⟩ := Option.map_eq_some_iff.mp h
        exact ⟨db, rfl⟩
    exact serve

/-- What was added stays on record. -/
theorem step_added {a : StoreAction} (h : s.step k root a = some s') : s.added ⊆ s'.added := by
  cases a with
  | add data =>
    cases h
    exact List.subset_append_left _ _
  | write i a =>
    obtain ⟨_, _, _, _, _, _, _, rfl⟩ := write_cases h
    exact List.Subset.refl _
  | upsert i newID =>
    obtain ⟨_, _, rfl⟩ := Option.map_eq_some_iff.mp h
    exact List.Subset.refl _
  | upsertLost i newID =>
    obtain ⟨_, _, rfl⟩ := Option.map_eq_some_iff.mp h
    exact List.Subset.refl _
  | store w =>
    simp only [step, Store.store] at h
    split at h
    · cases h
    · obtain ⟨_, _, rfl⟩ := Option.map_eq_some_iff.mp h
      exact List.Subset.refl _
  | _ =>
    have same : s'.added = s.added := by
      grind [step, readKnown, probe, written, publish, openOriginal, probeOriginal, openCached,
        enterFlight, readOriginal, resize, wake, reopen, fail, Store.restart, setCall, land, returns]
    rw [same]
    exact List.Subset.refl _

/-! ### Replies -/

/-- A file that is answered is made from what was added under its hash. -/
theorem content_of_reply {absent statFails : Bool} {tag : String}
    {stage : OpenStage} (serve : s.AllServe k) (member : .opening sha size stage ∈ s.calls)
    (replied : (Call.opening sha size stage).reply absent statFails = some (.file data mime tag)) :
    tag = etag sha size ∧ Content k s.added sha size data mime := by
  cases stage with
  | failed =>
    simp only [Call.reply] at replied
    split at replied
    · cases replied
    · split at replied
      · cases replied
      · split at replied <;> cases replied
  | opened own type =>
    simp only [Call.reply] at replied
    split at replied
    · cases replied
    · cases replied
      exact ⟨rfl, serve _ member⟩
  | _ => cases replied

theorem run_serves {as : List StoreAction} (inv : s.Inv k root) (serve : s.AllServe k)
    (ran : run (step k root) s as = some s') :
    s'.Inv k root ∧ s'.AllServe k ∧ s.added ⊆ s'.added := by
  refine invariant_of_run (I := fun t => t.Inv k root ∧ t.AllServe k ∧ s.added ⊆ t.added) ?_
    ⟨inv, serve, List.Subset.refl _⟩ ran
  intro t a t' ⟨inv, serve, more⟩ h
  exact ⟨step_inv inv h, step_serves inv serve h, List.Subset.trans more (step_added h)⟩

/-- Whenever two files are answered to one URL, or with one `ETag`, be it in one process or in
different ones, they are the same and of the same type, if no two of the byte strings that were
added collide. -/
theorem replies_immutable (k : Codec) (root : Path) {db : Database}
    (empty : db.library.images = []) {as bs : List StoreAction}
    (ran : run (step k root) (start db) as = some s) (goesOn : run (step k root) s bs = some s')
    (apart : ∀ a ∈ s'.added, ∀ b ∈ s'.added, k.sha a = k.sha b → a = b)
    {earlier later : Call} (before : earlier ∈ s.calls) (after : later ∈ s'.calls)
    {r r' : Request} (asked : r.LedTo earlier) (asked' : r'.LedTo later)
    {absent statFails absent' statFails' : Bool} {data' : Bytes} {mime' tag tag' : String}
    (first : earlier.reply absent statFails = some (.file data mime tag))
    (second : later.reply absent' statFails' = some (.file data' mime' tag'))
    (same : r = r' ∨ tag = tag') : data = data' ∧ mime = mime' := by
  obtain ⟨inv, serve, _⟩ := run_serves (start_inv k root empty) nofun ran
  obtain ⟨_, serve', more⟩ := run_serves inv serve goesOn
  obtain ⟨n, stage, parsed, rfl⟩ := asked
  obtain ⟨n', stage', parsed', rfl⟩ := asked'
  obtain ⟨rfl, content⟩ := content_of_reply serve before first
  obtain ⟨rfl, content'⟩ := content_of_reply serve' after second
  have named : r.hash = r'.hash ∧ n = n' := by
    rcases same with rfl | tags
    · exact ⟨rfl, Except.ok.inj (parsed.symm.trans parsed')⟩
    · exact etag_inj content.valid content'.valid tags
  rw [← named.1, ← named.2] at content'
  exact (content.mono more).unique apart content'

/-- A GIF is added and answered, and answered again by the next process. -/
def firstServed : List StoreAction :=
  [.add headerOnly, .readKnown 0, .probe 0, .write 0 .mkdir, .write 0 .stat, .write 0 (.create "1"),
    .write 0 (.write 13), .write 0 .close, .write 0 .rename, .written 0, .upsert 0 60, .publish 0,
    .openImage (headerCodec.sha headerOnly) 0, .openOriginal 1, .probeOriginal 1]

def servedAgain : List StoreAction :=
  [.restart, .openImage (headerCodec.sha headerOnly) 0, .openOriginal 0, .probeOriginal 0]

def gif : Call := .opening (headerCodec.sha headerOnly) 0 (.opened headerOnly "image/gif")

def gifURL : Request := ⟨headerCodec.sha headerOnly, ""⟩

theorem servedAgain_immutable : ∃ s s' data data' mime mime' tag tag',
    run (step headerCodec ["var"]) (start .empty) firstServed = some s ∧
      run (step headerCodec ["var"]) s servedAgain = some s' ∧
        s.calls[1]?.bind (Call.reply false false) = some (.file data mime tag) ∧
          s'.calls[0]?.bind (Call.reply false false) = some (.file data' mime' tag') ∧
            data = data' ∧ mime = mime' := by
  have reaches : (run (step headerCodec ["var"]) (start .empty) firstServed).map (fun s =>
      s.calls[1]?) = some (some gif) := by rfl
  obtain ⟨s, ran, found⟩ := Option.map_eq_some_iff.mp reaches
  have reaches' : (run (step headerCodec ["var"]) (start .empty)
      (firstServed ++ servedAgain)).map (fun s => (s.calls[0]?, s.added)) =
        some (some gif, [headerOnly]) := by rfl
  obtain ⟨s', ran', kept⟩ := Option.map_eq_some_iff.mp reaches'
  obtain ⟨found', added⟩ := Prod.mk.inj kept
  rw [run_append, ran, Option.bind_some] at ran'
  have apart : ∀ a ∈ s'.added, ∀ b ∈ s'.added, headerCodec.sha a = headerCodec.sha b → a = b := by
    rw [added]
    intro a ha b hb _
    exact (List.mem_singleton.mp ha).trans (List.mem_singleton.mp hb).symm
  have asked : gifURL.LedTo gif := ⟨0, _, rfl, rfl⟩
  have reply : gif.reply false false =
      some (.file headerOnly "image/gif" (etag (headerCodec.sha headerOnly) 0)) := by rfl
  have same := replies_immutable headerCodec ["var"] rfl ran ran' apart
    (List.mem_of_getElem? found) (List.mem_of_getElem? found') asked asked reply reply (.inl rfl)
  refine ⟨s, s', _, _, _, _, etag (headerCodec.sha headerOnly) 0,
    etag (headerCodec.sha headerOnly) 0, ran, ran', ?_, ?_, same⟩
  · rw [found]
    exact reply
  · rw [found']
    exact reply

end Store

end Byom.Images
