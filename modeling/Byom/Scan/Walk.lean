import Byom.Storage.File

/-!
# The directory walk

`walkPostOrder` visits every directory whose path has no hidden component,
children before parents, and hands one `WalkResult` per directory to a
callback. `DiscMerger` is the callback of a scan: it holds back disc folders
and folds them into the album folder that contains them.
-/

namespace Byom.Scan

open Storage

/-- The entries of one directory, in the order `fs.ReadDir` lists them. -/
inductive Entries where
  | nil
  | file (name : String) (regular : Bool) (info : Option FileInfo) (rest : Entries)
  | dir (name : String) (sub : Entries) (rest : Entries)
  deriving DecidableEq

namespace Entries

def names : Entries → List String
  | .nil => []
  | .file name _ _ rest => name :: rest.names
  | .dir name _ rest => name :: rest.names

/-- No directory lists one name twice. -/
def Distinct : Entries → Prop
  | .nil => True
  | .file name _ _ rest => name ∉ rest.names ∧ rest.Distinct
  | .dir name sub rest => name ∉ rest.names ∧ sub.Distinct ∧ rest.Distinct

instance decidableDistinct : (e : Entries) → Decidable e.Distinct
  | .nil => .isTrue trivial
  | .file _ _ _ rest =>
    have := rest.decidableDistinct
    inferInstanceAs (Decidable (_ ∧ _))
  | .dir _ sub rest =>
    have := sub.decidableDistinct
    have := rest.decidableDistinct
    inferInstanceAs (Decidable (_ ∧ _ ∧ _))

end Entries

/-- A finite directory tree, given by the entries of its root. -/
structure Tree where
  entries : Entries
  distinct : entries.Distinct

/-- `strings.HasPrefix(name, ".")`. -/
def hidden (name : String) : Bool := name.toList.head? == some '.'

def audioExtensions : List String :=
  [".flac", ".mp3", ".ogg", ".m4a", ".aiff", ".aif", ".wav", ".opus", ".ape", ".wv"]

def imageExtensions : List String :=
  [".jpg", ".jpeg", ".png", ".gif", ".webp"]

/-- `filepath.Ext`, as characters: from the last dot on. -/
def ext (name : String) : List Char :=
  if '.' ∈ name.toList then
    '.' :: (name.toList.reverse.takeWhile fun c => c ≠ '.').reverse
  else []

/-- `unicode.ToLower`, wherever its result is an ASCII letter. Only two characters
outside ASCII have one; the extension tables cannot tell the others apart. -/
def toLower (c : Char) : Char :=
  if c = '\u212a' then 'k' else if c = '\u0130' then 'i' else c.toLower

def classifyKind (name : String) : Option FileKind :=
  let lowered := String.ofList ((ext name).map toLower)
  if lowered ∈ audioExtensions then some .audio
  else if lowered ∈ imageExtensions then some .image
  else none

/-- One file of a walked dir. `info` is what a stat of it will return. -/
structure WalkEntry where
  name : Path
  kind : FileKind
  info : Option FileInfo
  deriving DecidableEq, Repr

structure WalkResult where
  dir : Path
  files : List WalkEntry
  deriving DecidableEq, Repr

/-- The regular, non-hidden, recognised files of one directory. -/
def walkFiles : Entries → List WalkEntry
  | .nil => []
  | .file name regular info rest =>
    if !regular || hidden name then walkFiles rest
    else
      match classifyKind name with
      | none => walkFiles rest
      | some kind => ⟨[name], kind, info⟩ :: walkFiles rest
  | .dir _ _ rest => walkFiles rest

section Walk

variable {m : Type → Type} [Monad m]

/-- The first loop of `walkPostOrder`: recurse into the subdirectories of `dir`. -/
def walkDirs (process : WalkResult → m Unit) (dir : Path) : Entries → m Unit
  | .nil => pure ()
  | .file _ _ _ rest => walkDirs process dir rest
  | .dir name sub rest =>
    if hidden name then walkDirs process dir rest
    else do
      walkDirs process (dir ++ [name]) sub
      process ⟨dir ++ [name], walkFiles sub⟩
      walkDirs process dir rest

/-- The recursive call of the source on a subdirectory is unfolded inside
`walkDirs`, which keeps the recursion structural. -/
def walkPostOrder (process : WalkResult → m Unit) (dir : Path) (entries : Entries) : m Unit := do
  walkDirs process dir entries
  process ⟨dir, walkFiles entries⟩

end Walk

/-- `[\s._-]`. -/
def isSeparator (c : Char) : Bool := c ∈ ['\t', '\n', '\x0c', '\r', ' ', '.', '_', '-']

/-- Match the lower-case letters of `pat` under `(?i)`, where `s` also folds with
the long s. -/
def stripFold : List Char → List Char → Option (List Char)
  | [], cs => some cs
  | _ :: _, [] => none
  | p :: pat, c :: cs =>
    if c = p ∨ c = p.toUpper ∨ (p = 's' ∧ c = '\u017f') then stripFold pat cs else none

/-- `[\s._-]*\d+(?:[\s._-].*)?$`. A digit is no separator, so both runs are forced. -/
def discNumberTail (cs : List Char) : Bool :=
  let cs := cs.dropWhile isSeparator
  !(cs.takeWhile Char.isDigit).isEmpty &&
    match cs.dropWhile Char.isDigit with
    | [] => true
    | c :: rest => isSeparator c && !rest.contains '\n'

/-- Whether the base name denotes a disc folder, such as "CD1" or "Disc 2 - Remixes". -/
def isDisc (dir : Path) : Bool :=
  let name := dir.base.toList
  [['c', 'd'], ['d', 'i', 's', 'c']].any fun pat => (stripFold pat name).any discNumberTail

example : (["CD1", "cd 2", "Disc_3 - Remixes", "Discography", "CD", "Vinyl 1"].map
    fun name => isDisc ["Album", name]) = [true, true, true, false, false, false] := by decide

/-- The order in which `range` visits a map, which the language leaves open. -/
structure MapOrder where
  visit : Path → List WalkResult → List WalkResult
  perm : ∀ dir pending, (visit dir pending).Perm pending

/-- Insertion order. -/
def MapOrder.insertion : MapOrder := ⟨fun _ pending => pending, fun _ _ => .refl _⟩

/-- A file of a disc folder under the name it has in the album folder. -/
def prefixedEntry (disc : String) (f : WalkEntry) : WalkEntry := { f with name := disc :: f.name }

namespace DiscMerger

/-- The pending discs directly inside `dir`. -/
def folded (order : MapOrder) (dir : Path) (pending : List WalkResult) : List WalkResult :=
  (order.visit dir pending).filter fun disc => disc.dir.dir = dir

def merge (res : WalkResult) (discs : List WalkResult) : WalkResult :=
  { res with files := res.files ++
      discs.flatMap fun disc => disc.files.map (prefixedEntry disc.dir.base) }

/-- `discMerger.process`. The state is the `pending` map, as the list of its values. -/
def process {m : Type → Type} [Monad m] (order : MapOrder) (emit : WalkResult → m Unit)
    (res : WalkResult) : StateT (List WalkResult) m Unit := do
  let pending ← get
  if isDisc res.dir then
    set (pending.filter (fun old => old.dir ≠ res.dir) ++ [res])
  else
    set (pending.filter fun disc => disc.dir.dir ≠ res.dir)
    emit (merge res (folded order res.dir pending))

end DiscMerger

/-- What a completed walk leaves: the emitted results and the merger's map. -/
structure Walk where
  emitted : List WalkResult
  pending : List WalkResult
  deriving DecidableEq

/-- The walk of a scan whose `emit` never fails. -/
def walk (order : MapOrder) (tree : Tree) : Walk :=
  let emit : WalkResult → StateM (List WalkResult) Unit := fun res => modify (· ++ [res])
  let ((_, pending), emitted) :=
    ((walkPostOrder (DiscMerger.process order emit) [] tree.entries).run []).run []
  ⟨emitted, pending⟩

end Byom.Scan
