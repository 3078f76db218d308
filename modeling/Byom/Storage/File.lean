import Mathlib.Algebra.Group.Nat.Defs

/-!
# Identifiers, paths and files

Slash-separated relative paths are kept as their components, so that `"."` is
the empty list, `path.Join` appends and `path.Dir` drops the last component.
-/

namespace Byom.Storage

/-- `uuid.UUID`: 16 bytes. The order of the numbers is that of their text form. -/
abbrev UUID := BitVec 128

instance : LawfulBEq UUID := inferInstance

/-- `uuid.Nil`. -/
def UUID.nil : UUID := 0#128

abbrev Path := List String

namespace Path

/-- `path.Base`. -/
def base (p : Path) : String := p.getLast?.getD "."

/-- `path.Dir`. -/
def dir (p : Path) : Path := p.dropLast

end Path

inductive FileKind where
  | audio
  | image
  | other (text : String)
  deriving DecidableEq, Repr

/-- What a stat returns: the size in bytes and the mod time in Unix nanoseconds. -/
structure FileInfo where
  size : Int
  modTime : Int
  deriving DecidableEq, Repr

/-- `storage.File`. A file of a merged disc dir has its disc folder in `name`. -/
structure File where
  id : UUID
  name : Path
  kind : FileKind
  info : FileInfo
  missing : Bool
  deriving DecidableEq, Repr

end Byom.Storage
