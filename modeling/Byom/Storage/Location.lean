import Byom.Storage.File

/-!
# Locations

A location is a local path or a `file` URI.
-/

namespace Byom.Storage

/-- The parts of a `url.URL` that `Root` reads. -/
structure URL where
  scheme : String
  host : String
  path : String
  deriving DecidableEq, Repr

structure Location where
  id : UUID
  uri : String
  available : Bool
  deriving DecidableEq, Repr

/-- Why `Root` returns an error. `parse` keeps what `url.Parse` said. -/
inductive RootError where
  | parse (uri reason : String)
  | remoteHost (uri host : String)
  | emptyPath (uri : String)
  | unsupportedScheme (uri scheme : String)
  deriving DecidableEq, Repr

/-- `Location.Root`; `parse` is `url.Parse`. -/
def Location.root (parse : String → Except String URL) (loc : Location) : Except RootError String :=
  match parse loc.uri with
  | .error reason => .error (.parse loc.uri reason)
  | .ok u =>
    if u.scheme = "" then .ok loc.uri
    else if u.scheme = "file" then
      if u.host ≠ "" ∧ u.host ≠ "localhost" then .error (.remoteHost loc.uri u.host)
      else if u.path = "" then .error (.emptyPath loc.uri)
      else .ok u.path
    else .error (.unsupportedScheme loc.uri u.scheme)

end Byom.Storage
