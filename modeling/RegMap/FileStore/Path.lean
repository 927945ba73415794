import RegMap.Text.Split

/-!
# Paths

A path is a text whose names are separated by slashes. It starts at the root if
it starts with a slash, and at the working directory otherwise.
-/

namespace RegMap.Path

/-- The parts of a path between slashes. -/
def segments (path : String) : List String :=
  (Text.segments '/' path.toList).map String.ofList

/-- Whether a path starts at the root. -/
def isAbsolute (path : String) : Bool :=
  path.toList.head? = some '/'

/-- Whether a path says that it is one of a directory. -/
def endsInSlash (path : String) : Bool :=
  path.toList.getLast? = some '/'

/-- The names of a path, where each leads to the next directory. -/
def names (path : String) : List String :=
  (segments path).filter (· ≠ "")

/-- The names of a path that count: `.` counts only where a relative path starts. -/
def components (path : String) : List String :=
  match segments path with
  | "." :: rest => "." :: rest.filter fun name => name ≠ "" && name ≠ "."
  | segments => segments.filter fun name => name ≠ "" && name ≠ "."

/-- The path of some names. -/
def ofComponents (absolute : Bool) (components : List String) : String :=
  (if absolute then "/" else "") ++ "/".intercalate components

/-- The path itself, then its directories from the inside. -/
def ancestors (path : String) : List String :=
  let components := components path
  path :: (List.range components.length).reverse.map fun count =>
    ofComponents (isAbsolute path) (components.take count)

/-- The path of a name in a directory. A name that starts with a slash is a path from the
root, whatever the directory. -/
def join (directory name : String) : String :=
  if isAbsolute name then name
  else if directory = "" || endsInSlash directory then directory ++ name
  else s!"{directory}/{name}"

end RegMap.Path
