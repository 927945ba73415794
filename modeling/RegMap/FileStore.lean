import RegMap.FileStore.Path

/-!
# File stores

What the generator needs of the files around it. A store may be a real file
system or a value; what is done with it is the same.
-/

namespace RegMap

/-- Why a file operation failed. -/
inductive FileError where
  | notFound
  | notDirectory
  | isDirectory
  | alreadyExists
  | nameTooLong
  | notText
  | nulInPath
  | noParent
  /-- Any other reason, in the words of the system. -/
  | other (text : String)
deriving DecidableEq

/-- What the system tells about an error. -/
def FileError.message : FileError → String
  | notFound => "No such file or directory (os error 2)"
  | notDirectory => "Not a directory (os error 20)"
  | isDirectory => "Is a directory (os error 21)"
  | alreadyExists => "File exists (os error 17)"
  | nameTooLong => "File name too long (os error 36)"
  | notText => "stream did not contain valid UTF-8"
  | nulInPath => "file name contained an unexpected NUL byte"
  | noParent => "failed to create whole tree"
  | other text => text

/-- The operations of a file store. -/
structure FileStore (m : Type → Type) where
  readText (path : String) : m (Except FileError String)
  makeDirectory (path : String) : m (Except FileError Unit)
  isDirectory (path : String) : m Bool
  /-- Writes a file, instead of what it held before. -/
  write (path text : String) : m (Except FileError Unit)

namespace FileStore

variable {m : Type → Type} [Monad m]

/-- Makes a directory unless it is there. -/
def ensureDirectory (store : FileStore m) (path : String) : m (Except FileError Unit) := do
  match ← store.makeDirectory path with
  | .ok () => return .ok ()
  | .error error => if ← store.isDirectory path then return .ok () else return .error error

/-- Makes the first of some directories, each of which is in the next one, and
before it those that are missing. The working directory is always there. -/
def makeFirst (store : FileStore m) : List String → m (Except FileError Unit)
  | [] => return .error .noParent
  | path :: outer => do
    if path = "" then
      return .ok ()
    match ← store.ensureDirectory path with
    | .error .notFound =>
      match ← makeFirst store outer with
      | .ok () => store.ensureDirectory path
      | .error error => return .error error
    | outcome => return outcome

/-- Makes a directory and those that it is in, unless they are there. -/
def makeDirectories (store : FileStore m) (path : String) : m (Except FileError Unit) :=
  store.makeFirst (Path.ancestors path)

end FileStore

end RegMap
