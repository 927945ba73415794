import RegMap.CommandLine

/-!
# The program

Runs the command line on the files of the system.
-/

namespace RegMap.CommandLine

/-- The reason of a failed operation. -/
def fileError : IO.Error → FileError
  | .noFileOrDirectory .. => .notFound
  | .alreadyExists .. => .alreadyExists
  | .inappropriateType _ 20 _ => .notDirectory
  | .inappropriateType _ 21 _ => .isDirectory
  | .invalidArgument _ 36 _ => .nameTooLong
  | .resourceExhausted _ 36 _ => .nameTooLong
  | error => .other (toString error)

/-- Carries out an operation on a path that the system accepts. -/
def attempt {α : Type} (path : String) (operation : IO α) : IO (Except FileError α) := do
  if path.toList.contains '\x00' then
    return .error .nulInPath
  try
    return .ok (← operation)
  catch error =>
    return .error (fileError error)

/-- The files of the system. -/
def systemFiles : FileStore IO where
  readText path := do
    match ← attempt path (IO.FS.readBinFile path) with
    | .error error => return .error error
    | .ok content =>
      match String.fromUTF8? content with
      | some text => return .ok text
      | none => return .error .notText
  makeDirectory path := attempt path (IO.FS.createDir path)
  isDirectory path := do
    match ← attempt path (do (← IO.FS.realPath path).isDir) with
    | .ok answer => return answer
    | .error _ => return false
  write path text := attempt path (IO.FS.writeFile path text)

/-- Whether an environment variable is set to something other than zero. -/
def isSet (name : String) : IO (Option Bool) := do
  return (← IO.getEnv name).map (· ≠ "0")

/-- Colours are used in terminals, unless the environment decides otherwise. -/
def choosePalette : IO Palette := do
  if (← isSet "CLICOLOR_FORCE") = some true then
    return .ansi
  if (← IO.getEnv "NO_COLOR").isSome then
    return .plain
  let wanted := (← isSet "CLICOLOR").getD true
  return if wanted && (← (← IO.getStdout).isTty) then .ansi else .plain

end RegMap.CommandLine

open RegMap CommandLine in
/-- The program: a run on the files of the system. -/
def main (arguments : List String) : IO UInt32 := do
  let outcome ← run systemFiles (← choosePalette) arguments
  (← IO.getStdout).putStr outcome.output
  (← IO.getStderr).putStr outcome.errors
  return outcome.exitCode.toUInt32
