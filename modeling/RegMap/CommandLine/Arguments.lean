/-!
# Arguments

The program takes the path of a configuration and a few options, in any order.
Options have short names, which may share one argument, and long ones; a value
may follow in the same argument or in the next one. After `--` there are no
options any more. Arguments are read from left to right, and the first one that
is faulty, or asks for the version or for help, decides.
-/

namespace RegMap

/-- What a run of the program does. -/
structure Arguments where
  config : String
  outDirectory : String := "."
  quiet : Bool := false
deriving DecidableEq

namespace Arguments

/-- What the arguments ask for instead of a run. -/
inductive Exit where
  | version
  | help
  | unknownOption (argument : String)
  | unexpectedArgument (argument : String)
  | unexpectedValue (option : String)
  | missingValue (option : String)
  | repeatedOption (option : String)
  | missingConfig
deriving DecidableEq

/-- The arguments that were read so far. -/
structure Progress where
  config : Option String := none
  outDirectory : Option String := none
  quiet : Bool := false

namespace Progress

/-- Takes the option for a quiet run, unless it was there before. -/
def setQuiet (progress : Progress) : Except Exit Progress :=
  if progress.quiet then .error (.repeatedOption "--quiet")
  else .ok { progress with quiet := true }

/-- Takes the directory for the output, unless there is one or it has no name. -/
def setOutDirectory (progress : Progress) (value : String) : Except Exit Progress :=
  if progress.outDirectory.isSome then .error (.repeatedOption "--out-dir")
  else if value = "" then .error (.missingValue "--out-dir")
  else .ok { progress with outDirectory := some value }

/-- Takes the path of the configuration, unless there is one or it is empty. -/
def setConfig (progress : Progress) (value : String) : Except Exit Progress :=
  if progress.config.isSome then .error (.unexpectedArgument value)
  else if value = "" then .error (.missingValue "CONFIG")
  else .ok { progress with config := some value }

end Progress

/-- What is left to do after an argument: an option may still need its value. -/
inductive Pending where
  | nothing
  | outDirectory
deriving DecidableEq

/-- Reads a long option and the value that is given with it. -/
def long (progress : Progress) (name : List Char) (value : Option String) :
    Except Exit (Progress × Pending) :=
  match String.ofList name, value with
  | "out-dir", none => .ok (progress, .outDirectory)
  | "out-dir", some value => return (← progress.setOutDirectory value, .nothing)
  | "quiet", none => return (← progress.setQuiet, .nothing)
  | "version", none => .error .version
  | "help", none => .error .help
  | "quiet", some _ => .error (.unexpectedValue "--quiet")
  | "version", some _ => .error (.unexpectedValue "--version")
  | "help", some _ => .error (.unexpectedValue "--help")
  | name, _ => .error (.unknownOption s!"--{name}")

/-- Reads short options. The characters after one that takes a value are that
value, perhaps after a `=`. -/
def short (progress : Progress) : List Char → Except Exit (Progress × Pending)
  | [] => .ok (progress, .nothing)
  | 'o' :: [] => .ok (progress, .outDirectory)
  | 'o' :: '=' :: value => return (← progress.setOutDirectory (String.ofList value), .nothing)
  | 'o' :: value => return (← progress.setOutDirectory (String.ofList value), .nothing)
  | 'q' :: rest =>
    match progress.setQuiet with
    | .ok progress => short progress rest
    | .error exit => .error exit
  | 'V' :: _ => .error .version
  | 'h' :: _ => .error .help
  | c :: _ => .error (.unknownOption s!"-{c}")

/-- Whether an argument is made of options. A lone `-` is not. -/
def isOption (argument : List Char) : Bool :=
  argument.head? = some '-' && argument.length > 1

/-- Reads an argument that is made of options. -/
def option (progress : Progress) : List Char → Except Exit (Progress × Pending)
  | '-' :: '-' :: text =>
    let name := text.takeWhile (· ≠ '=')
    match text.dropWhile (· ≠ '=') with
    | _ :: value => long progress name (some (String.ofList value))
    | [] => long progress name none
  | text => short progress text.tail

/-- Reads arguments that are no options. -/
def positional (progress : Progress) (arguments : List String) : Except Exit Progress :=
  arguments.foldlM Progress.setConfig progress

/-- Reads arguments after those of which an option may still need its value. -/
def readFrom (pending : Pending) (progress : Progress) : List String → Except Exit Progress
  | [] => if pending = .nothing then .ok progress else .error (.missingValue "--out-dir")
  | argument :: rest =>
    let text := argument.toList
    if pending = .outDirectory then
      if isOption text then .error (.missingValue "--out-dir")
      else
        match progress.setOutDirectory argument with
        | .ok progress => readFrom .nothing progress rest
        | .error exit => .error exit
    else if argument = "--" then
      positional progress rest
    else if isOption text then
      match option progress text with
      | .ok (progress, pending) => readFrom pending progress rest
      | .error exit => .error exit
    else
      match progress.setConfig argument with
      | .ok progress => readFrom .nothing progress rest
      | .error exit => .error exit

/-- Reads all arguments. -/
def read (arguments : List String) : Except Exit Arguments := do
  let progress ← readFrom .nothing {} arguments
  match progress.config with
  | some config => return ⟨config, progress.outDirectory.getD ".", progress.quiet⟩
  | none => throw .missingConfig

end Arguments

end RegMap
