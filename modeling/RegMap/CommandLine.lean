import RegMap.Artifacts
import RegMap.CommandLine.Arguments
import RegMap.Config
import RegMap.Listing

/-!
# The command line

The program reads a configuration, packs its map, shows the listing and what is
wrong with the map, and generates the artifacts if nothing is.
-/

namespace RegMap.CommandLine

/-- What a run leaves behind, apart from files. -/
structure Outcome where
  exitCode : UInt8
  output : String
  errors : String

/-- Why a run failed. -/
inductive Failure where
  | unreadable (path : String) (error : FileError)
  | config (refusal : Config.Refusal)
  | unpackable (diagnostics : Diagnostics)
  /-- The map was packed, but something was told about it. -/
  | doubtful
  | generation (failure : RegMap.Failure)

/-- What is told when a run fails. -/
def Failure.message (palette : Palette) : Failure → String
  | unreadable path error => s!"failed to read \"{path}\": {error.message}"
  | config refusal => refusal.message palette
  | unpackable diagnostics => RegisterMap.invalidMessage palette diagnostics
  | doubtful => "refusing to generate from an invalid register map"
  | generation failure => failure.message palette

/-! ## Texts -/

/-- What `--version` prints. -/
def versionText : String := "csrgen 0.1.0\n"

/-- How the program is called. -/
def usageText : String := "Usage: csrgen [OPTIONS] <CONFIG>\n"

/-- What `--help` prints. -/
def helpText : String :=
  "Pack register fields into an AHB3-Lite register map and emit its Verilog wrapper\n\n" ++
    usageText ++
    "\nArguments:\n" ++
    "  <CONFIG>  FuseSoC generator configuration (YAML)\n" ++
    "\nOptions:\n" ++
    "  -o, --out-dir <DIR>  Directory the generated files are written to [default: .]\n" ++
    "  -q, --quiet          Do not print the register layout\n" ++
    "  -h, --help           Print help\n" ++
    "  -V, --version        Print version\n"

/-- What is wrong with the arguments. -/
def exitText : Arguments.Exit → String
  | .version => "the version was asked for"
  | .help => "help was asked for"
  | .unknownOption argument => s!"unknown option {argument}"
  | .unexpectedArgument argument => s!"unexpected argument {argument}"
  | .unexpectedValue option => s!"{option} takes no value"
  | .missingValue option => s!"{option} needs a value"
  | .repeatedOption option => s!"{option} is repeated"
  | .missingConfig => "CONFIG is missing"

/-- The line below the listing. -/
def rule : String :=
  String.ofList (List.replicate 80 '=') ++ "\n"

/-- The listing of a packed map, unless the run is quiet. -/
def listing (quiet : Bool) (map : RegisterMap) : String :=
  if quiet then "" else Listing.render map ++ rule

/-- What a run tells about the validity of a packed map. -/
def verdict (palette : Palette) (diagnostics : Diagnostics) : String :=
  let report := if diagnostics.isEmpty then "" else diagnostics.report palette ++ "\n"
  let success := if diagnostics.errors = 0 then palette.apply .success "Validated" ++ ". " else ""
  report ++ success ++
    s!"emitted {diagnostics.warnings} warnings and {diagnostics.errors} errors\n"

/-- What a run tells when it has written the artifacts. -/
def summary (palette : Palette) (map : RegisterMap) (names : List String) : String :=
  palette.apply .success "Finished" ++ s!" {map.registerCount} registers " ++
    s!"({map.fieldCount} fields, {map.replicaCount} replicas): " ++ ", ".intercalate names ++ "\n"

/-- What a run that fails prints, behind a label in the palette's colour. -/
def failureText (palette : Palette) (failure : Failure) : String :=
  palette.apply .error "error" ++ s!": {failure.message palette}\n"

/-! ## Runs -/

/-- A run that ended with a failure, after what it told before. -/
def failed (palette : Palette) (output errors : String) (failure : Failure) : Outcome :=
  ⟨1, output, errors ++ failureText palette failure⟩

/-- The map that a text configures, packed. -/
def packedMap (palette : Palette) (text : String) : Except Failure RegisterMap :=
  match Config.ofText palette text with
  | .error refusal => .error (.config refusal)
  | .ok config =>
    match config.toMap.pack palette with
    | (map, .ok ()) => .ok map
    | (_, .error diagnostics) => .error (.unpackable diagnostics)

variable {m : Type → Type} [Monad m]

/-- Generates the artifacts of a packed map, and tells about it. -/
def generate (store : FileStore m) (palette : Palette) (arguments : Arguments)
    (map : RegisterMap) : m Outcome := do
  let diagnostics := map.validate palette
  let output := listing arguments.quiet map
  let errors := verdict palette diagnostics
  if !diagnostics.isEmpty then
    return failed palette output errors .doubtful
  let generation ← Generation.run store palette map arguments.outDirectory
  match generation.failure with
  | some failure => return failed palette output errors (.generation failure)
  | none =>
    let names := [map.wrapperName, map.templateName, map.descriptorName]
    return ⟨0, output ++ summary palette map names, errors⟩

/-- Runs the program with arguments that were read. -/
def runWith (store : FileStore m) (palette : Palette) (arguments : Arguments) : m Outcome := do
  match ← store.readText arguments.config with
  | .error error => return failed palette "" "" (.unreadable arguments.config error)
  | .ok text =>
    match packedMap palette text with
    | .error failure => return failed palette "" "" failure
    | .ok map => generate store palette arguments map

/-- Runs the program. -/
def run (store : FileStore m) (palette : Palette) (arguments : List String) : m Outcome := do
  match Arguments.read arguments with
  | .ok arguments => runWith store palette arguments
  | .error .version => return ⟨0, versionText, ""⟩
  | .error .help => return ⟨0, helpText, ""⟩
  | .error exit => return ⟨2, "", s!"error: {exitText exit}\n\n{usageText}"⟩

end RegMap.CommandLine
