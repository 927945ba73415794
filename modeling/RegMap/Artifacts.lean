import RegMap.Core
import RegMap.FileStore
import RegMap.Template

/-!
# Artifacts

A packed map has three artifacts: the wrapper, the template, and the descriptor
of the core. They are generated only for maps about which nothing is to be said,
and written one after the other; what was written before a failure stays.
-/

namespace RegMap

/-- A file to be written. -/
structure Artifact where
  name : String
  text : String
deriving DecidableEq

/-- Why a map has no artifacts. -/
inductive Refusal where
  | unpacked
  | invalid (diagnostics : Diagnostics)
  | warnings (count : Nat)

/-- What is told when a generation is refused. -/
def Refusal.message (palette : Palette) : Refusal → String
  | unpacked => "the register map must be packed before generation"
  | invalid diagnostics => RegisterMap.invalidMessage palette diagnostics
  | warnings count => s!"generation refused: the register map emitted {count} warnings"

namespace RegisterMap

/-- The wrapper's file is named after the module that it holds. -/
def wrapperName (map : RegisterMap) : String :=
  map.vlnv.moduleName ++ ".sv"

/-- The template is named like the wrapper, with the ending of included files. -/
def templateName (map : RegisterMap) : String :=
  map.vlnv.moduleName ++ ".vh"

/-- The descriptor is named after the core, whose name need not be an identifier. -/
def descriptorName (map : RegisterMap) : String :=
  map.vlnv.coreName ++ ".core"

/-- The artifacts of a packed map, in the order in which they are written. -/
def artifacts (map : RegisterMap) : Except Refusal (List Artifact) :=
  if map.isPacked then
    .ok [⟨map.wrapperName, Wrapper.render map⟩, ⟨map.templateName, Template.render map⟩,
      ⟨map.descriptorName, (Core.ofMap map map.wrapperName map.templateName).render⟩]
  else
    .error .unpacked

/-- The artifacts of a packed map without errors or warnings. -/
def checkedArtifacts (palette : Palette) (map : RegisterMap) : Except Refusal (List Artifact) :=
  let diagnostics := map.validate palette
  if !map.isPacked then .error .unpacked
  else if diagnostics.errors > 0 then .error (.invalid diagnostics)
  else if diagnostics.warnings > 0 then .error (.warnings diagnostics.warnings)
  else map.artifacts

end RegisterMap

/-! ## Generation -/

/-- Why a generation ended before all artifacts were written. -/
inductive Failure where
  | refused (refusal : Refusal)
  | unwritable (path : String) (error : FileError)

/-- What is told when a generation fails. -/
def Failure.message (palette : Palette) : Failure → String
  | refused refusal => refusal.message palette
  | unwritable path error => s!"failed to write \"{path}\": {error.message}"

/-- The paths that were written, and why no more were. -/
structure Generation where
  written : List String
  failure : Option Failure

namespace Generation

variable {m : Type → Type} [Monad m]

/-- Writes artifacts into a directory until that fails. -/
def writeAll (store : FileStore m) (directory : String) : List Artifact → m Generation
  | [] => return ⟨[], none⟩
  | artifact :: rest => do
    let path := Path.join directory artifact.name
    match ← store.write path artifact.text with
    | .error error => return ⟨[], some (.unwritable path error)⟩
    | .ok () =>
      let generation ← writeAll store directory rest
      return { generation with written := path :: generation.written }

/-- Generates the artifacts of a map into a directory, which is made if it is not
there. -/
def run (store : FileStore m) (palette : Palette) (map : RegisterMap) (directory : String) :
    m Generation := do
  match map.checkedArtifacts palette with
  | .error refusal => return ⟨[], some (.refused refusal)⟩
  | .ok artifacts =>
    match ← store.makeDirectories directory with
    | .error error => return ⟨[], some (.unwritable directory error)⟩
    | .ok () => writeAll store directory artifacts

/-- What a generation leaves in the log. -/
def log (map : RegisterMap) (generation : Generation) : List LogEntry :=
  map.validationLog ++ generation.written.map .wrote

end Generation

end RegMap
