import RegMap.RegisterMap
import RegMap.Yaml.Tree

/-!
# Core descriptors

A core descriptor names the core and lists its source files: the wrapper, and the
template for instances of it, which is included by other files.
-/

namespace RegMap

namespace Core

/-- A source file of a core. -/
structure SourceFile where
  name : String
  isIncluded : Bool
deriving DecidableEq

end Core

/-- The description of a core. -/
structure Core where
  name : String
  files : List Core.SourceFile
deriving DecidableEq

namespace Core

/-- The line that tells the format of a descriptor. -/
def formatLine : String := "CAPI=2:"

/-- The kind of all source files. -/
def fileKind : String := "verilogSource"

/-- The name of the only set of files. -/
def fileSet : String := "rtl"

/-- The name of the only target. -/
def target : String := "default"

/-- The core of a map, given the names of its source files. -/
def ofMap (map : RegisterMap) (wrapper template : String) : Core :=
  ⟨map.vlnv.text, [⟨wrapper, false⟩, ⟨template, true⟩]⟩

/-- What is told of a source file. -/
def SourceFile.tree (file : SourceFile) : Yaml.Tree :=
  let included := if file.isIncluded then [("is_include_file", .truth true)] else []
  .mapping [(file.name, .mapping (included ++ [("file_type", .text fileKind)]))]

/-- The entries of the descriptor. -/
def entries (core : Core) : List (String × Yaml.Tree) :=
  [("name", .text core.name),
    ("filesets", .mapping [(fileSet, .mapping [("files", .sequence (core.files.map (·.tree)))])]),
    ("targets", .mapping [(target, .mapping [("filesets", .sequence [.text fileSet])])])]

/-- The text of the descriptor. -/
def render (core : Core) : String :=
  s!"{formatLine}\n{Yaml.Tree.document core.entries}"

end Core

end RegMap
