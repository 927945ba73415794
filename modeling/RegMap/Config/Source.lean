import RegMap.Yaml.Token.Stream
import RegMap.Yaml.Value

/-!
# The source of a configuration

Of a document only two keys count: `vlnv`, a scalar as it is written, and
`parameters`, a mapping. Either may be left out or null. All other keys are
skipped without a look at their values.
-/

namespace RegMap.Config

open Yaml (Document Fault Node Resolver Value)

/-- What a document says about a configuration. -/
structure Source where
  vlnv : Option String := none
  parameters : Option (List (Value × Value)) := none

namespace Source

/-- Whether a plain scalar with a tag stands for null. The shared tag for null
allows nothing else. -/
def isNull (tag : Option Yaml.Octets) (text : String) : Except Fault Bool :=
  match tag with
  | none => .ok (text.isEmpty || Value.isNull text)
  | some tag =>
    if tag ≠ Value.sharedTag "null" then .ok false
    else if Value.isNull text then .ok true
    else .error (.malformedScalar "null")

/-- Whether a node is left out or null. -/
def isAbsent : Node → Except Fault Bool
  | .scalar tag .plain text => isNull tag text
  | _ => .ok false

/-- The text of a scalar as it is written. -/
def text (document : Document) (node : Node) : Resolver String := do
  match ← Resolver.follow document node with
  | .scalar _ _ text => return text
  | _ => throw (.wrongKind "a scalar")

/-- The entries of a mapping. A plain scalar without text is an empty mapping. -/
def entries : Node → Except Fault (List (Node × Node))
  | .mapping _ entries => .ok entries
  | .scalar _ .plain "" => .ok []
  | _ => .error (.wrongKind "a mapping")

/-- Reads a node unless it is left out or null. -/
def present? {α : Type} (document : Document) (read : Node → Resolver α) (node : Node) :
    Resolver (Option α) := do
  let node ← Resolver.follow document node
  if ← isAbsent node then return none else return some (← read node)

/-- Reads the identifier. -/
def readVlnv (document : Document) : Node → Resolver (Option String) :=
  present? document (text document)

/-- Reads the parameters, whose values may be nested to some depth. -/
def readParameters (document : Document) (depth : Nat) :
    Node → Resolver (Option (List (Value × Value))) :=
  present? document fun node => do
    let nodes ← entries node
    match node with
    | .mapping .. =>
      let depth ← Resolver.descend depth
      Resolver.entries (Resolver.value document depth) nodes
    | _ => return []

/-- A source that is being read, and which keys were there. -/
structure Progress where
  source : Source := {}
  hasVlnv : Bool := false
  hasParameters : Bool := false

/-- Reads one entry of the root. -/
def entry (document : Document) (depth : Nat) (progress : Progress) (entry : Node × Node) :
    Resolver Progress := do
  match ← text document entry.1 with
  | "vlnv" =>
    if progress.hasVlnv then
      throw .repeatedKey
    let vlnv ← readVlnv document entry.2
    return { progress with source := { progress.source with vlnv }, hasVlnv := true }
  | "parameters" =>
    if progress.hasParameters then
      throw .repeatedKey
    let parameters ← readParameters document depth entry.2
    return { progress with source := { progress.source with parameters }, hasParameters := true }
  | _ => return progress

/-- Reads the root of a document, which is a mapping. -/
def read (document : Document) : Resolver Source := do
  match document.root with
  | none => return {}
  | some root =>
    let depth ← Resolver.descend Yaml.maxDepth
    let progress ← (← entries root).foldlM (entry document depth) {}
    return progress.source

/-- The source in a document, read from its root on with no aliases followed yet. -/
def ofDocument (document : Document) : Except Fault Source :=
  (·.1) <$> (read document).run 0

/-- Reads the source that a text holds. -/
def ofText (text : String) : Except Fault Source := do
  ofDocument (← Document.ofTokens (← Yaml.tokens text.toList))

/-! ## Declarations -/

/-- The declarations with one more. One of the same name keeps its place, but not
its value. -/
def declare (declarations : List (String × Value)) (name : String) (value : Value) :
    List (String × Value) :=
  if declarations.any (·.1 = name) then
    declarations.map fun declaration => if declaration.1 = name then (name, value) else declaration
  else
    declarations ++ [(name, value)]

/-- The declarations that a value holds. Tags on it and its keys do not count, and
the keys have to be texts. A `!` at the start of the names of other tags does not
count either. -/
def declarations (value : Value) : Except Fault (List (String × Value)) :=
  match value.untagged with
  | .null => .ok []
  | .mapping entries =>
    entries.foldlM (fun found (key, value) =>
      match key.untagged with
      | .text name => return declare found name (← value.shortenNames)
      | _ => .error (.wrongKind "a text")) []
  | _ => .error (.wrongKind "a mapping")

end Source

end RegMap.Config
