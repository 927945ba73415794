import RegMap.Yaml.Token

/-!
# Nodes

Tokens make up one document: a tree of scalars, sequences, mappings and aliases.
An anchor gives a node a number, and an alias refers to the last node that
started with the number of its name. Anchors may be used again, so the number of
an anchor is how many names there were before it, not how many nodes.
-/

namespace RegMap.Yaml

/-- A node of a document. -/
inductive Node where
  | alias (number : Nat)
  | scalar (tag : Option Octets) (style : Style) (text : String)
  | sequence (tag : Option Octets) (items : List Node)
  | mapping (tag : Option Octets) (entries : List (Node × Node))

instance : Inhabited Node := ⟨.alias 0⟩

/-- A node with a number, and where it starts among all nodes. -/
structure Anchored where
  number : Nat
  start : Nat
  node : Node

/-- The document of a text. -/
structure Document where
  /-- An empty text has no root. -/
  root : Option Node
  anchored : List Anchored
  /-- How many ends the nodes have: collections have two, others one. -/
  size : Nat

/-- The node that an alias refers to. -/
def Document.find? (document : Document) (number : Nat) : Option Node :=
  (document.anchored.find? (·.number = number)).map (·.node)

/-- What is known of a document while its tokens are read. -/
structure Composition where
  /-- The tokens that are left. -/
  tokens : List Token
  /-- The octets that tag handles stand for. -/
  handles : List (List Char × Octets) := []
  /-- The numbers of the names of anchors. -/
  names : List (List Char × Nat) := []
  anchored : List Anchored := []
  size : Nat := 0

/-- Composers take what they read from the tokens that are left. -/
abbrev Composer := StateT Composition (Except Fault)

namespace Composer

/-- The next token, unless the text ends. -/
def next? : Composer (Option Token) := do
  return (← get).tokens.head?

/-- Goes on behind the next token. -/
def skip : Composer Unit :=
  modify fun state => { state with tokens := state.tokens.tail }

/-- Reads a token that has to be next. -/
def take (token : Token) : Composer Unit := do
  if (← next?) = some token then skip else throw .malformedStructure

/-- Whether one of some tokens is next. -/
def nextIn (tokens : List Token) : Composer Bool := do
  return (← next?).any tokens.contains

/-- Counts the ends of a node. -/
def count (ends : Nat) : Composer Unit :=
  modify fun state => { state with size := state.size + ends }

/-! ## Properties of nodes -/

/-- The octets of a tag whose handle is written out. -/
def tag (handle : List Char) (octets : Octets) : Composer Octets := do
  if handle.isEmpty then
    return octets
  match (← get).handles.lookup handle with
  | some start => return start ++ octets
  | none => throw .undefinedHandle

/-- The name of an anchor, if one is next. -/
def anchor? : Composer (Option (List Char)) := do
  match ← next? with
  | some (.anchor name) =>
    skip
    return some name
  | _ => return none

/-- The octets of a tag, if one is next. -/
def tag? : Composer (Option Octets) := do
  match ← next? with
  | some (.tag handle octets) =>
    skip
    return some (← tag handle octets)
  | _ => return none

/-- The anchor and the tag of a node, which may stand in either order. -/
def properties : Composer (Option (List Char) × Option Octets) := do
  match ← anchor? with
  | some name => return (some name, ← tag?)
  | none =>
    let octets ← tag?
    if octets.isSome then return (← anchor?, octets) else return (none, none)

/-- Gives a name to the node that starts here. -/
def number (name : List Char) : Composer Nat := do
  let state ← get
  let number := state.names.length
  set { state with names := (name, number) :: state.names.filter (·.1 ≠ name) }
  return number

/-- Remembers a node under its number, unless one that started later has it. -/
def remember (anchored : Anchored) : Composer Unit :=
  modify fun state =>
    if state.anchored.any fun other =>
        other.number = anchored.number && other.start > anchored.start then
      state
    else
      { state with anchored := anchored :: state.anchored }

/-- Reads a node, which has a name perhaps. -/
def named (name : Option (List Char)) (read : Composer Node) : Composer Node := do
  match name with
  | none => read
  | some name =>
    let start := (← get).size
    let number ← number name
    let node ← read
    remember ⟨number, start, node⟩
    return node

/-! ## Nodes -/

/-- A scalar. -/
def scalar (octets : Option Octets) (style : Style) (text : List Char) : Composer Node := do
  count 1
  return .scalar octets style (String.ofList text)

/-- The scalar where a node is left out. -/
def empty (octets : Option Octets) : Composer Node := do
  count 1
  return .scalar octets .plain ""

/-- A node unless it is left out, as one of some tokens shows. -/
def nodeUnless (ends : List Token) (read : Composer Node) : Composer Node := do
  if ← nextIn ends then empty none else read

/-- A value after its `:`, or an empty one if there is none. -/
def value (ends : List Token) (read : Composer Node) : Composer Node := do
  if ← nextIn [.value] then
    skip
    nodeUnless ends read
  else
    empty none

/-- What ends an entry of a block mapping. -/
def blockEnds : List Token := [.key, .value, .blockEnd]

/-- What ends an item of a flow sequence. -/
def flowItemEnds : List Token := [.separator, .flowSequenceEnd]

/-- What ends an entry of a flow mapping. -/
def flowEntryEnds : List Token := [.separator, .flowMappingEnd]

mutual

/-- Reads a node. Block collections may start only in a block; the sequence of a
mapping's key or value need not be indented. The bound is on the nesting of
calls. -/
def node (bound : Nat) (inBlock inMapping : Bool) : Composer Node :=
  match bound with
  | 0 => throw .malformedStructure
  | bound + 1 => do
    if let some (.alias name) ← next? then
      skip
      count 1
      match (← get).names.lookup name with
      | some number => return .alias number
      | none => throw .undefinedAlias
    let (name, octets) ← properties
    match ← next? with
    | some (.scalar style text) =>
      skip
      named name (scalar octets style text)
    | some .flowSequence =>
      skip
      named name do
        count 2
        return .sequence octets (← flowItems bound true)
    | some .flowMapping =>
      skip
      named name do
        count 2
        return .mapping octets (← flowEntries bound true)
    | found =>
      if inMapping && found = some .entry then
        named name do
          count 2
          return .sequence octets (← flushItems bound)
      else if inBlock && found = some .blockSequence then
        skip
        named name do
          count 2
          return .sequence octets (← blockItems bound)
      else if inBlock && found = some .blockMapping then
        skip
        named name do
          count 2
          return .mapping octets (← blockEntries bound)
      else if name.isSome || octets.isSome then
        named name (empty octets)
      else
        throw .malformedStructure

/-- The items of an indented sequence. -/
def blockItems (bound : Nat) : Composer (List Node) :=
  match bound with
  | 0 => throw .malformedStructure
  | bound + 1 => do
    if ← nextIn [.blockEnd] then
      skip
      return []
    take .entry
    let item ← nodeUnless [.entry, .blockEnd] (node bound true false)
    return item :: (← blockItems bound)

/-- The items of a sequence that is not indented. -/
def flushItems (bound : Nat) : Composer (List Node) :=
  match bound with
  | 0 => throw .malformedStructure
  | bound + 1 => do
    if ← nextIn [.entry] then
      skip
      let item ← nodeUnless (.entry :: blockEnds) (node bound true false)
      return item :: (← flushItems bound)
    else
      return []

/-- The entries of an indented mapping. -/
def blockEntries (bound : Nat) : Composer (List (Node × Node)) :=
  match bound with
  | 0 => throw .malformedStructure
  | bound + 1 => do
    if ← nextIn [.blockEnd] then
      skip
      return []
    take .key
    let key ← nodeUnless blockEnds (node bound true true)
    let value ← value blockEnds (node bound true true)
    return (key, value) :: (← blockEntries bound)

/-- The items of a flow sequence. A key makes an item a mapping of its own; the
token that shows that the key is left out belongs to it. -/
def flowItems (bound : Nat) (first : Bool) : Composer (List Node) :=
  match bound with
  | 0 => throw .malformedStructure
  | bound + 1 => do
    if ← nextIn [.flowSequenceEnd] then
      skip
      return []
    if !first then
      take .separator
    match ← next? with
    | some .flowSequenceEnd =>
      skip
      return []
    | some .key =>
      skip
      count 2
      let omitted ← nextIn (.value :: flowItemEnds)
      if omitted then
        skip
      let key ← if omitted then empty none else node bound false false
      let value ← value flowItemEnds (node bound false false)
      return .mapping none [(key, value)] :: (← flowItems bound false)
    | _ =>
      let item ← node bound false false
      return item :: (← flowItems bound false)

/-- The entries of a flow mapping. -/
def flowEntries (bound : Nat) (first : Bool) : Composer (List (Node × Node)) :=
  match bound with
  | 0 => throw .malformedStructure
  | bound + 1 => do
    if ← nextIn [.flowMappingEnd] then
      skip
      return []
    if !first then
      take .separator
    match ← next? with
    | some .flowMappingEnd =>
      skip
      return []
    | some .key =>
      skip
      let key ← nodeUnless (.value :: flowEntryEnds) (node bound false false)
      let value ← value flowEntryEnds (node bound false false)
      return (key, value) :: (← flowEntries bound false)
    | _ =>
      let key ← node bound false false
      let value ← empty none
      return (key, value) :: (← flowEntries bound false)

end

/-! ## Documents -/

/-- The handles that need no declaration. -/
def defaultHandles : List (List Char × Octets) :=
  [(['!'], [0x21]), (['!', '!'], "tag:yaml.org,2002:".toUTF8.toList)]

/-- Reads directives. A version has to be one of those that this library reads. -/
def directives (bound : Nat) (versioned : Bool) : Composer Unit :=
  match bound with
  | 0 => return
  | bound + 1 => do
    match ← next? with
    | some (.version major minor) =>
      if versioned then
        throw .repeatedDirective
      if major ≠ 1 || (minor ≠ 1 && minor ≠ 2) then
        throw .unsupportedVersion
      skip
      directives bound true
    | some (.handle name octets) =>
      if ((← get).handles.lookup name).isSome then
        throw .repeatedDirective
      skip
      modify fun state => { state with handles := state.handles ++ [(name, octets)] }
      directives bound versioned
    | _ => return

/-- Whether a directive is next. -/
def directiveNext : Composer Bool := do
  match ← next? with
  | some (.version ..) | some (.handle ..) => return true
  | _ => return false

/-- Adds the handles that need no declaration. Declared ones come first. -/
def addHandles : Composer Unit :=
  modify fun state => { state with handles := state.handles ++ defaultHandles }

/-- Reads the root of the document. An empty text has none. -/
def root (bound : Nat) : Composer (Option Node) := do
  if (← next?).isNone then
    return none
  if (← directiveNext) || (← nextIn [.documentStart]) then
    directives bound false
    addHandles
    take .documentStart
    if (← directiveNext) || (← nextIn [.documentStart, .documentEnd]) || (← next?).isNone then
      return some (← empty none)
  else
    addHandles
  return some (← node bound true false)

/-- Reads the only document of a text. -/
def document (bound : Nat) : Composer Document := do
  let root ← root bound
  let state ← get
  if (state.tokens.dropWhile (· = .documentEnd)).isEmpty then
    return ⟨root, state.anchored, state.size⟩
  else
    throw .severalDocuments

end Composer

/-- The document of tokens. Between two tokens there are at most three calls. -/
def Document.ofTokens (tokens : List Token) : Except Fault Document :=
  (·.1) <$> (Composer.document (3 * tokens.length + 8)).run { tokens }

end RegMap.Yaml
