import RegMap.Yaml.Node
import RegMap.Yaml.Number

/-!
# Values

The nodes of a document stand for values. Tags say what a scalar is; without one
a plain scalar is read by its form, and any other is a text. A tag of the
document's own leaves its value as it would be without it, and marks it.
-/

namespace RegMap.Yaml

/-- What a node stands for. -/
inductive Value where
  | null
  | boolean (value : Bool)
  | number (value : Number)
  | text (value : String)
  | sequence (items : List Value)
  /-- The entries in order. No two keys are the same. -/
  | mapping (entries : List (Value × Value))
  | tagged (name : String) (value : Value)

instance : Inhabited Value := ⟨.null⟩

namespace Value

/-- The value without its marks. -/
def untagged : Value → Value
  | tagged _ value => value.untagged
  | value => value

/-! ## Names of tags -/

/-- The name of a tag after the `!` that it starts with, unless there is nothing
else. -/
def nameWithoutBang (name : String) : String :=
  match name.toList with
  | '!' :: c :: rest => String.ofList (c :: rest)
  | _ => name

/-! ## Equal keys -/

mutual

/-- Whether two values are the same key. The order of entries does not count, and
neither does a `!` at the start of the name of a tag. -/
def same : Value → Value → Bool
  | null, null => true
  | boolean a, boolean b => a = b
  | number a, number b => a.same b
  | text a, text b => a = b
  | sequence as, sequence bs => sameItems as bs
  | mapping as, mapping bs => as.length = bs.length && sameEntries as bs
  | tagged a u, tagged b v => nameWithoutBang a = nameWithoutBang b && u.same v
  | _, _ => false

/-- Whether two sequences have the same items, one by one. -/
def sameItems : List Value → List Value → Bool
  | [], [] => true
  | a :: as, b :: bs => a.same b && sameItems as bs
  | _, _ => false

/-- Whether each entry is the same as one of the others. -/
def sameEntries : List (Value × Value) → List (Value × Value) → Bool
  | [], _ => true
  | (key, value) :: rest, others =>
    others.any (fun other => key.same other.1 && value.same other.2) && sameEntries rest others

end

/-! ## Shorter names -/

/-- Whether an entry repeats the key of another one. -/
def repeatsKey : List (Value × Value) → Bool
  | [] => false
  | (key, _) :: rest => rest.any (key.same ·.1) || repeatsKey rest

mutual

/-- The value with one `!` less at the start of the names of its tags. Keys that
become the same are refused. -/
def shortenNames : Value → Except Fault Value
  | tagged name value => do
    return tagged (nameWithoutBang name) (← value.shortenNames)
  | sequence items => do
    return sequence (← shortenItems items)
  | mapping entries => do
    let entries ← shortenEntries entries
    if repeatsKey entries then
      throw .repeatedKey
    return mapping entries
  | value => return value

/-- The items with shorter names. -/
def shortenItems : List Value → Except Fault (List Value)
  | [] => return []
  | item :: rest => do
    return (← item.shortenNames) :: (← shortenItems rest)

/-- The entries with shorter names, in keys and values. -/
def shortenEntries : List (Value × Value) → Except Fault (List (Value × Value))
  | [] => return []
  | (key, value) :: rest => do
    return (← key.shortenNames, ← value.shortenNames) :: (← shortenEntries rest)

end

/-! ## Looking up -/

/-- The value of a key that is a text. -/
def lookup? (key : String) (entries : List (Value × Value)) : Option Value :=
  (entries.find? fun entry => (text key).same entry.1).map (·.2)

/-! ## Scalars -/

/-- The spellings of null. -/
def isNull (text : String) : Bool :=
  ["null", "Null", "NULL", "~"].contains text

/-- The spellings of the truth values. -/
def boolean? (text : String) : Option Bool :=
  if ["true", "True", "TRUE"].contains text then some true
  else if ["false", "False", "FALSE"].contains text then some false
  else none

/-- The integer that a text stands for, unless it is large enough to be read as a
floating-point number. -/
def integer? (text : String) : Except Fault (Option Value) :=
  match Number.integer? text.toList with
  | none => .ok none
  | some value =>
    if Number.fitsWord value then .ok (some (number (.integer value)))
    else if Number.fitsTwoWords value then .error .oversizedInteger
    else .ok none

/-- Whether a text is made of digits but is no number. -/
def isPadded (text : String) : Bool :=
  match text.toList with
  | '-' :: digits | '+' :: digits => Number.hasLeadingZero digits
  | digits => Number.hasLeadingZero digits

/-- The value of a plain scalar without a tag. -/
def ofPlain (text : String) : Except Fault Value := do
  if text.isEmpty || isNull text then
    return null
  if let some value := boolean? text then
    return boolean value
  if let some value ← integer? text then
    return value
  if !isPadded text then
    if let some value := Number.float? text.toList then
      return number (.float value)
  return .text text

/-- A tag that the document defines itself starts with `!`. -/
def localTag : Octets → Bool
  | first :: _ => first = 0x21
  | [] => false

/-- The name of a tag that the document defines itself, if it is a text. -/
def localName? (tag : Octets) : Option String :=
  if localTag tag then
    (String.fromUTF8? ⟨tag.toArray⟩).map nameWithoutBang
  else
    none

/-- The octets of a tag that every document may use. -/
def sharedTag (name : String) : Octets :=
  ("tag:yaml.org,2002:" ++ name).toUTF8.toList

/-- The value of a scalar without a tag. -/
def ofUntagged (style : Style) (text : String) : Except Fault Value :=
  if style = .plain then ofPlain text else .ok (.text text)

/-- The value of a scalar whose tag names no value of the document's own. -/
def ofShared (tag : Octets) (style : Style) (text : String) : Except Fault Value :=
  let require (expected : String) (value : Option Value) : Except Fault Value :=
    match value with
    | some value => .ok value
    | none => .error (.malformedScalar expected)
  if tag = sharedTag "bool" then
    require "a boolean" ((boolean? text).map boolean)
  else if tag = sharedTag "int" then do
    require "an integer" (← integer? text)
  else if tag = sharedTag "float" then
    require "a float" ((Number.float? text.toList).map fun value => number (.float value))
  else if tag = sharedTag "null" then
    require "null" (if isNull text then some null else none)
  else if localTag tag then
    ofUntagged style text
  else
    .ok (.text text)

/-- The value of a scalar. -/
def ofScalar (tag : Option Octets) (style : Style) (text : String) : Except Fault Value :=
  match tag with
  | none => ofUntagged style text
  | some tag =>
    match localName? tag with
    | some name => return tagged name (← ofUntagged style text)
    | none => ofShared tag style text

/-- A value with the mark of its tag. -/
def mark (tag : Option Octets) (value : Value) : Value :=
  match tag.bind localName? with
  | some name => tagged name value
  | none => value

end Value

/-! ## Nodes -/

/-- Resolvers count how many aliases they follow. -/
abbrev Resolver := StateT Nat (Except Fault)

/-- How deep collections may be nested. -/
def maxDepth : Nat := 128

/-- How many aliases may be followed for each end of a node. -/
def aliasQuota : Nat := 100

namespace Resolver

/-- The node, or what it refers to if it is an alias. -/
def follow (document : Document) : Node → Resolver Node
  | .alias number => do
    let followed := (← get) + 1
    set followed
    if followed > aliasQuota * document.size then
      throw .excessiveAliases
    match document.find? number with
    | some node => return node
    | none => throw .undefinedAlias
  | node => return node

/-- The depth that is left inside a collection. -/
def descend (depth : Nat) : Resolver Nat :=
  match depth with
  | 0 => throw .excessiveDepth
  | depth + 1 => return depth

/-- The entries of a mapping, given how its nodes are read. Keys are distinct. -/
def entries (read : Node → Resolver Value) (nodes : List (Node × Node)) :
    Resolver (List (Value × Value)) :=
  nodes.foldlM (fun found (key, value) => do
    let key ← read key
    if found.any (·.1.same key) then
      throw .repeatedKey
    return found ++ [(key, ← read value)]) []

/-- The value of a node, whose collections may be nested to some depth. -/
def value (document : Document) (depth : Nat) (node : Node) : Resolver Value := do
  match ← follow document node with
  | .scalar tag style text => Value.ofScalar tag style text
  | .sequence tag items =>
    match depth with
    | 0 => throw .excessiveDepth
    | depth + 1 => return .mark tag (.sequence (← items.mapM (value document depth)))
  | .mapping tag nodes =>
    match depth with
    | 0 => throw .excessiveDepth
    | depth + 1 => return .mark tag (.mapping (← entries (value document depth) nodes))
  | .alias _ => throw .undefinedAlias

end Resolver

end RegMap.Yaml
