/-!
# What is wrong with a YAML text

A text can be refused because of its characters, its tokens, its nodes, or the
values that they stand for.
-/

namespace RegMap.Yaml

/-- Why a text was refused. -/
inductive Fault where
  /-- The text holds a control character. -/
  | unreadable (c : Char)
  /-- No token starts with the character. -/
  | unexpected (c : Char)
  /-- A `-`, `?` or `:` stands where it cannot start an entry. -/
  | misplaced (indicator : Char)
  /-- A line that has to be a key has no `:`. -/
  | keyWithoutValue
  /-- A `:` in a flow collection is neither part of a word nor ends a key. -/
  | ambiguousColon
  | tabIndentation
  | unterminatedQuote
  /-- A line of a quoted scalar looks like the start or end of a document. -/
  | markerInQuote
  | malformedEscape
  | malformedBlockHeader
  | malformedAnchor
  | malformedTag
  | malformedDirective
  | repeatedDirective
  | unsupportedVersion
  /-- A tag uses a handle that no directive declares. -/
  | undefinedHandle
  /-- A token stands where the structure of the text has no place for it. -/
  | malformedStructure
  | severalDocuments
  | undefinedAlias
  | excessiveDepth
  | excessiveAliases
  | repeatedKey
  /-- A scalar is not what its tag says. -/
  | malformedScalar (expected : String)
  | oversizedInteger
  /-- A value is of another kind than its reader needs. -/
  | wrongKind (expected : String)
deriving DecidableEq

namespace Fault

/-- What is told of a fault. -/
def message : Fault → String
  | unreadable c => s!"control character {c.toNat} is not allowed"
  | unexpected c => s!"character {c} cannot start a token"
  | misplaced indicator => s!"indicator {indicator} is not allowed here"
  | keyWithoutValue => "a key has no value"
  | ambiguousColon => "a colon is ambiguous here"
  | tabIndentation => "a tab is used as indentation"
  | unterminatedQuote => "a quoted scalar has no end"
  | markerInQuote => "a quoted scalar holds a document marker"
  | malformedEscape => "a quoted scalar holds an unknown escape"
  | malformedBlockHeader => "a block scalar has a malformed header"
  | malformedAnchor => "an anchor or alias has a malformed name"
  | malformedTag => "a tag is malformed"
  | malformedDirective => "a directive is malformed"
  | repeatedDirective => "a directive is repeated"
  | unsupportedVersion => "the version is not supported"
  | undefinedHandle => "a tag handle is not defined"
  | malformedStructure => "a token is out of place"
  | severalDocuments => "there is more than one document"
  | undefinedAlias => "an alias has no anchor"
  | excessiveDepth => "the nesting is too deep"
  | excessiveAliases => "aliases repeat the document too often"
  | repeatedKey => "a mapping repeats a key"
  | malformedScalar expected => s!"a scalar is not {expected}"
  | oversizedInteger => "an integer is too large"
  | wrongKind expected => s!"a value is not {expected}"

end Fault

end RegMap.Yaml
