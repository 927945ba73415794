import RegMap.Yaml.Token

/-!
# Gaps between words

Scalars may go on over several lines. The gap between two words is kept when it
lies on one line; over several lines it is folded: a single line feed becomes a
space, and of more line breaks the first is dropped when it is a line feed.
-/

namespace RegMap.Yaml

/-- What separates two words. -/
inductive Gap where
  | blanks (text : List Char)
  /-- Line breaks: the first, unless it was escaped, and the others. -/
  | broken (first : Option Char) (more : List Char)
deriving DecidableEq

namespace Gap

/-- No gap at all. -/
def none : Gap := blanks []

/-- Whether a gap has a line break. -/
def isBroken : Gap → Bool
  | blanks _ => false
  | broken .. => true

/-- The gap with one more blank or line break. Blanks count only before the first
line break. -/
def extend (c : Char) : Gap → Gap
  | blanks text => if isBreak c then broken (some c) [] else blanks (text ++ [c])
  | broken first more => if isBreak c then broken first (more ++ [c]) else broken first more

/-- What the gap is in the text of the scalar. -/
def text : Gap → List Char
  | blanks text => text
  | broken (some '\n') [] => [' ']
  | broken (some '\n') more => more
  | broken first more => first.toList ++ more

end Gap

end RegMap.Yaml
