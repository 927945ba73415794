/-!
# Emphasis in texts for people

Diagnostics and status lines emphasise some of their words. A palette decides
how: `plain` leaves texts as they are, `ansi` wraps them in the escape
sequences of a terminal.
-/

namespace RegMap

/-- What an emphasised text stands for. -/
inductive Emphasis where
  | strong
  | error
  | success
  | warning
  | note
deriving DecidableEq

/-- How emphasis is written. -/
inductive Palette where
  | plain
  | ansi
deriving DecidableEq

/-- The graphic rendition parameters of an emphasis: bold, and a colour for all
but `strong`. -/
def Emphasis.parameters : Emphasis → String
  | strong => "1"
  | error => "1;31"
  | success => "1;32"
  | warning => "1;33"
  | note => "1;94"

namespace Palette

/-- The escape sequence that starts an emphasis. -/
def opening (emphasis : Emphasis) : List Char :=
  '\x1b' :: '[' :: emphasis.parameters.toList ++ ['m']

/-- The escape sequence that ends every emphasis. -/
def closing : List Char := ['\x1b', '[', '0', 'm']

/-- Starts an emphasis again wherever the text ends one, so that an emphasised
text inside another does not cut the outer one short. -/
def reopen (emphasis : Emphasis) : List Char → List Char
  | '\x1b' :: '[' :: '0' :: 'm' :: rest => closing ++ opening emphasis ++ reopen emphasis rest
  | c :: rest => c :: reopen emphasis rest
  | [] => []

/-- The text with an emphasis. An empty text is emphasised too. -/
def apply (palette : Palette) (emphasis : Emphasis) (text : String) : String :=
  match palette with
  | plain => text
  | ansi => String.ofList (opening emphasis ++ reopen emphasis text.toList ++ closing)

/-- The text in bold. -/
def strong (palette : Palette) (text : String) : String :=
  palette.apply .strong text

@[simp] theorem apply_plain (emphasis : Emphasis) (text : String) :
    plain.apply emphasis text = text := rfl

@[simp] theorem strong_plain (text : String) : plain.strong text = text := rfl

end Palette

end RegMap
