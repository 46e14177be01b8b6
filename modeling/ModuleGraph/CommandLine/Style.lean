/-!
# Styled output

Output is a list of pieces, some of which are styled. On a terminal with colors a styled piece is
written between escape sequences: a reset, the codes of the style, the text, and a reset.
-/

namespace ModuleGraph.CommandLine

/-- The colors in use. -/
inductive Color where
  | green
  | yellow
  | cyan
deriving DecidableEq, Repr, Inhabited

/-- How a piece looks. -/
structure Style where
  color : Option Color := none
  isBold : Bool := false
deriving DecidableEq, Repr, Inhabited

/-- A piece of output. -/
inductive Piece where
  | plain (text : String)
  | styled (style : Style) (text : String)
deriving DecidableEq, Repr, Inhabited

/-- The digit of a color. -/
def Color.code : Color → String
  | green => "2"
  | yellow => "3"
  | cyan => "6"

/-- An escape sequence that selects how text looks. -/
def escapeSequence (code : String) : String :=
  "\x1b[" ++ code ++ "m"

/-- The escape sequences that switch a style on. -/
def Style.codes (style : Style) : String :=
  escapeSequence "0" ++ (if style.isBold then escapeSequence "1" else "") ++
    (match style.color with
      | some color => escapeSequence ("3" ++ color.code)
      | none => "")

namespace Piece

/-- What went well: green and bold. -/
def success (text : String) : Piece :=
  .styled { color := some .green, isBold := true } text

/-- What to look at: yellow and bold. -/
def warning (text : String) : Piece :=
  .styled { color := some .yellow, isBold := true } text

/-- What is secondary: cyan. -/
def info (text : String) : Piece :=
  .styled { color := some .cyan } text

/-- A heading: bold. -/
def bold (text : String) : Piece :=
  .styled { isBold := true } text

/-- A line feed. -/
def newLine : Piece :=
  .plain "\n"

/-- The text of a piece, with or without its style. -/
def render (paint : Bool) : Piece → String
  | plain text => text
  | styled style text =>
    if paint then style.codes ++ text ++ escapeSequence "0" else text

end Piece

/-- The text of a list of pieces. -/
def renderAll (paint : Bool) (pieces : List Piece) : String :=
  .join (pieces.map (Piece.render paint))

end ModuleGraph.CommandLine
