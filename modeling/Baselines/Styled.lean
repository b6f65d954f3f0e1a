import Baselines.Text.Basic

/-!
# Styled text

Text whose parts may be coloured or bold. It is written plainly, or with escape sequences that
switch the style of a part on before it and off after it.
-/

namespace Baselines

/-- The colours in use. -/
inductive Colour where
  | red
  | green
  | yellow
  | cyan
  deriving DecidableEq, Repr

/-- How a part of a text is shown. -/
structure Style where
  bold : Bool
  colour : Option Colour
  deriving DecidableEq, Repr

namespace Style

/-- Nothing special. -/
def plain : Style := ⟨false, none⟩

def of (c : Colour) : Style := ⟨false, some c⟩

def boldOf (c : Colour) : Style := ⟨true, some c⟩

-- Bold alone.
def strong : Style := ⟨true, none⟩

-- The number that switches a colour on.
def colourCode : Colour → Text
  | .red => "31"
  | .green => "32"
  | .yellow => "33"
  | .cyan => "36"

def codes (s : Style) : List Text :=
  (if s.bold then [("1" : Text)] else []) ++ (s.colour.map colourCode).toList

def opening (s : Style) : Text := "\x1b[" ++ Text.join [';'] s.codes ++ ['m']

/-- The escape sequence that switches every style off. -/
def closing : Text := "\x1b[0m"

-- A text in a style; where the text itself switches styles off, the style is switched on again.
def paint (s : Style) (t : Text) : Text :=
  if s = plain then t
  else s.opening ++ Text.replace closing (closing ++ s.opening) t ++ closing

end Style

/-- A text in parts, each with its style. -/
abbrev Styled := List (Style × Text)

namespace Styled

def plain (t : Text) : Styled := [(.plain, t)]

def styled (s : Style) (t : Text) : Styled := [(s, t)]

def bare (s : Styled) : Text := s.flatMap (·.2)

def painted (s : Styled) : Text := s.flatMap fun p => p.1.paint p.2

/-- The text as it is written, in colour or not. -/
def text (colour : Bool) (s : Styled) : Text := if colour then s.painted else s.bare

end Styled

end Baselines
