import Baselines.Text.Basic

/-!
# Lines of a text

A line ends at a line feed; one carriage return before the line feed belongs to the line's end. A
last line without a line feed is a line too, and keeps its carriage return.
-/

namespace Baselines.Text

/-- A line without one carriage return at its end. -/
def dropReturn (line : Text) : Text := (dropTail? ['\r'] line).getD line

def lines (t : Text) : List Text :=
  match (splitOn '\n' t).reverse with
  | [] => []
  | last :: front =>
    let ended := front.reverse.map dropReturn
    if last = [] then ended else ended ++ [last]

/-- The lines joined by line feeds, with none after the last. -/
def unlines (ls : List Text) : Text := join ['\n'] ls

/-- The text of a file that may begin with a byte order mark. -/
def dropMark (t : Text) : Text := (dropLead? ['\uFEFF'] t).getD t

def dropLineFeeds (t : Text) : Text := dropEndWhile (· == '\n') t

/-- The text without the line feeds and carriage returns at its end. -/
def dropLineEnds (t : Text) : Text := dropEndWhile (fun c => c == '\n' || c == '\r') t

end Baselines.Text
