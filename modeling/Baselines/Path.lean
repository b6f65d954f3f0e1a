import Baselines.Fault
import Baselines.Name

/-!
# Paths

A path is a text of steps with slashes between; it is absolute when it begins with a slash. Empty
steps and single dots say nothing, and two dots go back to the folder above.
-/

namespace Baselines

/-- A path as it is written. -/
abbrev Path := Text

namespace Path

/-! ## 1. Steps -/

/-- Whether a step says nothing. -/
def isIdle {α : Type} [DecidableEq α] (dot : α) (step : List α) : Bool := step = [] || step = [dot]

/-- The last step that says something, unless it goes back. -/
def lastStep? {α : Type} [DecidableEq α] (slash dot : α) (p : List α) : Option (List α) :=
  (((Text.splitOn slash p).reverse.dropWhile (isIdle dot)).head?).filter (· ≠ [dot, dot])

/-- Whether a step is the name of a file or a folder: it leads there, and no slash cuts it. -/
def isName (step : Text) : Bool := !isIdle '.' step && step ≠ ['.', '.'] && !step.contains '/'

/-- Whether the path starts at the root. -/
def isAbsolute (p : Path) : Bool := p.head? = some '/'

/-- The name of the file or folder that the path leads to, if it ends with a name. -/
def fileName? (p : Path) : Option Text := lastStep? '/' '.' p

/-- The path without its last step, as it is written; a root alone and an empty path have none. -/
def parent? (p : Path) : Option Path :=
  let steps := (Text.splitOn '/' p).reverse.dropWhile (isIdle '.')
  let leading := ((Text.splitOn '/' p).head?).getD []
  match steps with
  | [] => if leading = ['.'] then some [] else none
  | _ :: front =>
    match front.dropWhile (isIdle '.') with
    | [] =>
      if isAbsolute p then some ['/']
      else if front ≠ [] ∧ leading = ['.'] then some ['.']
      else some []
    | kept => some (Text.join ['/'] kept.reverse)

def append (base p : Path) : Path :=
  if isAbsolute p then p
  else if base = [] then p
  else if base.getLast? = some '/' then base ++ p
  else base ++ '/' :: p

end Path

/-! ## 2. Names at the end of paths -/

/-- The identity carried by the last step of a path. -/
def Name.ofPath (p : Path) : Except Fault Name :=
  match p.fileName? with
  | some name => Name.parse name
  | none => .error (.noFileName p)

-- The identity carried by the last step of a path that is given by its bytes.
def Name.ofPathBytes (p : Bytes) : Except Fault Name :=
  match (Path.lastStep? 0x2F 0x2E p).bind Encoding.utf8Decode? with
  | some name => Name.parse name
  | none => .error (.noFileName (Encoding.utf8Lossy p))

end Baselines
