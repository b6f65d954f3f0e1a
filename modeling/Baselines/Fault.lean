import Baselines.Text.Encoding

/-!
# Faults of a baseline

What can be wrong with the name or the bytes of one baseline or test source.
-/

namespace Baselines

/-- A fault in the name or the contents of a file. -/
inductive Fault where
  | emptyTest (name : Text)
  | badExtension (name extension : Text)
  | unbalanced (name : Text)
  | badOption (name option : Text)
  | unknownTarget (value : Text)
  | noFileName (path : Text)
  | undecodable (encoding : Encoding)
  deriving DecidableEq, Repr

/-- The sentence that reports a fault. -/
def Fault.message : Fault → Text
  | emptyTest name => "fixture name '" ++ name ++ "' has no test name"
  | badExtension name ext =>
    "fixture name '" ++ name ++ "' has unsupported extension '" ++ ext ++ "'"
  | unbalanced name => "fixture name '" ++ name ++ "' has unbalanced parentheses"
  | badOption name option =>
    "fixture option '" ++ option ++ "' in '" ++ name ++ "' is not of the form key=value"
  | unknownTarget value => "unsupported target '" ++ value ++ "'"
  | noFileName path => "path '" ++ path ++ "' has no file name"
  | undecodable e => "source text is not valid " ++ e.label

end Baselines
