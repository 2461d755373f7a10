import ScriptHost.Diagnostic

/-!
What can be wrong with a source text, from single characters to the use of names, and the wording of
each problem.
-/

namespace ScriptHost

def nestingLimit : Nat := 128

inductive Problem where
  | unexpectedCharacter (c : Char)
  | unterminatedComment
  | unterminatedString
  | unknownEscape (c : Char)
  | integerOutOfRange (digits : String)
  | unexpected (wanted found : String)
  | nestingTooDeep
  | invalidAssignmentTarget
  | redefinesBuiltin (name : String)
  | alreadyDefined (name unit : String) (line : Nat)
  | missingMain (unit : String)
  | duplicateParameter (name : String)
  | alreadyInScope (name : String)
  | undefinedVariable (name : String)
  | undefinedFunction (name : String)
  | functionArity (name : String) (expected found : Nat)
  | builtinArity (name : String) (least most found : Nat)
  | tooManyArguments (name : String)
  | outsideLoop (keyword : String)
  | unusedVariable (name : String)
  | unreachable
deriving DecidableEq, Repr

namespace Problem

def quoted (name : String) : String :=
  "'" ++ name ++ "'"

def severity : Problem → Severity
  | unusedVariable _ => .warning
  | unreachable => .warning
  | _ => .error

def message : Problem → String
  | unexpectedCharacter c => "unexpected character " ++ quoted c.toString
  | unterminatedComment => "unterminated block comment"
  | unterminatedString => "unterminated string literal"
  | unknownEscape c => "unknown escape sequence " ++ quoted ("\\" ++ c.toString)
  | integerOutOfRange digits => "integer literal " ++ digits ++ " is out of range"
  | unexpected wanted found => "expected " ++ wanted ++ ", found " ++ found
  | nestingTooDeep => "nesting is too deep (limit " ++ toString nestingLimit ++ ")"
  | invalidAssignmentTarget => "invalid assignment target"
  | redefinesBuiltin name => "function " ++ quoted name ++ " redefines a builtin"
  | alreadyDefined name unit line =>
    "function " ++ quoted name ++ " is already defined in unit " ++ quoted unit ++ " at line "
      ++ toString line
  | missingMain unit => "entry unit " ++ quoted unit ++ " does not define 'fn main'"
  | duplicateParameter name => "duplicate parameter " ++ quoted name
  | alreadyInScope name => "variable " ++ quoted name ++ " is already defined in this scope"
  | undefinedVariable name => "undefined variable " ++ quoted name
  | undefinedFunction name => "undefined function " ++ quoted name
  | functionArity name expected found =>
    "function " ++ quoted name ++ " expects " ++ toString expected ++ " argument(s), found "
      ++ toString found
  | builtinArity name least most found =>
    "builtin " ++ quoted name ++ " expects "
      ++ (if least = most then toString least else toString least ++ " to " ++ toString most)
      ++ " argument(s), found " ++ toString found
  | tooManyArguments name => "call to " ++ quoted name ++ " has too many arguments"
  | outsideLoop keyword => quoted keyword ++ " outside of a loop"
  | unusedVariable name => "unused variable " ++ quoted name
  | unreachable => "unreachable statement"

end Problem

structure Finding where
  place : Position
  problem : Problem
deriving DecidableEq, Repr

namespace Finding

def toDiagnostic (unit : String) (f : Finding) : Diagnostic :=
  ⟨unit, f.place.line, f.place.column, f.problem.severity, f.problem.message⟩

end Finding

end ScriptHost
