import ScriptHost.Syntax.Token
import ScriptHost.Text.Blank
import ScriptHost.Text.Letter
import ScriptHost.Text.Numeral

/-!
A text as a sequence of lexemes. Every character belongs to exactly one lexeme, so the texts of the
lexemes, joined, are the text they came from.
-/

namespace ScriptHost

inductive LexemeKind where
  | blank
  | comment
  | openComment
  | quoted
  | openQuoted
  | number
  | word
  | sign (sign : Sign)
  | stray
deriving DecidableEq, Repr

structure Lexeme where
  kind : LexemeKind
  text : List Char
deriving DecidableEq, Repr

namespace Lexeme

def isDigit (c : Char) : Bool :=
  '0' ≤ c && c ≤ '9'

def isNumberPart (c : Char) : Bool :=
  isDigit c || c == '_'

def isWordStart (c : Char) : Bool :=
  Text.isLetter c || c == '_'

def isWordPart (c : Char) : Bool :=
  Text.isLetter c || Text.isNumeral c || c == '_'

def runLength (p : Char → Bool) (cs : List Char) : Nat :=
  (cs.takeWhile p).length

def closeLength? (n : Nat) : List Char → Option Nat
  | '*' :: '/' :: _ => some (n + 2)
  | _ :: cs => closeLength? (n + 1) cs
  | [] => none

/-- How long the rest of a quoted text is and whether a quote closes it, with `n` characters behind.
A line end stops it, a character after a backslash does not. -/
def quotedLength (n : Nat) : List Char → Nat × Bool
  | [] => (n, false)
  | '"' :: _ => (n + 1, true)
  | '\n' :: _ => (n + 1, false)
  | '\\' :: _ :: cs => quotedLength (n + 2) cs
  | _ :: cs => quotedLength (n + 1) cs

/-- The kind of the lexeme that starts with `c`, and how many of the characters after it belong
to it. -/
def measure (c : Char) (cs : List Char) : LexemeKind × Nat :=
  if Text.isBlank c then (.blank, runLength Text.isBlank cs)
  else if c == '/' && cs.head? == some '/' then (.comment, runLength (· != '\n') cs)
  else if c == '/' && cs.head? == some '*' then
    match closeLength? 1 cs.tail with
    | some n => (.comment, n)
    | none => (.openComment, cs.length)
  else if c == '"' then
    match quotedLength 0 cs with
    | (n, true) => (.quoted, n)
    | (n, false) => (.openQuoted, n)
  else if isDigit c then (.number, runLength isNumberPart cs)
  else if isWordStart c then (.word, runLength isWordPart cs)
  else
    match cs.head?.bind (Sign.pair? c), Sign.single? c with
    | some sign, _ => (.sign sign, 1)
    | none, some sign => (.sign sign, 0)
    | none, none => (.stray, 0)

def splitOnto (found : List Lexeme) : List Char → List Lexeme
  | [] => found.reverse
  | c :: cs =>
    splitOnto (⟨(measure c cs).1, c :: cs.take (measure c cs).2⟩ :: found)
      (cs.drop (measure c cs).2)
  termination_by cs => cs.length

def split (cs : List Char) : List Lexeme :=
  splitOnto [] cs

theorem flatMap_splitOnto (found : List Lexeme) (cs : List Char) :
    (splitOnto found cs).flatMap text = found.reverse.flatMap text ++ cs := by
  fun_induction splitOnto found cs with
  | case1 found => simp
  | case2 found c cs ih => simp [ih, List.append_assoc]

/-- No character is lost and none belongs to two lexemes. -/
theorem flatMap_split (cs : List Char) : (split cs).flatMap text = cs := by
  simp [split, flatMap_splitOnto]

end Lexeme

end ScriptHost
