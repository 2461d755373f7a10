import ScriptHost.Problem
import ScriptHost.Syntax.Lexeme
import ScriptHost.Word

/-!
Reading the tokens of a text off its lexemes. Blanks and comments give none, a lexeme that cannot be
read gives a finding, and the last token is always the end of the text.
-/

namespace ScriptHost

namespace Lexeme

/-- The value of some digits, or a number past the limit if it is too large. -/
def decimal (digits : List Char) : Nat :=
  digits.foldl (fun v d => if v < signedLimit then 10 * v + (d.toNat - '0'.toNat) else v) 0

def escaped? : Char → Option Char
  | 'n' => some '\n'
  | 't' => some '\t'
  | 'r' => some '\r'
  | '0' => some '\x00'
  | '\\' => some '\\'
  | '"' => some '"'
  | _ => none

/-- The value of the rest of a quoted text and its bad escapes, newest first; `p` is the place of
the next character. -/
def unescape (p : Position) (value : String) (found : List Finding) :
    List Char → String × List Finding
  | [] => (value, found)
  | '"' :: _ => (value, found)
  | '\n' :: _ => (value, found)
  | '\\' :: c :: cs =>
    match escaped? c with
    | some e => unescape ((p.next '\\').next c) (value.push e) found cs
    | none => unescape ((p.next '\\').next c) value (⟨p, .unknownEscape c⟩ :: found) cs
  | ['\\'] => (value, found)
  | c :: cs => unescape (p.next c) (value.push c) found cs

def read (p : Position) (x : Lexeme) : Option TokenKind × List Finding :=
  match x.kind with
  | .blank => (none, [])
  | .comment => (none, [])
  | .openComment => (none, [⟨p, .unterminatedComment⟩])
  | .quoted =>
    let (value, found) := unescape (p.after (x.text.take 1)) "" [] x.text.tail
    (some (.str value), found)
  | .openQuoted =>
    let (_, found) := unescape (p.after (x.text.take 1)) "" [] x.text.tail
    (none, ⟨p, .unterminatedString⟩ :: found)
  | .number =>
    let digits := x.text.filter isDigit
    let value := decimal digits
    if value < signedLimit then (some (.int (Int64.ofNat value)), [])
    else (none, [⟨p, .integerOutOfRange (String.ofList digits)⟩])
  | .word =>
    let spelling := String.ofList x.text
    (some ((Keyword.ofSpelling? spelling).elim (.name spelling) .word), [])
  | .sign sign => (some (.sign sign), [])
  | .stray => (none, x.text.map fun c => ⟨p, .unexpectedCharacter c⟩)

end Lexeme

structure Scan where
  tokens : List Token
  findings : List Finding
deriving Repr

namespace Scan

structure Progress where
  tokens : List Token
  findings : List Finding
  place : Position

def Progress.add (s : Progress) (x : Lexeme) : Progress :=
  let (kind, found) := x.read s.place
  { tokens := kind.elim s.tokens fun k => ⟨k, s.place⟩ :: s.tokens
    findings := found ++ s.findings
    place := s.place.after x.text }

def Progress.finish (s : Progress) : Scan :=
  ⟨(⟨.eof, s.place⟩ :: s.tokens).reverse, s.findings.reverse⟩

def ofLexemes (xs : List Lexeme) : Scan :=
  (xs.foldl Progress.add ⟨[], [], .start⟩).finish

def ofText (s : String) : Scan :=
  ofLexemes (Lexeme.split s.toList)

end Scan

end ScriptHost
