import ScriptHost.Diagnostic

/-!
The words and signs of the language. Keywords and signs have one spelling each; a token knows where
its first character stands.
-/

namespace ScriptHost

inductive Keyword where
  | function | declare | ifWord | elseWord | whileWord | forWord | inWord | returnWord | breakWord
  | continueWord | trueWord | falseWord | nilWord
deriving DecidableEq, Repr

namespace Keyword

def all : List Keyword :=
  [function, declare, ifWord, elseWord, whileWord, forWord, inWord, returnWord, breakWord,
    continueWord, trueWord, falseWord, nilWord]

def spelling : Keyword → String
  | function => "fn"
  | declare => "let"
  | ifWord => "if"
  | elseWord => "else"
  | whileWord => "while"
  | forWord => "for"
  | inWord => "in"
  | returnWord => "return"
  | breakWord => "break"
  | continueWord => "continue"
  | trueWord => "true"
  | falseWord => "false"
  | nilWord => "nil"

def ofSpelling? (s : String) : Option Keyword :=
  all.find? (·.spelling == s)

theorem ofSpelling?_spelling (k : Keyword) : ofSpelling? k.spelling = some k := by
  cases k <;> decide

end Keyword

inductive Sign where
  | parenOpen | parenClose | braceOpen | braceClose | bracketOpen | bracketClose
  | comma | semicolon | dotDot | plus | minus | star | slash | percent | bang
  | assign | equal | notEqual | less | lessEqual | greater | greaterEqual | andAnd | orOr
deriving DecidableEq, Repr

namespace Sign

def spelling : Sign → String
  | parenOpen => "("
  | parenClose => ")"
  | braceOpen => "\x7b"
  | braceClose => "\x7d"
  | bracketOpen => "["
  | bracketClose => "]"
  | comma => ","
  | semicolon => ";"
  | dotDot => ".."
  | plus => "+"
  | minus => "-"
  | star => "*"
  | slash => "/"
  | percent => "%"
  | bang => "!"
  | assign => "="
  | equal => "=="
  | notEqual => "!="
  | less => "<"
  | lessEqual => "<="
  | greater => ">"
  | greaterEqual => ">="
  | andAnd => "&&"
  | orOr => "||"

def pair? : Char → Char → Option Sign
  | '.', '.' => some dotDot
  | '!', '=' => some notEqual
  | '=', '=' => some equal
  | '<', '=' => some lessEqual
  | '>', '=' => some greaterEqual
  | '&', '&' => some andAnd
  | '|', '|' => some orOr
  | _, _ => none

def single? : Char → Option Sign
  | '(' => some parenOpen
  | ')' => some parenClose
  | '\x7b' => some braceOpen
  | '\x7d' => some braceClose
  | '[' => some bracketOpen
  | ']' => some bracketClose
  | ',' => some comma
  | ';' => some semicolon
  | '+' => some plus
  | '-' => some minus
  | '*' => some star
  | '/' => some slash
  | '%' => some percent
  | '!' => some bang
  | '=' => some assign
  | '<' => some less
  | '>' => some greater
  | _ => none

end Sign

inductive TokenKind where
  | int (value : Int64)
  | str (value : String)
  | name (value : String)
  | word (keyword : Keyword)
  | sign (sign : Sign)
  | eof
deriving DecidableEq, Repr

namespace TokenKind

def describe : TokenKind → String
  | int v => "integer " ++ toString v.toInt
  | str _ => "string literal"
  | name s => "identifier '" ++ s ++ "'"
  | word k => "'" ++ k.spelling ++ "'"
  | sign s => "'" ++ s.spelling ++ "'"
  | eof => "end of file"

end TokenKind

structure Token where
  kind : TokenKind
  place : Position
deriving DecidableEq, Repr

end ScriptHost
