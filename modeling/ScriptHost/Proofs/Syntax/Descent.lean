import ScriptHost.Syntax.Parser

/-!
Reading with a cursor. Every part of the parser moves one cursor over the tokens and counts the openings in one counter
that goes up and down, on its way into a failure too. A counter that would go below zero stops everything. Only time
bounds the recursion: the number of calls within one another, or of rounds of a loop.
-/

namespace ScriptHost.Descent

structure Cursor where
  rest : List Token
  depth : Nat

inductive Halt where
  | finding (f : Finding)
  | underflow

/-- A part of the parser, which leaves the cursor where it stops. There is no result if its time is up before. -/
abbrev Run := ExceptT Halt (StateT Cursor Option)

def late {α : Type} : Run α :=
  fun _ => none

def peek : Run Token :=
  return Parser.current (← get).rest

def advance : Run Unit :=
  modify fun c => if (Parser.current c.rest).kind = .eof then c else { c with rest := c.rest.tail }

def check (kind : TokenKind) : Run Bool :=
  return (← peek).kind = kind

def eat (kind : TokenKind) : Run Bool := do
  if ← check kind then
    advance
    return true
  return false

def unexpected {α : Type} (wanted : String) : Run α := do
  throw (.finding (Parser.unexpected wanted (← get).rest))

def expect (kind : TokenKind) : Run Position := do
  let t ← peek
  if t.kind = kind then
    advance
    return t.place
  unexpected kind.describe

def identifier : Run (String × Position) := do
  let t ← peek
  match t.kind with
  | .name n =>
    advance
    return (n, t.place)
  | _ => unexpected "identifier"

def enter : Run Unit := do
  modify fun c => { c with depth := c.depth + 1 }
  let c ← get
  if nestingLimit < c.depth then throw (.finding ⟨(Parser.current c.rest).place, .nestingTooDeep⟩)

def leave : Run Unit := do
  let c ← get
  if c.depth = 0 then throw .underflow
  set { c with depth := c.depth - 1 }

/-- Something in an opening of its own, which a failure leaves open. -/
def opened {α : Type} (m : Run α) : Run α := do
  enter
  let a ← m
  leave
  return a

/-! Expressions. -/

def literal? (t : Token) : Option Expr :=
  match t.kind with
  | .int v => some (.int t.place v)
  | .str s => some (.str t.place s)
  | .word .trueWord => some (.bool t.place true)
  | .word .falseWord => some (.bool t.place false)
  | .word .nilWord => some (.nil t.place)
  | _ => none

mutual

-- The opening is left whether or not what is in it can be read.
def expression : Nat → Run Expr
  | 0 => late
  | n + 1 => do
    enter
    fun c => do
      let (e, c) ← binary n Parser.Level.all c
      let (left, c) ← leave c
      return (left.bind fun _ => e, c)

def binary : Nat → List Parser.Level → Run Expr
  | 0, _ => late
  | n + 1, [] => unary n
  | n + 1, level :: tighter => do
    let lhs ← binary n tighter
    binaryFrom n level tighter lhs

def binaryFrom : Nat → Parser.Level → List Parser.Level → Expr → Run Expr
  | 0, _, _, _ => late
  | n + 1, level, tighter, lhs => do
    match level (← peek) with
    | none => return lhs
    | some join =>
      advance
      let rhs ← binary n tighter
      binaryFrom n level tighter (join lhs rhs)

def unary : Nat → Run Expr
  | 0 => late
  | n + 1 => do
    let t ← peek
    match t.kind with
    | .sign .minus =>
      advance
      let e ← opened (unary n)
      return .unary t.place .neg e
    | .sign .bang =>
      advance
      let e ← opened (unary n)
      return .unary t.place .not e
    | _ =>
      let e ← primary n
      indexed n e

def indexed : Nat → Expr → Run Expr
  | 0, _ => late
  | n + 1, target => do
    let p := (← peek).place
    if ← eat (.sign .bracketOpen) then
      let i ← expression n
      let _ ← expect (.sign .bracketClose)
      indexed n (.index p target i)
    else return target

def primary : Nat → Run Expr
  | 0 => late
  | n + 1 => do
    let t ← peek
    if let some e := literal? t then
      advance
      return e
    match t.kind with
    | .name name =>
      advance
      if ← eat (.sign .parenOpen) then
        let args ← arguments n .parenClose
        return .call t.place name args
      else return .var t.place name
    | .sign .parenOpen =>
      advance
      let inner ← expression n
      let _ ← expect (.sign .parenClose)
      return inner
    | .sign .bracketOpen =>
      advance
      let elements ← arguments n .bracketClose
      return .array t.place elements
    | _ => unexpected "expression"

def arguments : Nat → Sign → Run (List Expr)
  | 0, _ => late
  | n + 1, close => do
    if ← eat (.sign close) then return []
    else argumentsFrom n close []

def argumentsFrom : Nat → Sign → List Expr → Run (List Expr)
  | 0, _, _ => late
  | n + 1, close, found => do
    let e ← expression n
    if ← eat (.sign .comma) then argumentsFrom n close (e :: found)
    else
      let _ ← expect (.sign close)
      return (e :: found).reverse

end

/-! Statements. -/

def simple (n : Nat) (p : Position) : Run Stmt := do
  let e ← expression n
  if ← eat (.sign .assign) then
    match Target.ofExpr? e with
    | none => throw (.finding ⟨e.place, .invalidAssignmentTarget⟩)
    | some target =>
      let v ← expression n
      let _ ← expect (.sign .semicolon)
      return .assign p target v
  else
    let _ ← expect (.sign .semicolon)
    return .eval p e

def give (n : Nat) (p : Position) : Run Stmt := do
  advance
  if ← check (.sign .semicolon) then
    let _ ← expect (.sign .semicolon)
    return .give p none
  else
    let e ← expression n
    let _ ← expect (.sign .semicolon)
    return .give p (some e)

mutual

def block : Nat → Run (List Stmt)
  | 0 => late
  | n + 1 => do
    let _ ← expect (.sign .braceOpen)
    enter
    let body ← statements n []
    return body

def statements : Nat → List Stmt → Run (List Stmt)
  | 0, _ => late
  | n + 1, found => do
    if ← eat (.sign .braceClose) then
      leave
      return found.reverse
    else if ← check .eof then unexpected (TokenKind.sign .braceClose).describe
    else
      let s ← statement n
      statements n (s :: found)

def statement : Nat → Run Stmt
  | 0 => late
  | n + 1 => do
    let t ← peek
    match t.kind with
    | .word .declare =>
      advance
      let (name, _) ← identifier
      let _ ← expect (.sign .assign)
      let init ← expression n
      let _ ← expect (.sign .semicolon)
      return .declare t.place name init
    | .word .ifWord => conditional n
    | .word .whileWord =>
      advance
      let cond ← expression n
      let body ← block n
      return .loop t.place cond body
    | .word .forWord =>
      advance
      let (name, _) ← identifier
      let _ ← expect (.word .inWord)
      let first ← expression n
      let _ ← expect (.sign .dotDot)
      let bound ← expression n
      let body ← block n
      return .count t.place name first bound body
    | .word .returnWord => give n t.place
    | .word .breakWord =>
      advance
      let _ ← expect (.sign .semicolon)
      return .leave t.place
    | .word .continueWord =>
      advance
      let _ ← expect (.sign .semicolon)
      return .again t.place
    | .sign .braceOpen =>
      let body ← block n
      return .block t.place body
    | _ => simple n t.place

def conditional : Nat → Run Stmt
  | 0 => late
  | n + 1 => do
    let p ← expect (.word .ifWord)
    let cond ← expression n
    let body ← block n
    if ← eat (.word .elseWord) then
      if ← check (.word .ifWord) then
        let link ← opened (conditional n)
        return .branch p cond body (some [link])
      else
        let otherwise ← block n
        return .branch p cond body (some otherwise)
    else return .branch p cond body none

end

/-! Functions. -/

def paramsFrom : Nat → List (String × Position) → Run (List (String × Position))
  | 0, _ => late
  | n + 1, found => do
    let param ← identifier
    if ← eat (.sign .comma) then paramsFrom n (param :: found)
    else
      let _ ← expect (.sign .parenClose)
      return (param :: found).reverse

def params (n : Nat) : Run (List (String × Position)) := do
  if ← eat (.sign .parenClose) then return []
  else paramsFrom n []

def function (n : Nat) : Run FunctionDecl := do
  let p ← expect (.word .function)
  let (name, _) ← identifier
  let _ ← expect (.sign .parenOpen)
  let params ← params n
  let body ← block n
  return ⟨name, params, body, p⟩

def item (n : Nat) : Run FunctionDecl := do
  if ← check (.word .function) then function n else unexpected "'fn'"

/-- One turn of the outermost loop: the cursor before it, what came of it, and the cursor that the next turn finds. -/
structure Turn where
  start : Cursor
  outcome : Except Halt FunctionDecl
  stop : Cursor

def Turn.function? (x : Turn) : Option FunctionDecl :=
  x.outcome.toOption

def Turn.finding? (x : Turn) : Option Finding :=
  match x.outcome with
  | .error (.finding f) => some f
  | _ => none

/-- The turns from a cursor on. A broken item starts the counter again, and the next turn begins at the next item. -/
def turns : Nat → Cursor → Option (List Turn)
  | 0, _ => none
  | n + 1, c => do
    if (Parser.current c.rest).kind = .eof then return []
    let (outcome, stop) ← item n c
    match outcome with
    | .ok _ =>
      let xs ← turns n stop
      return ⟨c, outcome, stop⟩ :: xs
    | .error (.finding _) =>
      let xs ← turns n ⟨Parsed.nextItem stop.rest, 0⟩
      return ⟨c, outcome, ⟨Parsed.nextItem stop.rest, 0⟩⟩ :: xs
    | .error .underflow => return [⟨c, outcome, stop⟩]

end ScriptHost.Descent
