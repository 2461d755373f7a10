import ScriptHost.CommandLine.Grammar

/-! The commands of the program and their arguments. -/

namespace ScriptHost.CommandLine

inductive Command where
  | serve (config watch : Option String) (main : String)
  | run (files : List String) (entry : Option String) (deadlineMs : Option Nat)
      (config : Option String)
  | mash (dir main : String) (output : Option String) (watch : Bool)
deriving DecidableEq, Repr

namespace Command

def helpOption : Parameter := { name := "help", letter := some 'h', role := .help }

def versionOption : Parameter := { name := "version", letter := some 'V', role := .version }

def configOption : Parameter := { name := "config", letter := some 'c', role := .text }

def mainOption : Parameter := { name := "main", role := .text }

def defaultMain : String := "main.mash"

def top : Grammar :=
  { options := [helpOption, versionOption] }

def serveGrammar : Grammar :=
  { options := [configOption, { name := "watch", role := .path }, mainOption, helpOption] }

def runGrammar : Grammar :=
  { options := [{ name := "entry", role := .text }, { name := "deadline-ms", role := .number },
      configOption, helpOption]
    operand := some { name := "files", role := .path, many := true } }

def mashGrammar : Grammar :=
  { options := [mainOption, { name := "output", letter := some 'o', role := .path },
      { name := "watch", role := .flag }, helpOption]
    operand := some { name := "dir", role := .path } }

def first? (r : Reading) (name : String) : Option String :=
  (r.values name).head?

def ofServe (r : Reading) : Command :=
  serve (first? r "config") (first? r "watch") ((first? r "main").getD defaultMain)

def ofRun (r : Reading) : Command :=
  run (r.values "files") (first? r "entry") ((first? r "deadline-ms").bind Text.word?)
    (first? r "config")

def ofMash (r : Reading) : Command :=
  mash ((first? r "dir").getD "") ((first? r "main").getD defaultMain) (first? r "output")
    (r.isGiven "watch")

def onTopic (name : String) : ArgsError → ArgsError
  | .help _ => .help (some name)
  | e => e

def read (name : String) (g : Grammar) (make : Reading → Command) (args : List String) :
    Except ArgsError Command :=
  (make <$> Reading.ofArguments g args).mapError (onTopic name)

def reader? (name : String) : Option (List String → Except ArgsError Command) :=
  match name with
  | "serve" => some (read name serveGrammar ofServe)
  | "run" => some (read name runGrammar ofRun)
  | "mash" => some (read name mashGrammar ofMash)
  | _ => none

def isCommand (name : String) : Bool :=
  name == "help" || (reader? name).isSome

/-- Help is given on a command, or on none; commands have no commands of their own. -/
def helpOn : List String → ArgsError
  | [] => .help none
  | [name] => if isCommand name then .help (some name) else .unknownCommand
  | _ => .unknownCommand

def ofArgumentsAfter (r : Reading) : List String → Except ArgsError Command
  | [] => .error .nothingGiven
  | arg :: args =>
    if r.operandsOnly then
      .error (if isCommand arg then .unknownArgument else .unknownCommand)
    else if arg = "help" then .error (helpOn args)
    else
      match reader? arg with
      | some read => read args
      | none =>
        match r.argument top arg with
        | .ok r => ofArgumentsAfter r args
        | .error e => .error (if arg.startsWith "-" && arg != "-" then e else .unknownCommand)

def ofArguments (args : List String) : Except ArgsError Command :=
  ofArgumentsAfter {} args

end Command

end ScriptHost.CommandLine
