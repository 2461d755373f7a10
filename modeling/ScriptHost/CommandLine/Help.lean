import ScriptHost.CommandLine.Command

/-! What the program says about itself and about arguments it does not understand. -/

namespace ScriptHost.CommandLine

def programName : String := "codemash"

def versionText : String :=
  programName ++ " 0.1\n"

def serveHelp : String :=
  "Run the HTTP server and the engine workers\n\n"
  ++ "Usage: codemash serve [OPTIONS]\n\n"
  ++ "Options:\n"
  ++ "  -c, --config <CONFIG_PATH>  Path to the configuration file\n"
  ++ "      --watch <WATCH>         "
  ++ "Directory to keep coalesced; its last compiling version is served at\n"
  ++ "                              `/mash/latest`\n"
  ++ "      --main <MAIN>           "
  ++ "File name of the entry unit of the watched directory [default:\n"
  ++ "                              main.mash]\n"
  ++ "  -h, --help                  Print help\n"

def runHelp : String :=
  "Compile and run the given files once, printing the verdict\n\n"
  ++ "Usage: codemash run [OPTIONS] <FILES>...\n\n"
  ++ "Arguments:\n"
  ++ "  <FILES>...  Source files; each becomes a unit named after its file stem\n\n"
  ++ "Options:\n"
  ++ "      --entry <ENTRY>              Unit holding `fn main`; defaults to the first file\n"
  ++ "      --deadline-ms <DEADLINE_MS>  Wall-clock deadline in milliseconds\n"
  ++ "  -c, --config <CONFIG_PATH>       Path to the configuration file\n"
  ++ "  -h, --help                       Print help\n"

def mashHelp : String :=
  "Coalesce every `.mash` file of a directory into one source\n\n"
  ++ "Usage: codemash mash [OPTIONS] <DIR>\n\n"
  ++ "Arguments:\n"
  ++ "  <DIR>  \n\n"
  ++ "Options:\n"
  ++ "      --main <MAIN>      "
  ++ "File name of the entry unit; defaults to `main.mash` [default: main.mash]\n"
  ++ "  -o, --output <OUTPUT>  Where to write the coalesced source; stdout when omitted\n"
  ++ "      --watch            Keep running and re-mash on every change to the directory\n"
  ++ "  -h, --help             Print help\n"

def helpHelp : String :=
  "Print this message or the help of the given subcommand(s)\n\n"
  ++ "Usage: codemash help [COMMAND]...\n\n"
  ++ "Arguments:\n"
  ++ "  [COMMAND]...  Print help for the subcommand(s)\n"

def topHelp : String :=
  "Usage: codemash <COMMAND>\n\n"
  ++ "Commands:\n"
  ++ "  serve  Run the HTTP server and the engine workers\n"
  ++ "  run    Compile and run the given files once, printing the verdict\n"
  ++ "  mash   Coalesce every `.mash` file of a directory into one source\n"
  ++ "  help   Print this message or the help of the given subcommand(s)\n\n"
  ++ "Options:\n"
  ++ "  -h, --help     Print help\n"
  ++ "  -V, --version  Print version\n"

def helpText : Option String → String
  | some "serve" => serveHelp
  | some "run" => runHelp
  | some "mash" => mashHelp
  | some "help" => helpHelp
  | _ => topHelp

def ArgsError.message : ArgsError → String
  | help topic => helpText topic
  | version => versionText
  | nothingGiven => topHelp
  | unknownCommand => "error: unrecognized subcommand\n"
  | unknownArgument => "error: unexpected argument found\n"
  | missingOperand => "error: a required argument was not provided\n"
  | missingValue => "error: a value is required but none was supplied\n"
  | badValue => "error: a value is not a number\n"
  | repeatedOption => "error: an argument cannot be used multiple times\n"
  | superfluousValue => "error: an unexpected value was found\n"

end ScriptHost.CommandLine
