/-!
Texts that the program prints about itself.
-/
namespace HeapLens.CommandLine

def programName : String := "rbscope"

def version : String := "0.0.1"

def versionText : String := programName ++ " " ++ version ++ "\n"

def banner : String :=
  programName ++ " " ++ version ++ " - type 'help' for commands, 'quit' to leave\n"

/-- The part of the command line that help can be asked for. -/
inductive Level where
  | program
  | inspect
  | constants
  | interactive
  | help
  deriving DecidableEq, Repr

def targetSynopsis : String := "<--snapshot <FILE>|--pid <PID>>"

def programHelp : String :=
  "Print Ruby objects from a heap snapshot or a live process\n\n" ++
  "Usage: " ++ programName ++ " [OPTIONS] " ++ targetSynopsis ++ " [COMMAND]\n\n" ++
  "Commands:\n" ++
  "  inspect    Print one or more values\n" ++
  "  constants  Show the resolved runtime constants\n" ++
  "  repl       Start an interactive prompt (the default)\n" ++
  "  help       Print this message or the help of the given subcommand(s)\n\n" ++
  "Options:\n" ++
  "      --snapshot <FILE>      JSON heap snapshot to read\n" ++
  "      --pid <PID>            Process to attach to (Linux only)\n" ++
  "  -D, --define <NAME=VALUE>  Define a VALUE symbol for a live process " ++
  "(hex with 0x, or decimal)\n" ++
  "  -v, --verbose...           Log more (repeat for debug and trace output)\n" ++
  "  -h, --help                 Print help\n" ++
  "  -V, --version              Print version\n"

def inspectHelp : String :=
  "Print one or more values\n\n" ++
  "Usage: " ++ programName ++ " " ++ targetSynopsis ++ " inspect [OPTIONS] <EXPR>...\n\n" ++
  "Arguments:\n" ++
  "  <EXPR>...  VALUEs or expressions to print\n\n" ++
  "Options:\n" ++
  "  -d, --depth <DEPTH>  Maximum recursion depth for nested objects [default: 1]\n" ++
  "  -l, --limit <LIMIT>  Maximum elements printed per collection [default: 64]\n" ++
  "      --debug          Show internal structure and debug information\n" ++
  "  -v, --verbose...     Log more (repeat for debug and trace output)\n" ++
  "  -h, --help           Print help\n"

def plainHelp (about command : String) : String :=
  about ++ "\n\n" ++
  "Usage: " ++ programName ++ " " ++ targetSynopsis ++ " " ++ command ++ " [OPTIONS]\n\n" ++
  "Options:\n" ++
  "  -v, --verbose...  Log more (repeat for debug and trace output)\n" ++
  "  -h, --help        Print help\n"

def helpHelp : String :=
  "Print this message or the help of the given subcommand(s)\n\n" ++
  "Usage: " ++ programName ++ " " ++ targetSynopsis ++ " help [COMMAND]...\n\n" ++
  "Arguments:\n" ++
  "  [COMMAND]...  Print help for the subcommand(s)\n"

def Level.helpText : Level → String
  | .program => programHelp
  | .inspect => inspectHelp
  | .constants => plainHelp "Show the resolved runtime constants" "constants"
  | .interactive => plainHelp "Start an interactive prompt (the default)" "repl"
  | .help => helpHelp

end HeapLens.CommandLine
