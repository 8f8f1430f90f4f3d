import Conduit.CommandLine.Flag

/-!
# Usage

What ends the reading of the arguments early: a fault in them, or a wish for
help or for the version.
-/

namespace Conduit.CommandLine

inductive Usage
  | unexpected (argument : String)
  | unrecognized (task : String)
  | missingValue (f : Flag)
  | invalidValue (f : Flag) (value reason : String)
  | unwantedValue (f : Flag) (value : String)
  | repeated (f : Flag)
  | noTask
  | bare
  | help
  | version
  deriving DecidableEq, Repr

def about : String := "pipeq - producer/consumer pipelines over concurrent FIFO queues"

def versionText : String := "pipeq 0.1.0\n"

def helpText : String :=
  about ++ "\n\nUsage: pipeq [OPTIONS] <COMMAND>\n\nCommands:\n"
    ++ "  bounded    Run a pipeline over the bounded blocking queue\n"
    ++ "  lock-free  Run a pipeline over the lock-free queue\n"
    ++ "  spsc       Run one producer and one consumer over the SPSC ring buffer\n"
    ++ "  stress     Run every pipeline and verify no value is lost or duplicated\n"
    ++ "  help       Print this message or the help of the given subcommand(s)\n\nOptions:\n"
    ++ "  -c, --config <CONFIG>        Logger configuration file (TOML) [env: PIPEQ_CONFIG=]\n"
    ++ "  -v, --verbose                Verbose diagnostics\n"
    ++ "  -h, --help                   Print help\n"
    ++ "  -V, --version                Print version\n\nOptions of the commands:\n"
    ++ "  -p, --producers <PRODUCERS>  Producer threads [default: 1]\n"
    ++ "  -n, --consumers <CONSUMERS>  Consumer threads [default: 5]\n"
    ++ "      --count <COUNT>          Values pushed by each producer [default: 1000]\n"
    ++ "      --capacity <CAPACITY>    Queue capacity (bounded queue and SPSC ring) [default: 64]\n"
    ++ "      --work-ms <WORK_MS>      Milliseconds each producer sleeps between pushes [default: 0]\n"
    ++ "      --trace-values           Log every value, not just the summary\n"
    ++ "  -r, --rounds <ROUNDS>        How many times to repeat the whole set (stress) [default: 10]\n"

namespace Usage

def message : Usage → String
  | .unexpected argument => "unexpected argument '" ++ argument ++ "' found"
  | .unrecognized task => "unrecognized subcommand '" ++ task ++ "'"
  | .missingValue f => "a value is required for '" ++ f.shown ++ "' but none was supplied"
  | .invalidValue f value reason => "invalid value '" ++ value ++ "' for '" ++ f.shown ++ "': " ++ reason
  | .unwantedValue f value =>
    "unexpected value '" ++ value ++ "' for '" ++ f.shown ++ "' found; no more were expected"
  | .repeated f => "the argument '" ++ f.shown ++ "' cannot be used multiple times"
  | .noTask => "'pipeq' requires a subcommand but one was not provided"
  | .bare | .help | .version => ""

/-- A wish is no fault. -/
def exitCode : Usage → Nat
  | .help | .version => 0
  | _ => 2

def stdout : Usage → String
  | .help => helpText
  | .version => versionText
  | _ => ""

def stderr : Usage → String
  | .help | .version => ""
  | .bare => helpText
  | u => "error: " ++ u.message ++ "\n\nFor more information, try '--help'.\n"

end Usage

end Conduit.CommandLine
