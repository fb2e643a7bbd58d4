import Dataflow.CommandLine.Options
import Dataflow.Text.Padding

/-!
The help text: one line per option, the descriptions in a column of their own.
-/

namespace Dataflow.CommandLine

def programName : String := "art-runner"

def versionText : String := programName ++ " 0.1.0\n"

def OptionSpec.usage (spec : OptionSpec) : String :=
  "--" ++ spec.name ++ (if spec.valueName.isEmpty then "" else " " ++ spec.valueName)

/-- the width of the widest option -/
def usageWidth : Nat := (table.map (·.usage.length)).foldl max 0

/-- columns in front of the descriptions -/
def margin : Nat := usageWidth + 8

def entry (short usage help : String) : String :=
  Text.padRight margin ("  " ++ short ++ usage) ++ help ++ "\n"

def helpText : String :=
  "Run a dataflow actor network\n\nUsage: " ++ programName ++ " [OPTIONS]\n\nOptions:\n" ++
    String.join (table.map fun spec => entry "    " spec.usage spec.help) ++
    entry "-h, " "--help" "Print help" ++ entry "-V, " "--version" "Print version"

end Dataflow.CommandLine
