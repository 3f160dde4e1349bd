import SelfTypeLint.Command.Arguments

/-!
# The command line

A command line names a command and its arguments. Running it gives a status, what is written to the
output and to the error output, and the files afterwards.
-/

namespace SelfTypeLint

/-- What a command line asks for. -/
inductive Command
  | check (paths : List String) (options : CheckOptions)
  | fix (paths : List String) (options : FixOptions)
  | explain (code : String)
  | help
  | version
  deriving DecidableEq, Repr

/-- Why a command line asks for nothing that can be done. -/
inductive CommandLineError
  | usage (error : UsageError)
  /-- An explanation was not asked for with exactly one code. -/
  | explainNeedsCode
  | unknownCommand (name : String)
  deriving DecidableEq, Repr

namespace Command

/-- Reads a command line. -/
def ofArguments : List String → Except CommandLineError Command
  | [] => .ok .help
  | name :: arguments =>
    match name with
    | "check" =>
      ((Arguments.checkOptions arguments).map (check (Arguments.paths arguments))).mapError .usage
    | "fix" => ((Arguments.fixOptions arguments).map (fix (Arguments.paths arguments))).mapError .usage
    | "explain" | "--explain" =>
      match arguments with
      | [code] => .ok (explain code)
      | _ => .error .explainNeedsCode
    | "help" | "--help" | "-h" => .ok help
    | "version" | "--version" | "-V" => .ok version
    | name => .error (.unknownCommand name)

/-- The paths whose files a command is about. -/
def paths : Command → List String
  | check paths _ | fix paths _ => paths
  | explain _ | help | version => []

end Command

/-- What running a command leaves behind. -/
structure CommandOutcome where
  /-- Zero for success, one for findings, two for errors. -/
  status : Nat
  output : String
  errors : String
  disk : Disk

namespace CommandOutcome

/-- The outcome of a command that only writes. -/
def success (d : Disk) (output : String) : CommandOutcome := ⟨0, output, "", d⟩

/-- The outcome of a command that fails after some output. -/
def failure (d : Disk) (output : String) (e : CommandError) : CommandOutcome :=
  let hint := match e with
    | .usage _ => "Run `tsgc help` for usage.\n"
    | _ => ""
  ⟨2, output, "error: " ++ e.message ++ "\n" ++ hint, d⟩

end CommandOutcome

/-- The lines of the help page. -/
def helpLines : List String := [
  "TSelfGeneric analyzer",
  "",
  "Usage: tsgc <command> [options]",
  "",
  "Commands:",
  "  check [paths...]     Report self-type violations (TSG1, TSG2)",
  "  fix [paths...]       Apply code fixes and rewrite the files",
  "  explain <code>       Explain a rule (e.g., TSG2)",
  "  help                 Show this help message",
  "  version              Show version information",
  "",
  "Check options:",
  "  --format=<fmt>      Output: terminal (default), json, sarif",
  "  --color=<mode>      Color: auto (default), always, never",
  "",
  "Fix options:",
  "  --fix=<key>         Only apply this fix kind:",
  "                        TSelfNestedFixProviderName      rename to the self name",
  "                        TSelfNestedFixProviderAttribute add the marker attribute",
  "                        CodeFixTSelfSelf                pass the declaring type",
  "  --dry-run           List files that would change without writing them",
  "",
  "Paths default to the current directory; directories are searched for *.cs.",
  "Rule options are read from .editorconfig files:",
  "  dotnet_tselfgeneric.tself_param_name = TSelf",
  "  dotnet_tselfgeneric.tself_param_name.enable = true",
  "  dotnet_tselfgeneric.tself_attribute_name = TSelfAttribute",
  "  dotnet_tselfgeneric.tself_attribute_name.enable = false",
  "  dotnet_diagnostic.TSG2.severity = error",
  "",
  "Logging: RUST_LOG=debug enables tracing; TSG_LOG_TREE=1 prints span trees."]

/-- The help page. -/
def helpPage : String := String.join (helpLines.map (· ++ "\n"))

/-- The documentation of the rule with a code. -/
def explain (code : String) : Except Rule.UnknownCode String :=
  (Rule.ofCode code).map fun rule => rule.page ++ "\n"

namespace Command

/-- Runs a command. -/
def run (d : Disk) (isTerminal : Bool) : Command → CommandOutcome
  | check paths options =>
    match SelfTypeLint.check d paths options isTerminal with
    | .error e => .failure d "" e
    | .ok (summary, output) => ⟨if summary.hasFindings then 1 else 0, output, "", d⟩
  | fix paths options =>
    let report := SelfTypeLint.fix d paths options
    match report.result with
    | .error e => .failure report.disk report.output e
    | .ok _ => .success report.disk report.output
  | explain code =>
    match SelfTypeLint.explain code with
    | .error e => .failure d "" (.unknownRule e)
    | .ok page => .success d page
  | help => .success d helpPage
  | version => .success d (toolName ++ " " ++ toolVersion ++ "\n")

end Command

/-- The outcome of a command line that cannot be read. -/
def CommandLineError.outcome (d : Disk) : CommandLineError → CommandOutcome
  | usage e => .failure d "" (.usage e)
  | explainNeedsCode =>
    ⟨2, "", "Usage: tsgc explain <RULE_CODE>\nExample: tsgc explain TSG2\n", d⟩
  | unknownCommand name => ⟨2, helpPage, "Unknown command: " ++ name ++ "\n\n", d⟩

/-- Runs a command line. -/
def runCommandLine (d : Disk) (isTerminal : Bool) (arguments : List String) : CommandOutcome :=
  match Command.ofArguments arguments with
  | .ok command => command.run d isTerminal
  | .error e => e.outcome d

/-- Only fixing changes files. -/
theorem disk_run_of_not_fix {command : Command} (h : ∀ paths options, command ≠ .fix paths options)
    (d : Disk) (isTerminal : Bool) : (command.run d isTerminal).disk = d := by
  cases command with
  | check paths options =>
    rw [Command.run]
    split <;> rfl
  | fix paths options => exact absurd rfl (h paths options)
  | explain code =>
    rw [Command.run]
    split <;> rfl
  | help => rfl
  | version => rfl

end SelfTypeLint
