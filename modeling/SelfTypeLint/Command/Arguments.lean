import SelfTypeLint.Command.Check
import SelfTypeLint.Command.Fix

/-!
# Arguments of commands

An argument that begins with two dashes is an option, and every other one is a path. Without a path,
the command is about the working directory. Of two options of one kind the last counts, and the first
mistaken option is the error.
-/

namespace SelfTypeLint.Arguments

/-- What follows a beginning of a text, if the text has it. -/
def after? (start text : String) : Option String :=
  (start.toList.isPrefixOf? text.toList).map String.ofList

/-- Holds of the arguments that are options. -/
def isOption (argument : String) : Bool := (after? "--" argument).isSome

/-- The paths among some arguments. -/
def paths (arguments : List String) : List String :=
  match arguments.filter (!isOption ·) with
  | [] => ["."]
  | paths => paths

/-- The options of a check with one option more. -/
def checkOption (o : CheckOptions) (option : String) : Except UsageError CheckOptions :=
  match after? "--format=" option, after? "--color=" option with
  | some value, _ =>
    match ReportFormat.ofName? value with
    | some format => .ok { o with format }
    | none => .error (.invalidFormat value)
  | none, some value =>
    match ColorMode.ofName? value with
    | some color => .ok { o with color }
    | none => .error (.invalidColorMode value)
  | none, none => .error (.unknownOption option)

/-- The options of fixing with one option more. -/
def fixOption (o : FixOptions) (option : String) : Except UsageError FixOptions :=
  match after? "--fix=" option with
  | some key => .ok { o with key := some key }
  | none =>
    if option = "--dry-run" then .ok { o with dryRun := true } else .error (.unknownOption option)

/-- The options of a check among some arguments. -/
def checkOptions (arguments : List String) : Except UsageError CheckOptions :=
  (arguments.filter isOption).foldlM checkOption .standard

/-- The options of fixing among some arguments. -/
def fixOptions (arguments : List String) : Except UsageError FixOptions :=
  (arguments.filter isOption).foldlM fixOption .standard

/-- There is always a path. -/
theorem paths_ne_nil (arguments : List String) : paths arguments ≠ [] := by
  rw [paths]
  split
  · simp
  · next h => exact h

end SelfTypeLint.Arguments
