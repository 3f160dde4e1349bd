import SelfTypeLint.Diagnostic.Rule
import SelfTypeLint.Project.Sources

/-!
# Errors of commands

A command line can be mistaken, a command can fail on the files it is about, and both have a wording.
-/

namespace SelfTypeLint

/-- What is wrong with the arguments of a command. -/
inductive UsageError
  | unknownOption (option : String)
  | invalidFormat (value : String)
  | invalidColorMode (value : String)
  deriving DecidableEq, Repr

/-- The wording of an error. -/
def UsageError.message : UsageError → String
  | unknownOption option => "unknown option `" ++ option ++ "`"
  | invalidFormat value =>
    "invalid format `" ++ value ++ "` (expected terminal, json or sarif)"
  | invalidColorMode value =>
    "invalid color mode `" ++ value ++ "` (expected auto, always or never)"

/-- Why a command fails. -/
inductive CommandError
  | usage (error : UsageError)
  | sources (error : SourceError)
  | unknownRule (error : Rule.UnknownCode)
  | unknownFix (key : String)
  /-- The edits of a file cannot be applied. -/
  | edits (path : String) (error : EditError)
  | cancelled
  deriving DecidableEq, Repr

/-- The wording of an error. -/
def CommandError.message : CommandError → String
  | usage e => e.message
  | sources e => e.message
  | unknownRule e => e.message
  | unknownFix key => "no fix with equivalence key `" ++ key ++ "`"
  | edits path (.conflict c) => "fixes for " ++ path ++ " could not be applied: " ++ c.message
  | edits path .splitsCharacter =>
    "fixes for " ++ path ++ " could not be applied: an edit splits a character"
  | cancelled => Cancelled.message {}

end SelfTypeLint
