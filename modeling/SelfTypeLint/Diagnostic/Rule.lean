import SelfTypeLint.Text.Blank

/-!
# Rules

There are two rules about the argument that a declaration gives to a self parameter of a base type.
Each has a code, a title, a message template and a page of documentation.
-/

namespace SelfTypeLint

/-- The urgency of a finding. -/
inductive Severity
  | error
  | warning
  | note
  | help
  deriving DecidableEq, Repr, Inhabited

/-- The word for a severity. -/
def Severity.name : Severity → String
  | error => "error"
  | warning => "warning"
  | note => "note"
  | help => "help"

/-- The rules. -/
inductive Rule
  /-- A self parameter is given a concrete type other than the declaring type. -/
  | selfArgument
  /-- A self parameter is given a type parameter that is no self parameter. -/
  | forwardedParameter
  deriving DecidableEq, Repr, Inhabited

namespace Rule

/-- Every rule, in the order of the codes. -/
def all : List Rule := [selfArgument, forwardedParameter]

/-- The code of a rule. -/
def code : Rule → String
  | selfArgument => "TSG1"
  | forwardedParameter => "TSG2"

/-- A number that orders the rules by code. -/
def rank : Rule → Nat
  | selfArgument => 1
  | forwardedParameter => 2

/-- A short title. -/
def title : Rule → String
  | selfArgument => "Self-type argument must be the declaring type"
  | forwardedParameter => "Type parameter passed to a self-type slot must be a self parameter"

/-- The template of the message; its placeholder stands for the first argument. -/
def messageTemplate : Rule → String
  | selfArgument => "The self-type argument should be '\x7b0\x7d'"
  | forwardedParameter => "The type parameter should be declared as \x7b0\x7d"

/-- The category of a rule. -/
def category : Rule → String
  | selfArgument | forwardedParameter => "Usage"

/-- The severity of a rule where no option sets it. -/
def defaultSeverity : Rule → Severity
  | selfArgument | forwardedParameter => .warning

/-- The rule with a code, up to blanks around it and letter case. -/
def ofCode? (code : String) : Option Rule :=
  all.find? fun r => Text.sameLetters r.code (Text.trim code)

/-- A text that is the code of no rule. -/
structure UnknownCode where
  code : String
  deriving DecidableEq, Repr

/-- The wording of an unknown code. -/
def UnknownCode.message (e : UnknownCode) : String := "unknown rule code `" ++ e.code ++ "`"

/-- The rule with a code, or the reason why there is none. -/
def ofCode (code : String) : Except UnknownCode Rule :=
  match ofCode? code with
  | some r => .ok r
  | none => .error ⟨code⟩

/-- The lines of the documentation of the rule on self arguments. -/
def selfArgumentPage : List String := [
  "# TSG1: Self-type argument must be the declaring type",
  "",
  "A generic base type declares a *self parameter*: a type parameter that is",
  "meant to be filled with the type that inherits from it. By default a type",
  "parameter named `TSelf` (compared case-insensitively) is a self parameter.",
  "With attribute matching enabled, a type parameter tagged with the configured",
  "marker attribute is one too.",
  "",
  "This rule fires when a declaration fills a self slot of one of its base",
  "types with some other concrete type.",
  "",
  "## Example",
  "",
  "```csharp",
  "public interface ISelfRequested<TSelf> \x7b \x7d",
  "",
  "public class Implementation : ISelfRequested<Implementation> \x7b \x7d",
  "",
  "// TSG1: The self-type argument should be 'Bad'",
  "public class Bad : ISelfRequested<Implementation> \x7b \x7d",
  "```",
  "",
  "## Solution",
  "",
  "Pass the declaring type itself:",
  "",
  "```csharp",
  "public class Bad : ISelfRequested<Bad> \x7b \x7d",
  "```",
  "",
  "The `CodeFixTSelfSelf` fix performs this replacement. For a generic",
  "declaration it inserts the declaration applied to its own type parameters,",
  "e.g. `Node<TKey>`.",
  "",
  "Only the first violation of a declaration is reported.",
  "",
  "## Configuration",
  "",
  "```ini",
  "[*.cs]",
  "dotnet_tselfgeneric.tself_param_name = TSelf",
  "dotnet_tselfgeneric.tself_param_name.enable = true",
  "dotnet_tselfgeneric.tself_attribute_name = TSelfAttribute",
  "dotnet_tselfgeneric.tself_attribute_name.enable = false",
  "dotnet_diagnostic.TSG1.severity = warning",
  "```",
  ""]

/-- The lines of the documentation of the rule on forwarded parameters. -/
def forwardedParameterPage : List String := [
  "# TSG2: Type parameter passed to a self-type slot must be a self parameter",
  "",
  "A declaration may forward one of its own type parameters into the self slot",
  "of a base type, leaving the self type to be chosen by a further subtype. In",
  "that case the forwarded parameter must itself be a self parameter, so that",
  "the requirement keeps propagating.",
  "",
  "This rule fires at the declaration of the forwarded type parameter when it",
  "is neither named like a self parameter nor tagged with the marker",
  "attribute. The message lists the accepted forms for the strategies that are",
  "enabled.",
  "",
  "## Example",
  "",
  "```csharp",
  "public interface ISelfRequested<TSelf> \x7b \x7d",
  "",
  "// TSG2: The type parameter should be declared as \"TSelf\"",
  "public abstract class Bad<T> : ISelfRequested<T> \x7b \x7d",
  "```",
  "",
  "## Solution",
  "",
  "Rename the parameter (fix `TSelfNestedFixProviderName`):",
  "",
  "```csharp",
  "public abstract class Bad<TSelf> : ISelfRequested<TSelf> \x7b \x7d",
  "```",
  "",
  "or, with attribute matching enabled, tag it (fix",
  "`TSelfNestedFixProviderAttribute`). A `using` for the attribute's namespace",
  "is added when needed:",
  "",
  "```csharp",
  "using Self;",
  "",
  "public abstract class Bad<[TSelf] T> : ISelfRequested<T> \x7b \x7d",
  "```",
  "",
  "## Limitations",
  "",
  "Only one level of forwarding is checked. A tagged parameter forwarded into a",
  "self slot is accepted without checking how its own declaration is used by",
  "further subtypes.",
  ""]

/-- The documentation of a rule, as a page of text. -/
def page : Rule → String
  | selfArgument => "\n".intercalate selfArgumentPage
  | forwardedParameter => "\n".intercalate forwardedParameterPage

theorem mem_all (r : Rule) : r ∈ all := by cases r <;> simp [all]

theorem rank_inj {r s : Rule} : r.rank = s.rank ↔ r = s := by
  cases r <;> cases s <;> simp [rank]

end Rule

end SelfTypeLint
