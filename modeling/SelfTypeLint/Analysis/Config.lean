import SelfTypeLint.Diagnostic.Rule
import SelfTypeLint.Symbol.Basic

/-!
# Rule configuration

How the rules work in one document, as its options set it. A missing or malformed value counts as the
default and is never an error.
-/

namespace SelfTypeLint

/-- How a rule is reported. -/
inductive ReportLevel
  /-- With the default severity of the rule. -/
  | standard
  | report (severity : Severity)
  | suppressed
  deriving DecidableEq, Repr, Inhabited

namespace ReportLevel

/-- The words for the levels. -/
def words : List (String × ReportLevel) := [
  ("default", standard), ("error", report .error), ("warning", report .warning),
  ("suggestion", report .note), ("silent", suppressed), ("none", suppressed)]

/-- The level that a value names, up to blanks around it and letter case. -/
def ofValue? (value : String) : Option ReportLevel :=
  (words.find? fun (word, _) => Text.sameLetters word (Text.trim value)).map (·.2)

/-- The severity of a rule at a level; none if it is not reported. -/
def severity? (level : ReportLevel) (rule : Rule) : Option Severity :=
  match level with
  | standard => some rule.defaultSeverity
  | report severity => some severity
  | suppressed => none

end ReportLevel

/-- The truth value that a text names, up to blanks around it and letter case. -/
def truth? (value : String) : Option Bool :=
  let value := Text.trim value
  if Text.sameLetters value "true" then some true
  else if Text.sameLetters value "false" then some false
  else none

/-- The configuration of the rules for a document. -/
structure Config where
  /-- Whether a name makes a self parameter. -/
  byName : Bool
  paramName : String
  /-- Whether an attribute makes a self parameter. -/
  byAttribute : Bool
  attributeName : String
  /-- The type that the attribute name means, if it is the only one. -/
  attributeType : Option TypeId
  selfArgumentLevel : ReportLevel
  forwardedParameterLevel : ReportLevel
  deriving DecidableEq, Repr

namespace Config

/-- The configuration where no option is set and no attribute type is known. -/
def standard : Config :=
  { byName := true, paramName := "TSelf", byAttribute := false
    attributeName := "TSelfAttribute", attributeType := none
    selfArgumentLevel := .standard, forwardedParameterLevel := .standard }

/-- Key of the name of self parameters. -/
def paramNameKey : String := "dotnet_tselfgeneric.tself_param_name"

/-- Key of the use of the name. -/
def byNameKey : String := "dotnet_tselfgeneric.tself_param_name.enable"

/-- Key of the name of the attribute. -/
def attributeNameKey : String := "dotnet_tselfgeneric.tself_attribute_name"

/-- Key of the use of the attribute. -/
def byAttributeKey : String := "dotnet_tselfgeneric.tself_attribute_name.enable"

/-- Key of the level of a rule. -/
def levelKey (rule : Rule) : String := "dotnet_diagnostic." ++ rule.code ++ ".severity"

/-- The configuration that options set. The attribute type is found by `typeByName`. -/
def resolve (lookup : String → Option String) (typeByName : String → Option TypeId) : Config :=
  let attributeName := (lookup attributeNameKey).getD standard.attributeName
  let level (rule : Rule) := ((lookup (levelKey rule)).bind ReportLevel.ofValue?).getD .standard
  { byName := ((lookup byNameKey).bind truth?).getD standard.byName
    paramName := (lookup paramNameKey).getD standard.paramName
    byAttribute := ((lookup byAttributeKey).bind truth?).getD standard.byAttribute
    attributeName, attributeType := typeByName attributeName
    selfArgumentLevel := level .selfArgument
    forwardedParameterLevel := level .forwardedParameter }

/-- Holds if a name or an attribute makes self parameters. -/
def isActive (c : Config) : Bool := c.byName || c.byAttribute

/-- The level of a rule. -/
def level (c : Config) : Rule → ReportLevel
  | .selfArgument => c.selfArgumentLevel
  | .forwardedParameter => c.forwardedParameterLevel

/-! ## Self parameters -/

/-- Holds if a parameter is spelled like the name of self parameters, up to letter case. -/
def matchesName (c : Config) (p : TypeParamSymbol) : Bool :=
  c.byName && Text.sameLetters c.paramName p.name

/-- Holds if a parameter carries the attribute of self parameters. -/
def matchesAttribute (c : Config) (p : TypeParamSymbol) : Bool :=
  c.byAttribute && c.attributeType.any p.attributes.contains

/-- Holds of self parameters. -/
def isSelfParam (c : Config) (p : TypeParamSymbol) : Bool := c.matchesName p || c.matchesAttribute p

/-- The accepted ways to declare a self parameter, given the name of one that is none. -/
def alternatives (c : Config) (paramName : String) : Option String :=
  let named := "\"" ++ c.paramName ++ "\""
  let marked := "\"[" ++ c.attributeName ++ "] " ++ paramName ++ "\""
  match c.byName, c.byAttribute with
  | true, true => some (named ++ "|" ++ marked)
  | true, false => some named
  | false, true => some marked
  | false, false => none

theorem not_isSelfParam_of_not_isActive {c : Config} (h : c.isActive = false)
    (p : TypeParamSymbol) : c.isSelfParam p = false := by
  simp only [isActive, Bool.or_eq_false_iff] at h
  simp [isSelfParam, matchesName, matchesAttribute, h]

theorem alternatives_isSome (c : Config) (paramName : String) :
    (c.alternatives paramName).isSome = c.isActive := by
  cases hn : c.byName <;> cases ha : c.byAttribute <;> simp [alternatives, isActive, hn, ha]

end Config

end SelfTypeLint
