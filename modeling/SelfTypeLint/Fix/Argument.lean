import SelfTypeLint.Fix.Basic

/-!
# Giving the declaring type

The fix for a self argument puts the declaring type in its place, written with its own type
parameters.
-/

namespace SelfTypeLint.Fix

/-- Key of the fix that gives the declaring type. -/
def argumentKey : String := "CodeFixTSelfSelf"

/-- The declaration whose base list holds the reported argument. -/
def targetDeclaration (ctx : FixContext) : Except FixError TypeDecl :=
  match ctx.host.syntaxTree ctx.file with
  | none => .error (.documentNotFound ctx.file)
  | some tree =>
    match tree.enclosingTypeDecl ctx.span with
    | none => .error .argumentNotFound
    | some d =>
      if d.baseList.any fun b => b.span = ctx.span || b.typeArgs.any (·.span = ctx.span) then .ok d
      else .error .argumentNotFound

/-- Puts the declaring type in the place of the reported argument. -/
def argumentFix : CodeFix where
  key := argumentKey
  rules := [.selfArgument]
  offer ctx :=
    match targetDeclaration ctx with
    | .error _ => []
    | .ok d => [⟨"Use '" ++ d.selfTypeText ++ "' as the self-type argument", argumentKey,
        ctx.diagnostic⟩]
  compute ctx _ := do
    let d ← targetDeclaration ctx
    return .ofEdits ctx.file [⟨ctx.span, d.selfTypeText⟩]

end SelfTypeLint.Fix
