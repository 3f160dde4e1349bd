import SelfTypeLint.Fix.Basic

/-!
# Renaming to the name of self parameters

One fix for a forwarded parameter gives it the name of self parameters, everywhere it is used.
-/

namespace SelfTypeLint.Fix

/-- Key of the fix that renames. -/
def nameKey : String := "TSelfNestedFixProviderName"

/-- Renames the reported parameter. -/
def nameFix : CodeFix where
  key := nameKey
  rules := [.forwardedParameter]
  offer ctx :=
    if ctx.config.byName then
      [⟨"Rename to '" ++ ctx.config.paramName ++ "'", nameKey, ctx.diagnostic⟩]
    else []
  compute ctx _ :=
    match ctx.host.declaredTypeParam ctx.file ctx.span with
    | none => .error .symbolNotFound
    | some param =>
      match ctx.host.renameTypeParam param ctx.config.paramName ctx.cancelled with
      | .ok edit => .ok edit
      | .error e => .error (.rename e)

end SelfTypeLint.Fix
