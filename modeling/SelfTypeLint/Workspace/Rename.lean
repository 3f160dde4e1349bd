import SelfTypeLint.Workspace.Basic

/-!
# Renaming type parameters

A type parameter is visible only inside the type that declares it. Renaming it changes every
identifier with its spelling in each part of that type. Nested declarations that declare a parameter of
the same name are left alone.
-/

namespace SelfTypeLint

namespace TypeDecl

/-- The places of a name inside a declaration, without the nested ones that declare it anew. -/
def references (name : String) (d : TypeDecl) : List Span :=
  (d.idents.filter (·.name == name)).map (·.span) ++
    d.nested.attach.flatMap fun ⟨n, h⟩ =>
      have := sizeOf_lt_of_mem_nested h
      if n.typeParams.any (·.name == name) then [] else references name n
  termination_by sizeOf d

/-- The first place where a name already stands inside a declaration. The attributes of type
parameters do not count, as a parameter cannot be meant there. -/
def capture? (name : String) (d : TypeDecl) : Option Span :=
  let lists := (d.typeParams.flatMap (·.attributes)).map (·.span)
  let own := d.idents.find? fun i => i.name == name && !lists.any (·.contains i.span)
  match own with
  | some i => some i.span
  | none => d.nested.attach.findSome? fun ⟨n, h⟩ =>
    have := sizeOf_lt_of_mem_nested h
    capture? name n
  termination_by sizeOf d

theorem references_eq (name : String) (d : TypeDecl) :
    d.references name =
      (d.idents.filter (·.name == name)).map (·.span) ++
        d.nested.flatMap fun n =>
          if n.typeParams.any (·.name == name) then [] else n.references name := by
  rw [references]
  simp

end TypeDecl

namespace Workspace

/-- The declaration whose name token stands at a location. -/
def declarationAt? (w : Workspace) (location : Location) : Option TypeDecl := do
  let doc ← w.document? location.file
  doc.tree.typeDecls.find? (·.nameSpan = location.span)

/-- Adds the edits that rename a parameter in one part of its type. -/
def renameInPart (w : Workspace) (old new : String) (edit : EditSet) (location : Location) :
    Except RenameError EditSet :=
  match w.declarationAt? location with
  | none => .ok edit
  | some d =>
    match d.capture? new with
    | some existing => .error (.conflict new (some ⟨location.file, existing⟩))
    | none => .ok ((d.references old).foldl (fun e span => e.push location.file ⟨span, new⟩) edit)

/-- The other parameter of a type that has a name. -/
def siblingNamed? (w : Workspace) (owner : TypeSymbol) (param : TypeParamId) (name : String) :
    Option TypeParamSymbol :=
  owner.typeParams.findSome? fun id => do
    let sibling ← w.symbols.typeParam? id
    if sibling.id ≠ param ∧ sibling.name = name then some sibling else none

/-- The edits that rename a type parameter everywhere. -/
def renameTypeParam (w : Workspace) (param : TypeParamId) (new : String) (cancelled : Bool) :
    Except RenameError EditSet :=
  if cancelled then .error .cancelled
  else
    match w.symbols.typeParam? param with
    | none => .error (.unknownSymbol param)
    | some symbol =>
      if !isValidIdentifier new then .error (.invalidIdentifier new)
      else if symbol.name = new then .ok .empty
      else
        match w.symbols.typeSymbol? symbol.owner with
        | none => .error (.unknownSymbol param)
        | some owner =>
          if owner.name = new then .error (.conflict new owner.locations.head?)
          else
            match w.siblingNamed? owner param new with
            | some sibling => .error (.conflict new sibling.locations.head?)
            | none => owner.locations.foldlM (w.renameInPart symbol.name new) .empty

/-- The workspace as a host of the rules. -/
def host (w : Workspace) : Host where
  declaredType file d := w.symbols.declaredType? file d.nameSpan
  typeSymbol := w.symbols.typeSymbol?
  typeParam := w.symbols.typeParam?
  resolveBaseType := w.resolveBaseType
  declaredTypeParam := w.symbols.declaredTypeParam?
  typeByName := w.symbols.typeByName?
  documentIds := w.documents.map (·.id)
  syntaxTree file := (w.document? file).map (·.tree)
  sourceText file := (w.document? file).map (·.text)
  options file := (w.document? file).map (·.options)
  renameTypeParam := w.renameTypeParam

end Workspace

end SelfTypeLint
