import SelfTypeLint.Host
import SelfTypeLint.Path
import SelfTypeLint.Symbol.Scope
import SelfTypeLint.Tree.Reader.Declarations

/-!
# Workspaces

A `Workspace` holds documents together with the symbols that their declarations are bound to. Editing
makes a new workspace from the changed texts.

Documents are numbered without a bound. Numbers of 32 bits suffice for fewer than 2³² documents; that a
document beyond these is dropped is left out.
-/

namespace SelfTypeLint

/-- A document as it is given: its path, text and options. -/
structure SourceText where
  path : String
  text : String
  options : Options
  deriving Repr, Inhabited

/-- A document with its tree. -/
structure Document where
  id : FileId
  path : String
  text : String
  tree : SyntaxTree
  errors : List ParseError
  options : Options
  deriving Repr, Inhabited

/-- Reads the declarations of a document. -/
def Document.ofSource (id : FileId) (s : SourceText) : Document :=
  let out := SyntaxTree.read id s.text
  { id, path := s.path, text := s.text, tree := out.tree, errors := out.errors, options := s.options }

/-- The document as it was given. -/
def Document.source (d : Document) : SourceText := ⟨d.path, d.text, d.options⟩

namespace SymbolTable

/-- The attribute types that the declarations of a tree give to its type parameters, in order. -/
def attributesOf (t : SymbolTable) (tree : SyntaxTree) : List (TypeParamId × TypeId) :=
  tree.typeDecls.flatMap fun d =>
    match t.declaredType? tree.file d.nameSpan with
    | none => []
    | some owner =>
      let scope := Scope.ofDecl t tree d owner
      d.typeParams.flatMap fun p =>
        match t.declaredTypeParam? tree.file p.nameSpan with
        | none => []
        | some id =>
          (p.attributes.flatMap (·.attributes)).filterMap fun a =>
            (scope.resolveAttribute a.name).map fun type => (id, type)

/-- The symbols of some trees. Attributes are resolved when all types are declared. -/
def bind (trees : List SyntaxTree) : SymbolTable :=
  let t := declareTrees trees
  (trees.flatMap t.attributesOf).foldl (fun t (p, type) => t.addAttribute p type) t

end SymbolTable

/-- Documents with their symbols. -/
structure Workspace where
  documents : List Document
  symbols : SymbolTable
  deriving Repr

namespace Workspace

/-- The workspace of some documents. -/
def build (sources : List SourceText) : Workspace :=
  let documents := sources.zipIdx.map fun (s, id) => Document.ofSource id s
  { documents, symbols := .bind (documents.map (·.tree)) }

/-- The document with a number. -/
def document? (w : Workspace) (file : FileId) : Option Document := w.documents[file]?

/-- The first document with a path. -/
def findDocument? (w : Workspace) (path : String) : Option Document :=
  w.documents.find? fun d => Path.same d.path path

/-- The scope inside a declaration. -/
def scopeOf? (w : Workspace) (file : FileId) (d : TypeDecl) : Option Scope := do
  let doc ← w.document? file
  let owner ← w.symbols.declaredType? file d.nameSpan
  return .ofDecl w.symbols doc.tree d owner

/-- The definition and arguments that an entry of a base list means, if it is generic. -/
def resolveBaseType (w : Workspace) (file : FileId) (d : TypeDecl) (base : TypeExpr) :
    Option ConstructedType :=
  if base.isGeneric then do
    let scope ← w.scopeOf? file d
    match scope.resolve base with
    | .named definition args =>
      let symbol ← w.symbols.typeSymbol? definition
      return { definition, formals := symbol.typeParams, args }
    | _ => none
  else none

/-- The workspace with the edits applied to its documents. -/
def withEdit (w : Workspace) (edit : EditSet) : Except EditError Workspace := do
  let sources ← w.documents.mapM fun d => do
    return { d.source with text := ← edit.applyTo d.id d.text }
  return build sources

/-- Editing without edits builds the workspace of the same documents. -/
theorem withEdit_empty (w : Workspace) :
    w.withEdit .empty = .ok (build (w.documents.map Document.source)) := by
  have h : ∀ ds : List Document,
      ds.mapM (m := Except EditError)
        (fun d => do return { d.source with text := ← EditSet.empty.applyTo d.id d.text }) =
        .ok (ds.map Document.source) := by
    intro ds
    induction ds with
    | nil => rfl
    | cons d ds ih =>
      have hd : EditSet.empty.applyTo d.id d.text = .ok d.text := by
        simp [EditSet.applyTo, EditConflict.first?, TextEdit.applyAll?,
          TextEdit.applicationOrder, pure]
      simp only [List.mapM_cons, hd, ih, List.map_cons]
      rfl
  simp only [withEdit, h]
  rfl

end Workspace

end SelfTypeLint
