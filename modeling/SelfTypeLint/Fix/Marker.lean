import SelfTypeLint.Fix.Basic
import SelfTypeLint.Text.Lines

/-!
# Marking with the attribute of self parameters

One fix for a forwarded parameter puts the attribute of self parameters on it, by its short name. If
the namespace of the attribute is not visible at the declaration, a using directive is added, after the
last one of the innermost group that has any or in front of the first token of the file.
-/

namespace SelfTypeLint.Fix

/-- Key of the fix that marks. -/
def markerKey : String := "TSelfNestedFixProviderAttribute"

/-- The name of an attribute without the word for attributes at its end, if more is left. -/
def shortAttributeName (name : String) : String :=
  let word := "Attribute".toList
  let cs := name.toList
  if word.isSuffixOf cs && word.length < cs.length then
    String.ofList (cs.take (cs.length - word.length))
  else name

/-- The namespace of a type, or of the outermost type around it. A type has a smaller number than
those in it. -/
def namespaceOf (host : Host) (id : TypeId) : String :=
  match (host.typeSymbol id).bind (·.containingType) with
  | some outer => if outer < id then namespaceOf host outer else spaceAt outer
  | none => spaceAt id
  termination_by id
where
  /-- The namespace that a symbol records. -/
  spaceAt (id : TypeId) : String := ((host.typeSymbol id).map (·.space)).getD ""

/-- Holds of directives that bring in the types of a namespace. -/
def imports (space : String) (u : UsingDirective) : Bool := u.kind = .ofNamespace && u.target == space

/-- The names of the namespaces around a declaration, outermost first. -/
def enclosingSpaces (space : String) : List NamespaceDecl → List String
  | [] => []
  | n :: ns =>
    let names := Dotted.prefixesIn space (Dotted.parts n.name)
    names ++ enclosingSpaces (names.getLast?.getD space) ns

/-- Holds if the types of a namespace can be named without it inside a declaration. -/
def isNamespaceVisible (host : Host) (tree : SyntaxTree) (d : TypeDecl) (space : String) : Bool :=
  let enclosing := tree.enclosingNamespaces d.span
  space.isEmpty ||
    (enclosingSpaces "" enclosing).contains space ||
    tree.usings.any (imports space) ||
    enclosing.any (fun n => n.usings.any (imports space)) ||
    ((host.documentIds.filter (· ≠ tree.file)).filterMap host.syntaxTree).any fun other =>
      other.usings.any fun u => u.isGlobal && imports space u

/-- Blanks between the comments that open a file. -/
def isHeaderBlank (c : Char) : Bool :=
  c == ' ' || c == '\t' || c == '\n' || c == '\x0c' || c == '\r'

/-- What follows the blanks and comments that open a text; none if a comment is not closed. -/
def afterHeader? : List Char → Option (List Char)
  | [] => some []
  | '/' :: '/' :: rest => afterHeader? ((rest.dropWhile (· ≠ '\n')).drop 1)
  | '/' :: '*' :: rest =>
    match Text.before? ['*', '/'] rest with
    | some inner => afterHeader? (rest.drop (inner.length + 2))
    | none => none
  | c :: rest => if isHeaderBlank c then afterHeader? rest else some (c :: rest)
  termination_by cs => cs.length
  decreasing_by
    · have := (List.dropWhile_sublist (l := rest) (· ≠ '\n')).length_le
      simp only [List.length_drop, List.length_cons]
      omega
    · simp only [List.length_drop, List.length_cons]
      omega
    · simp

/-- The offset just past a byte order mark and the blanks and comments that open a text. A comment that
is not closed makes it zero. -/
def headerEnd (cs : List Char) : Nat :=
  let body := match cs with
    | '\ufeff' :: rest => rest
    | _ => cs
  match afterHeader? body with
  | some rest => Text.byteSize cs - Text.byteSize rest
  | none => 0

/-- The blanks at the start of the line that an offset lies in, as far as the offset. -/
def lineIndent (cs : List Char) (offset : Nat) : List Char :=
  let front := ((Text.splitAt? (min offset (Text.byteSize cs)) cs).map (·.1)).getD []
  ((front.reverse.takeWhile (· ≠ '\n')).reverse).takeWhile Text.isBlank

/-- The edit that adds a using directive for a namespace. -/
def usingInsertion (tree : SyntaxTree) (d : TypeDecl) (source space : String) : TextEdit :=
  let groups := (tree.enclosingNamespaces d.span).reverse.map (·.usings) ++ [tree.usings]
  match groups.findSome? (·.getLast?) with
  | some u =>
    let indent := String.ofList (lineIndent source.toList u.span.start)
    .insertAt u.span.stop ("\n" ++ indent ++ "using " ++ space ++ ";")
  | none => .insertAt (headerEnd source.toList) ("using " ++ space ++ ";\n")

/-- The symbol of the attribute of self parameters. -/
def markerSymbol? (ctx : FixContext) : Option TypeSymbol :=
  ctx.config.attributeType.bind ctx.host.typeSymbol

/-- Puts the attribute of self parameters on the reported parameter. -/
def markerFix : CodeFix where
  key := markerKey
  rules := [.forwardedParameter]
  offer ctx :=
    if ctx.config.byAttribute then
      match markerSymbol? ctx with
      | none => []
      | some symbol => [⟨"Add [" ++ shortAttributeName symbol.name ++ "] attribute", markerKey,
          ctx.diagnostic⟩]
    else []
  compute ctx _ :=
    match markerSymbol? ctx with
    | none => .error (.attributeNotResolved ctx.config.attributeName)
    | some symbol =>
      match ctx.host.syntaxTree ctx.file, ctx.host.sourceText ctx.file with
      | some tree, some source =>
        match tree.findTypeParam ctx.span with
        | none => .error .symbolNotFound
        | some (d, param) =>
          let space := namespaceOf ctx.host symbol.id
          let directive := if isNamespaceVisible ctx.host tree d space then []
            else [usingInsertion tree d source space]
          let mark := TextEdit.insertAt param.attributeOffset
            ("[" ++ shortAttributeName symbol.name ++ "] ")
          .ok (.ofEdits ctx.file (directive ++ [mark]))
      | _, _ => .error (.documentNotFound ctx.file)

end SelfTypeLint.Fix
