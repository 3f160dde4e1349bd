import Mathlib.Logic.Relation
import SelfTypeLint.Proofs.Grammar.SpaceNames
import SelfTypeLint.Proofs.Symbol.Spaces

/-!
# The own name of a declaration

Inside a declaration its name, applied to the names of its parameters, is looked up like every other name:
among the parameters, among the types in the declared type and around it, and in the namespaces from the
inside out. The declared type is a member of the type around it or, if there is none, of the innermost
namespace, so that no directive is ever asked. Only what the declared type itself holds comes before it.
`Unshadowed` says that this does not have the name, and then the name means the declared type as it is
seen from inside (`resolve_spelledSelf`).
-/

namespace SelfTypeLint

/-- The word that a type is written as; none if it is written as more than one word. -/
def TypeExpr.word? : TypeExpr → Option String
  | .path false [⟨name, _, [], _⟩] _ => some name
  | _ => none

namespace TypeDecl

/-- Holds of a type that is written like a declaration: its name with the names of its parameters. -/
def SpellsSelf (d : TypeDecl) : TypeExpr → Prop
  | .path false [⟨name, _, args, _⟩] _ =>
    name = d.name ∧ args.map TypeExpr.word? = d.typeParams.map fun p => some p.name
  | _ => False

instance (d : TypeDecl) : DecidablePred d.SpellsSelf
  | .path false [⟨_, _, _, _⟩] _ => inferInstanceAs (Decidable (_ ∧ _))
  | .path true _ _ | .path false [] _ | .path false (_ :: _ :: _) _ | .predefined .. | .array ..
  | .nullable .. | .tuple .. => inferInstanceAs (Decidable False)

theorem SpellsSelf.exists_path {d : TypeDecl} {e : TypeExpr} (h : d.SpellsSelf e) :
    ∃ nameSpan args listSpan span, e = .path false [⟨d.name, nameSpan, args, listSpan⟩] span ∧
      args.map TypeExpr.word? = d.typeParams.map fun p => some p.name := by
  unfold SpellsSelf at h
  split at h
  · next nameSpan args listSpan span =>
    obtain ⟨rfl, hargs⟩ := h
    exact ⟨nameSpan, args, listSpan, span, rfl, hargs⟩
  · exact h.elim

end TypeDecl

/-- An element is found by a property that tells it from the other elements. -/
theorem find?_eq_some_of_nodup {α β : Type} [DecidableEq β] {f : α → β} {as : List α}
    (h : (as.map f).Nodup) {a : α} (ha : a ∈ as) : as.find? (fun b => f b = f a) = some a := by
  obtain ⟨b, hb⟩ : ∃ b, as.find? (fun b => f b = f a) = some b :=
    Option.isSome_iff_exists.1 (List.find?_isSome.2 ⟨a, ha, by simp⟩)
  have hf : f b = f a := by simpa using List.find?_some hb
  rw [hb, List.inj_on_of_nodup_map h (List.mem_of_find?_eq_some hb) ha hf]

namespace SymbolTable

variable {t : SymbolTable} {parts : List Part} {i o : TypeId} {s : TypeSymbol}

/-- Holds of a type and the types around it. -/
def Around (t : SymbolTable) : TypeId → TypeId → Prop :=
  Relation.ReflTransGen fun i o => ∃ s, t.typeSymbol? i = some s ∧ s.containingType = some o

/-- Holds of a declaration and its type if the name of the declaration, with the names of its parameters,
can be nothing but the type: the parameters are spelled as those of the type and each differently, no
type in the type has its name and number of parameters, and no parameter is called like a type without
parameters in it. -/
structure Unshadowed (t : SymbolTable) (d : TypeDecl) (s : TypeSymbol) : Prop where
  spelled : s.typeParams.map (fun j => (t.typeParam? j).map (·.name)) =
    d.typeParams.map fun p => some p.name
  distinct : (d.typeParams.map (·.name)).Nodup
  nested : ∀ i s', t.typeSymbol? i = some s' → s'.containingType = some s.id → s'.name = s.name →
    s'.typeParams.length ≠ s.typeParams.length
  around : s.typeParams = [] → ∀ j p, t.typeParam? j = some p → t.Around s.id p.owner →
    p.name ≠ s.name

/-! ## Types around a type -/

theorem typeChain_eq_self (hs : t.typeSymbol? i = some s) (ho : s.containingType = none) :
    t.typeChain i = [i] := by
  rw [typeChain, hs, Option.bind_some, ho]

theorem Records.typeChain_eq_cons (h : t.Records parts) (hs : t.typeSymbol? i = some s)
    (ho : s.containingType = some o) : t.typeChain i = i :: t.typeChain o := by
  rw [typeChain, hs, Option.bind_some, ho]
  exact if_pos (h.outer i s o hs ho)

theorem exists_typeChain (t : SymbolTable) (i : TypeId) : ∃ outer, t.typeChain i = i :: outer := by
  rw [typeChain]
  split
  · split
    · exact ⟨_, rfl⟩
    · exact ⟨[], rfl⟩
  · exact ⟨[], rfl⟩

theorem around_of_mem_typeChain {i o : TypeId} (h : o ∈ t.typeChain i) : t.Around i o := by
  rw [typeChain] at h
  split at h
  · next outer houter =>
    obtain ⟨s, hs, ho⟩ := Option.bind_eq_some_iff.1 houter
    split at h
    · rcases List.mem_cons.1 h with rfl | h
      · exact .refl
      · exact .head ⟨s, hs, ho⟩ (around_of_mem_typeChain h)
    · rw [List.mem_singleton.1 h]
      exact .refl
  · rw [List.mem_singleton.1 h]
    exact .refl
  termination_by i

/-! ## Members of types and namespaces -/

/-- A type is the member of its container with its name and number of parameters. -/
theorem Records.member?_container (h : t.Records parts) (hs : t.typeSymbol? i = some s) :
    t.member? (match s.containingType with | some o => .type o | none => .space s.space) s.name
      s.typeParams.length = some i :=
  (h.members s.key i).2 ⟨s, hs, rfl⟩

theorem Records.member?_eq_none (h : t.Records parts) {name : String} {arity : Nat}
    (hnested : ∀ i s', t.typeSymbol? i = some s' → s'.containingType = some o → s'.name = name →
      s'.typeParams.length ≠ arity) : t.member? (.type o) name arity = none := by
  cases hmember : t.member? (.type o) name arity with
  | none => rfl
  | some i =>
    obtain ⟨s', hs', ho⟩ := h.containingType_of_member? hmember
    obtain ⟨s'', hs'', hkey⟩ := (h.members _ i).1 hmember
    obtain rfl := Option.some.inj (hs'.symm.trans hs'')
    obtain ⟨-, hname, harity⟩ := TypeKey.mk.inj hkey
    exact absurd harity (hnested i s' hs' ho hname)

end SymbolTable

namespace Scope

open SymbolTable

variable {parts : List Part} {s : Scope} {id : TypeId} {symbol : TypeSymbol}

/-- A type that has no type of its name in it is found by its name in a scope inside it: it is a member of
the type around it or of the innermost namespace. -/
theorem lookupSimple_eq_self (h : s.table.Records parts) (hs : s.table.typeSymbol? id = some symbol)
    (htypes : s.types = s.table.typeChain id) {l : Level} {ls : List Level} (hlevels : s.levels = l :: ls)
    (hspace : l.space = symbol.space)
    (hnested : s.table.member? (.type id) symbol.name symbol.typeParams.length = none) :
    s.lookupSimple symbol.name symbol.typeParams.length = some id := by
  have hself := h.member?_container hs
  rw [lookupSimple, htypes]
  cases ho : symbol.containingType with
  | none =>
    rw [ho] at hself
    rw [typeChain_eq_self hs ho, List.findSome?_cons, hnested, hlevels]
    simp only [List.findSome?_nil, lookupLevels, lookupAtLevel, hspace, hself]
  | some o =>
    rw [ho] at hself
    obtain ⟨outer, houter⟩ := s.table.exists_typeChain o
    rw [h.typeChain_eq_cons hs ho, houter, List.findSome?_cons, hnested, List.findSome?_cons, hself]

/-- A name applied to types means the type of that name, applied to what the types mean. -/
theorem resolve_applied {name : String} {nameSpan span : Span} {listSpan : Option Span}
    {args : List TypeExpr} (hparam : args = [] → s.typeParam? name = none)
    (hlookup : s.lookupSimple name args.length = some id) :
    s.resolve (.path false [⟨name, nameSpan, args, listSpan⟩] span) =
      .named id (args.map s.resolve) := by
  have hasParam : s.asParam? false [⟨name, nameSpan, args, listSpan⟩] = none := by
    cases args with
    | nil => simp [asParam?, hparam rfl]
    | cons a args => simp [asParam?]
  have hfound : s.lookup false [⟨name, args.length⟩] = some id := by
    simp [lookup, hlookup, descend]
  rw [resolve_path, hasParam]
  simp only [List.map_cons, List.map_nil, NamePart.ofSegment, hfound]
  rfl

/-- The name of a type parameter means the type parameter. -/
theorem resolve_word {name : String} {e : TypeExpr} (he : e.word? = some name) {j : TypeParamId}
    (hj : s.typeParam? name = some j) : s.resolve e = .param j := by
  unfold TypeExpr.word? at he
  split at he
  · obtain rfl := Option.some.inj he
    rw [resolve_path]
    simp [asParam?, hj]
  · exact absurd he (by simp)

private theorem any_name_eq (p : Option TypeParamSymbol) (name : String) :
    p.any (·.name == name) = decide (p.map (·.name) = some name) := by
  cases p with
  | none => simp
  | some p => simp [beq_eq_decide]

/-- Inside a type its parameters come before those of the types around it. -/
theorem typeParam?_eq_own (hs : s.table.typeSymbol? id = some symbol)
    (htypes : s.types = s.table.typeChain id) {d : TypeDecl} (hown : s.table.Unshadowed d symbol)
    {k : Nat} {q : TypeParam} (hq : d.typeParams[k]? = some q) {j : TypeParamId}
    (hj : symbol.typeParams[k]? = some j) : s.typeParam? q.name = some j := by
  have hnodup : (symbol.typeParams.map fun j => (s.table.typeParam? j).map (·.name)).Nodup := by
    have hsome := hown.distinct.map fun (_ _ : String) => Option.some.inj
    rwa [List.map_map, Function.comp_def, ← hown.spelled] at hsome
  have hj' : (s.table.typeParam? j).map (·.name) = some q.name := by
    have hk := congrArg (·[k]?) hown.spelled
    simpa [hj, hq] using hk
  have hfind := find?_eq_some_of_nodup hnodup (List.mem_of_getElem? hj)
  obtain ⟨outer, houter⟩ := s.table.exists_typeChain id
  simp only [hj', ← any_name_eq] at hfind
  rw [typeParam?, htypes, houter, List.findSome?_cons, hs]
  simp only [Option.bind_eq_bind, Option.bind_some, hfind]

/-- A name is no type parameter if none of the type and of the types around it has it. -/
theorem typeParam?_eq_none (h : s.table.Records parts) (htypes : s.types = s.table.typeChain id)
    {name : String} (haround : ∀ j p, s.table.typeParam? j = some p → s.table.Around id p.owner →
      p.name ≠ name) : s.typeParam? name = none := by
  rw [typeParam?, htypes, List.findSome?_eq_none_iff]
  intro i hi
  cases hs : s.table.typeSymbol? i with
  | none => rfl
  | some around =>
    refine List.find?_eq_none.2 fun j hj => ?_
    obtain ⟨k, hk⟩ := List.mem_iff_getElem?.1 hj
    obtain ⟨p, hp, rfl, -⟩ := h.formal i around k j hs hk
    have hp : s.table.typeParam? j = some p := hp
    rw [any_name_eq, hp]
    simpa using haround j p hp (around_of_mem_typeChain hi)

end Scope

/-! ## The innermost namespace -/

open SymbolTable (spaceName)

/-- The innermost level of a chain of namespaces has the name of the innermost namespace. -/
theorem Level.getLast?_ofChain {space : String} {ns : List NamespaceDecl}
    (hns : ∀ n ∈ ns, Dotted.Led n.name) :
    ((ofChain space ns).map (·.space)).getLast?.getD space = spaceName space ns := by
  induction ns generalizing space with
  | nil => rfl
  | cons n ns ih =>
    have hinner : (Dotted.prefixesIn space (Dotted.parts n.name)).getLast?.getD space =
        Dotted.join space n.name := by
      rw [Dotted.getLast?_prefixesIn, Dotted.foldl_join_parts (hns n List.mem_cons_self)]
    have hrest : ((ofChain (Dotted.join space n.name) ns).map (·.space)).getLast?.getD
        (Dotted.join space n.name) = spaceName (Dotted.join space n.name) ns :=
      ih fun m hm => hns m (List.mem_cons_of_mem n hm)
    rw [ofChain]
    simp only [hinner, List.map_append, List.map_cons, List.getLast?_append, List.getLast?_cons,
      Option.some_or, Option.getD_some]
    exact hrest

/-- The first level of a scope is the innermost namespace around the declaration. -/
theorem Scope.exists_levels_ofDecl (t : SymbolTable) (tree : SyntaxTree) (d : TypeDecl) (owner : TypeId)
    (hns : ∀ n ∈ tree.enclosingNamespaces d.span, Dotted.Led n.name) :
    ∃ l ls, (ofDecl t tree d owner).levels = l :: ls ∧
      l.space = spaceName "" (tree.enclosingNamespaces d.span) := by
  obtain ⟨l, ls, hlevels⟩ := List.exists_cons_of_ne_nil
    (show (ofDecl t tree d owner).levels ≠ [] by simp [ofDecl])
  refine ⟨l, ls, hlevels, ?_⟩
  have hfirst := congrArg (fun levels => (levels.map (·.space)).head?) hlevels
  simp only [ofDecl, List.map_reverse, List.head?_reverse, List.map_cons, List.getLast?_cons,
    List.head?_cons, Level.getLast?_ofChain hns] at hfirst
  exact (Option.some.inj hfirst).symm

namespace Workspace

open SymbolTable

variable {sources : List SourceText} {file : FileId} {doc : Document} {d : TypeDecl} {id : TypeId}
  {symbol : TypeSymbol}

/-- The first level of the scope in a declaration is the namespace of the declared type. -/
theorem exists_levels_of_declaration (hdoc : (build sources).document? file = some doc)
    (hd : d ∈ doc.tree.typeDecls)
    (hid : (build sources).symbols.declaredType? file d.nameSpan = some id)
    (hsymbol : (build sources).symbols.typeSymbol? id = some symbol) :
    ∃ l ls, (Scope.ofDecl (build sources).symbols doc.tree d id).levels = l :: ls ∧
      l.space = symbol.space := by
  obtain ⟨-, hread, -⟩ := ofSource_of_document? hdoc
  have hfile : doc.tree.file = file := by rw [hread]; rfl
  obtain ⟨m, hm, hdm⟩ := List.mem_flatMap.1 hd
  obtain ⟨ns, hns⟩ := exists_within hm hdm
  have henclosing : doc.tree.enclosingNamespaces d.span = ns := by
    rw [hread] at hns ⊢
    exact SyntaxTree.enclosingNamespaces_eq (SyntaxTree.inRow_read file doc.text)
      (fun s hs => SyntaxTree.start_lt_stop_read file doc.text hs) hns
  have hled : ∀ n ∈ doc.tree.enclosingNamespaces d.span, Dotted.Led n.name := by
    rw [henclosing]
    rw [hread] at hns
    exact SyntaxTree.led_of_within hns
  have hhoused : (build sources).symbols.Housed := housed_bind _
  have hfaithful : (build sources).symbols.Faithful ((build sources).documents.map (·.tree)) :=
    faithful_bind (nodup_declaredSites sources)
  obtain ⟨i, s, hi, hs, hspace⟩ := hhoused.exists_symbol_of_within hfaithful
    (List.mem_map_of_mem (List.mem_of_getElem? hdoc)) hns
  rw [hfile] at hi
  obtain rfl := Option.some.inj (hid.symm.trans hi)
  obtain rfl := Option.some.inj (hsymbol.symm.trans hs)
  obtain ⟨l, ls, hlevels, hl⟩ :=
    Scope.exists_levels_ofDecl (build sources).symbols doc.tree d id hled
  exact ⟨l, ls, hlevels, by rw [hl, henclosing, hspace]⟩

/-- In a declaration whose name nothing else can have, the name with the names of the parameters means
the declared type as it is seen from inside. -/
theorem resolve_spelledSelf (hdoc : (build sources).document? file = some doc)
    (hd : d ∈ doc.tree.typeDecls)
    (hid : (build sources).symbols.declaredType? file d.nameSpan = some id)
    (hsymbol : (build sources).symbols.typeSymbol? id = some symbol)
    (hown : (build sources).symbols.Unshadowed d symbol) {e : TypeExpr} (he : d.SpellsSelf e) :
    (Scope.ofDecl (build sources).symbols doc.tree d id).resolve e = symbol.selfType := by
  obtain ⟨parts, hrecords, -⟩ := exists_records_bind ((build sources).documents.map (·.tree))
  have hrecords : (build sources).symbols.Records parts := hrecords
  obtain ⟨nameSpan, args, listSpan, span, rfl, hargs⟩ := he.exists_path
  obtain rfl := hrecords.typeId id symbol hsymbol
  obtain ⟨l, ls, hlevels, hspace⟩ := exists_levels_of_declaration hdoc hd hid hsymbol
  have hkey : d.name = symbol.name ∧ d.typeParams.length = symbol.typeParams.length := by
    obtain ⟨-, hread, -⟩ := ofSource_of_document? hdoc
    have hfile : doc.tree.file = file := by rw [hread]; rfl
    have hfaithful : (build sources).symbols.Faithful ((build sources).documents.map (·.tree)) :=
      faithful_bind (nodup_declaredSites sources)
    obtain ⟨_, i, s, -, hi, hs, hkey, -⟩ := hfaithful.declared doc.tree
      (List.mem_map_of_mem (List.mem_of_getElem? hdoc)) d hd
    rw [hfile, hid] at hi
    obtain rfl := Option.some.inj hi
    obtain rfl := Option.some.inj (hsymbol.symm.trans hs)
    obtain ⟨-, hname, harity⟩ := TypeKey.mk.inj hkey
    exact ⟨hname.symm, harity.symm⟩
  have hlength : args.length = symbol.typeParams.length := by
    have hwords := congrArg List.length hargs
    rw [List.length_map, List.length_map] at hwords
    exact hwords.trans hkey.2
  have hlookup := Scope.lookupSimple_eq_self (s := .ofDecl (build sources).symbols doc.tree d symbol.id)
    hrecords hsymbol rfl hlevels hspace (hrecords.member?_eq_none hown.nested)
  rw [← hkey.1, ← hlength] at hlookup
  have hparam : args = [] → (Scope.ofDecl (build sources).symbols doc.tree d symbol.id).typeParam?
      d.name = none := by
    rintro rfl
    rw [hkey.1]
    exact Scope.typeParam?_eq_none hrecords rfl
      (hown.around (List.eq_nil_of_length_eq_zero hlength.symm))
  rw [Scope.resolve_applied hparam hlookup, TypeSymbol.selfType]
  refine congrArg (TypeRef.named _) (List.ext_getElem (by simp [hlength]) fun k hk hk' => ?_)
  rw [List.length_map] at hk hk'
  have hkd : k < d.typeParams.length := hkey.2 ▸ hk'
  have hword : args[k].word? = some d.typeParams[k].name := by
    have hwords := congrArg (·[k]?) hargs
    simpa [hk, hkd] using hwords
  rw [List.getElem_map, List.getElem_map]
  exact Scope.resolve_word hword (Scope.typeParam?_eq_own hsymbol rfl hown
    (List.getElem?_eq_getElem hkd) (List.getElem?_eq_getElem hk'))

end Workspace

end SelfTypeLint
