import SelfTypeLint.Proofs.Layout.Declarations
import SelfTypeLint.Proofs.Layout.Targets
import SelfTypeLint.Proofs.Walk.Files

/-!
# The layout of files

Two texts with the same kinds and words of tokens are read as the same tree with the same faults, up to
places. Blanks, line breaks and comments only show in the targets of using directives that are no names.
-/

namespace SelfTypeLint

open Respelling

mutual

/-- A member of a text without its places. -/
def Member.bare (source : String) : Member → Member
  | .type d => .type (Respelling.bare.typeDecl d)
  | .space ⟨name, _, fileScoped, usings, members, _, _⟩ =>
    .space ⟨name, ⟨0, 0⟩, fileScoped, usings.map (·.bare source), bareList source members, ⟨0, 0⟩, 0⟩

/-- Members of a text without their places. -/
def Member.bareList (source : String) : List Member → List Member
  | [] => []
  | m :: ms => m.bare source :: bareList source ms

end

theorem Member.bareList_eq_map (source : String) (ms : List Member) :
    Member.bareList source ms = ms.map (·.bare source) := by
  induction ms with
  | nil => rfl
  | cons m ms ih => rw [bareList, ih, List.map_cons]

/-- A namespace of a text without its places. -/
def NamespaceDecl.bare (source : String) (n : NamespaceDecl) : NamespaceDecl where
  name := n.name
  nameSpan := ⟨0, 0⟩
  fileScoped := n.fileScoped
  usings := n.usings.map (·.bare source)
  members := n.members.map (·.bare source)
  span := ⟨0, 0⟩
  bodyStart := 0

theorem Member.bare_space (source : String) (n : NamespaceDecl) :
    Member.bare source (.space n) = .space (NamespaceDecl.bare source n) := by
  obtain ⟨name, nameSpan, fileScoped, usings, members, span, bodyStart⟩ := n
  rw [bare, bareList_eq_map]
  rfl

/-- What is read of a text without the places of its parts and of its faults. -/
def ReadOutput.bare (source : String) (r : ReadOutput) : ReadOutput where
  tree :=
    { r.tree with
      usings := r.tree.usings.map (·.bare source)
      members := r.tree.members.map (·.bare source) }
  errors := r.errors.map ParseError.bare

namespace Read

open Cursor

/-- Using directives and members of a text without their places. -/
def bareMembers (source : String) : Members → Members :=
  Prod.map (List.map (UsingDirective.bare source)) (List.map (Member.bare source))

variable {α : Type} {source : String} {n : Nat} {c d : Cursor}

theorem layoutFree_dottedTail (n : Nat) (name : String) (span : Span) (c : Cursor) :
    LayoutFree (Prod.map id bare.span) (dottedTail n name span) (dottedTail n name ⟨0, 0⟩) c := by
  induction n generalizing name span c with
  | zero => exact layoutFree_pure rfl
  | succ n ih =>
    rw [dottedTail, dottedTail]
    apply layoutFree_get.2
    refine LayoutFree.ite (by rw [kind_bare, peek_bare]) (fun _ => ?_) fun _ => layoutFree_pure rfl
    exact LayoutFree.set (bump_bare c) (leads_bump c) (LayoutFree.next (ih _ _ _))

/-- Holds of a number for which the readers of members do not see the layout of a text. -/
structure MembersLayoutFree (source : String) (n : Nat) : Prop where
  members : ∀ c, (ofSource source).Leads c →
    LayoutFreeM (bareMembers source) (membersWith n) (membersWith n) c
  member : ∀ c, (ofSource source).Leads c →
    LayoutFree (Option.map (Member.bare source)) (memberWith n) (memberWith n) c
  space : ∀ start c, (ofSource source).Leads c →
    LayoutFree (NamespaceDecl.bare source) (namespaceWith start n) (namespaceWith 0 n) c

theorem MembersLayoutFree.spaceBody (h : MembersLayoutFree source n) (start : Nat) (name : String)
    (nameSpan : Span) (fileScoped : Bool) (hc : (ofSource source).Leads c) :
    LayoutFree (NamespaceDecl.bare source) (spaceBody start n name nameSpan fileScoped)
      (spaceBody 0 n name ⟨0, 0⟩ fileScoped) c := by
  refine layoutFree_get.2 (LayoutFree.lift (h.members c hc) ?_)
  rintro ⟨usings, members⟩ d -
  cases fileScoped with
  | true => exact LayoutFree.spanFrom (layoutFree_pure rfl)
  | false => exact (layoutFree_closeBody d).bind fun _ d' _ _ => LayoutFree.spanFrom (layoutFree_pure rfl)

theorem MembersLayoutFree.space_succ (h : MembersLayoutFree source n) (start : Nat) (c : Cursor)
    (hc : (ofSource source).Leads c) :
    LayoutFree (NamespaceDecl.bare source) (namespaceWith start (n + 1)) (namespaceWith 0 (n + 1)) c := by
  rw [namespaceWith_succ, namespaceWith_succ]
  refine (layoutFree_expect _ _).bind fun _ d _ hd => ?_
  refine (layoutFree_expect _ _).bind fun first d' _ hd' => layoutFree_get.2 ?_
  rw [length_ahead_bare]
  refine (layoutFree_dottedTail _ _ _ d').bind ?_
  rintro ⟨name, nameSpan⟩ e - he
  refine (layoutFree_eat .semi).bind fun fileScoped e' _ he' => ?_
  have hc' := (((hc.trans hd).trans hd').trans he).trans he'
  refine LayoutFree.ite Iff.rfl (fun _ => h.spaceBody _ _ _ _ hc') fun _ => ?_
  exact (layoutFree_expect _ _).bind fun _ _ _ hf => h.spaceBody _ _ _ _ (hc'.trans hf)

theorem all_target_bare (as : List AttributeList) :
    (as.map bare.attributeList).all (·.target.isSome) = as.all (·.target.isSome) := by
  rw [List.all_map]
  exact congrArg as.all (funext fun l => by rw [Function.comp_apply, attributeList_bare])

theorem MembersLayoutFree.member_succ (h : MembersLayoutFree source n) (c : Cursor)
    (hc : (ofSource source).Leads c) :
    LayoutFree (Option.map (Member.bare source)) (memberWith (n + 1)) (memberWith (n + 1)) c := by
  rw [memberWith]
  apply layoutFree_get.2
  rw [current_bare]
  refine (layoutFree_attributeLists c).bind fun attributes d _ hd => ?_
  refine (layoutFree_modifiers d).bind fun modifiers d' _ hd' => layoutFree_get.2 ?_
  have hleads := (hc.trans hd).trans hd'
  refine LayoutFree.ite (by rw [atTypeDecl_bare]) (fun _ => ?_) fun _ => ?_
  · exact ((bodiesLayoutFree n).typeDecl _ attributes modifiers d').bind fun decl _ _ _ =>
      layoutFree_pure (by rw [Option.map_some, Member.bare])
  · rw [kind_bare]
    generalize d'.kind = k
    split
    · exact (h.space _ d' hleads).bind fun decl _ _ _ =>
        layoutFree_pure (by rw [Option.map_some, Member.bare_space])
    · exact (layoutFree_skipEnum d').bind fun _ _ _ _ => layoutFree_pure rfl
    · exact LayoutFree.set (skipDelegate_bare d') (leads_skipDelegate d') (layoutFree_pure rfl)
    · rw [List.isEmpty_map, all_target_bare]
      exact LayoutFree.ite Iff.rfl (fun _ => layoutFree_pure rfl) fun _ => layoutFree_fail .declaration

theorem MembersLayoutFree.entry (h : MembersLayoutFree source n) (c : Cursor)
    (hc : (ofSource source).Leads c) :
    LayoutFreeM (bareMembers source) (Walk.entryOf n) (Walk.entryOf n) c := by
  refine layoutFreeM_get.2 (LayoutFreeM.ite (by rw [kind_bare]) (fun _ => ?_) fun _ => ?_)
  · exact LayoutFreeM.set (bump_bare c) (leads_bump c) (layoutFreeM_pure rfl)
  refine LayoutFreeM.ite (by rw [kind_bare, atWord_bare, peek_bare]) (fun _ => ?_) fun _ => ?_
  · exact LayoutFreeM.bind_run (layoutFree_usingDirective hc) (fun u d _ => layoutFreeM_pure rfl)
      fun x d _ => layoutFreeM_recover skipStatement_bare leads_skipStatement x rfl
  refine LayoutFreeM.ite (by rw [kind_bare, current_bare, peek_bare]; rfl) (fun _ => ?_) fun _ => ?_
  · exact LayoutFreeM.set (skipStatement_bare c) (leads_skipStatement c) (layoutFreeM_pure rfl)
  · apply LayoutFreeM.bind_run (h.member c hc)
    · intro found d _
      cases found <;> exact layoutFreeM_pure rfl
    · intro x d _
      exact layoutFreeM_recover skipMember_bare leads_skipMember x rfl

theorem MembersLayoutFree.members_succ (h : MembersLayoutFree source n) (c : Cursor)
    (hc : (ofSource source).Leads c) :
    LayoutFreeM (bareMembers source) (membersWith (n + 1)) (membersWith (n + 1)) c := by
  rw [Walk.membersWith_succ]
  apply layoutFreeM_get.2
  refine LayoutFreeM.ite (by rw [kind_bare]) (fun _ => layoutFreeM_pure rfl) fun _ => ?_
  refine (h.entry c hc).bind ?_
  rintro ⟨us, ms⟩ d hd
  refine (h.members d (hc.trans hd)).bind ?_
  rintro ⟨us', ms'⟩ e -
  refine layoutFreeM_pure ?_
  simp only [bareMembers, Prod.map, List.map_append]

theorem membersLayoutFree (source : String) (n : Nat) : MembersLayoutFree source n := by
  induction n with
  | zero =>
    exact ⟨fun _ _ => layoutFreeM_pure rfl, fun _ _ => layoutFree_fail _,
      fun _ _ _ => layoutFree_fail _⟩
  | succ n ih => exact ⟨ih.members_succ, ih.member_succ, ih.space_succ⟩

theorem layoutFree_fileMembers (fuel n : Nat) (c : Cursor) (hc : (ofSource source).Leads c) :
    LayoutFreeM (bareMembers source) (fileMembers fuel n) (fileMembers fuel n) c := by
  induction n generalizing c with
  | zero => exact layoutFreeM_pure rfl
  | succ n ih =>
    rw [fileMembers]
    refine ((membersLayoutFree source fuel).members c hc).bind ?_
    rintro ⟨us, ms⟩ d hd
    apply layoutFreeM_get.2
    refine LayoutFreeM.ite (by rw [kind_bare]) (fun _ => ?_) fun _ => layoutFreeM_pure rfl
    have hstray := (leads_report d (d.unexpected .declaration)).trans (leads_bump _)
    refine LayoutFreeM.set ?_ hstray ((ih _ ((hc.trans hd).trans hstray)).bind ?_)
    · rw [unexpected_bare, report_bare, bump_bare]
    · rintro ⟨us', ms'⟩ e -
      refine layoutFreeM_pure ?_
      simp only [bareMembers, Prod.map, List.map_append]

end Read

namespace SyntaxTree

open Read

/-- What is read of a text, without its places, is what is read where no places are known. -/
theorem bare_read (file : FileId) (source : String) :
    (read file source).bare source =
      let start := (Cursor.ofSource source).bare
      let size := start.ahead.length
      let ((usings, members), c) := (fileMembers (declarationFuel size) (size + 1)).run start
      { tree := { file, usings, members }, errors := c.errors.reverse } := by
  dsimp only
  rw [Cursor.length_ahead_bare, (layoutFree_fileMembers _ _ _ (Cursor.Leads.refl _)).1]
  rw [ReadOutput.bare, read]
  dsimp only
  generalize (fileMembers _ _).run (Cursor.ofSource source) = out
  obtain ⟨⟨usings, members⟩, c⟩ := out
  exact congrArg (ReadOutput.mk _) (List.map_reverse (f := ParseError.bare))

/-- Reading does not see the layout: if the tokens of two texts have the same kinds and words one after
another, the same tree is read from both, up to places, and the same faults are found. The target of a
using directive is the same too, except where it is no name. -/
theorem read_layout (file : FileId) {s s' : String}
    (h : (Token.read s).map (fun t => (t.kind, t.text)) =
      (Token.read s').map fun t => (t.kind, t.text)) :
    (read file s).bare s = (read file s').bare s' := by
  rw [bare_read, bare_read, Cursor.bare_ofSource h]

/-- Two layouts of a text without its last brace. The fault is found in both. Of the two targets, the name
is the same, and the array type, which is dropped, is not. -/
theorem read_layout_targets :
    (Token.read "using A . B; using X = C [ ]; class D /* open */ \x7b").map
        (fun t => (t.kind, t.text)) =
      (Token.read "using A.B;\nusing X = C[];\nclass D \x7b").map (fun t => (t.kind, t.text)) ∧
    (read 0 "using A . B; using X = C [ ]; class D /* open */ \x7b").bare
        "using A . B; using X = C [ ]; class D /* open */ \x7b" =
      (read 0 "using A.B;\nusing X = C[];\nclass D \x7b").bare "using A.B;\nusing X = C[];\nclass D \x7b" ∧
    (read 0 "using A . B; using X = C [ ]; class D /* open */ \x7b").tree.usings.map (·.target) =
      ["A.B", "C [ ]"] ∧
    (read 0 "using A.B;\nusing X = C[];\nclass D \x7b").tree.usings.map (·.target) = ["A.B", "C[]"] ∧
    ((read 0 "using A.B;\nusing X = C[];\nclass D \x7b").bare
        "using A.B;\nusing X = C[];\nclass D \x7b").tree.usings.map (·.target) = ["A.B", ""] ∧
    (read 0 "using A.B;\nusing X = C[];\nclass D \x7b").errors =
      [.expected .closingBrace none ⟨35, 35⟩] := by
  have htokens : (Token.read "using A . B; using X = C [ ]; class D /* open */ \x7b").map
      (fun t => (t.kind, t.text)) =
        (Token.read "using A.B;\nusing X = C[];\nclass D \x7b").map fun t => (t.kind, t.text) := by
    decide +kernel
  refine ⟨htokens, read_layout 0 htokens, ?_, ?_, ?_, ?_⟩
  all_goals decide +kernel

end SyntaxTree

end SelfTypeLint
