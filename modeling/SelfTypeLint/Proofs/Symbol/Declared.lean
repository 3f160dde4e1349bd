import Mathlib.Data.List.Basic
import SelfTypeLint.Proofs.Symbol.Parts
import SelfTypeLint.Proofs.Tree.Query

/-!
# Declaring trees

Declaring a type declares the types nested in it, and declaring a tree declares all of its types, each
in its container. So the table of some trees is made of one part for every declaration of the trees, in
their order.
-/

namespace SelfTypeLint

/-- The outermost type declarations of a member, with the namespaces that they stand in. -/
def Member.tops (file : FileId) (space : String) : Member → List Standing
  | .type d => [⟨file, .space space, d⟩]
  | .space n => n.members.attach.flatMap fun ⟨m, h⟩ =>
    have : sizeOf m < 1 + sizeOf n :=
      Nat.lt_trans (List.sizeOf_lt_of_mem h) (Nat.lt_add_left 1 n.sizeOf_members_lt)
    m.tops file (Dotted.join space n.name)
  termination_by m => sizeOf m
  decreasing_by simpa using this

theorem Member.tops_type (file : FileId) (space : String) (d : TypeDecl) :
    (Member.type d).tops file space = [⟨file, .space space, d⟩] := by
  rw [tops]

theorem Member.tops_space (file : FileId) (space : String) (n : NamespaceDecl) :
    (Member.space n).tops file space =
      n.members.flatMap (Member.tops file (Dotted.join space n.name)) := by
  rw [tops]
  simp

/-- The outermost type declarations of a tree, with the full names of their namespaces. -/
def SyntaxTree.tops (t : SyntaxTree) : List Standing := t.members.flatMap (Member.tops t.file "")

/-- The declarations that stand somewhere, each with all that is nested in it. -/
def Standing.sites (tops : List Standing) : List (FileId × TypeDecl) :=
  tops.flatMap fun x => x.decl.withNested.map fun d => (x.file, d)

theorem Standing.sites_append (as bs : List Standing) : sites (as ++ bs) = sites as ++ sites bs :=
  List.flatMap_append

theorem Standing.sites_flatMap {α : Type} (as : List α) (f : α → List Standing) :
    sites (as.flatMap f) = as.flatMap fun a => sites (f a) :=
  List.flatMap_assoc

theorem Member.sites_tops (file : FileId) (space : String) (m : Member) :
    Standing.sites (m.tops file space) = m.typeDecls.map fun d => (file, d) := by
  match m with
  | .type d => simp [tops_type, typeDecls_type, Standing.sites]
  | .space n =>
    rw [tops_space, typeDecls_space, List.map_flatMap, Standing.sites_flatMap]
    refine List.flatMap_congr fun m hm => ?_
    have hlt : sizeOf m < 1 + sizeOf n :=
      Nat.lt_trans (List.sizeOf_lt_of_mem hm) (Nat.lt_add_left 1 n.sizeOf_members_lt)
    exact sites_tops file _ m
  termination_by sizeOf m
  decreasing_by simpa using hlt

/-- The declarations of a tree are those that stand in its namespaces and what is nested in them. -/
theorem SyntaxTree.sites_tops (t : SyntaxTree) :
    Standing.sites t.tops = t.typeDecls.map fun d => (t.file, d) := by
  rw [tops, typeDecls, List.map_flatMap, Standing.sites_flatMap]
  exact List.flatMap_congr fun m _ => m.sites_tops t.file ""

theorem Member.exists_space_of_mem_tops {file : FileId} {space : String} {m : Member}
    {x : Standing} (h : x ∈ m.tops file space) : ∃ name, x.container = .space name := by
  match m with
  | .type d =>
    rw [tops_type] at h
    obtain rfl := List.mem_singleton.1 h
    exact ⟨space, rfl⟩
  | .space n =>
    rw [tops_space] at h
    obtain ⟨m, hm, hx⟩ := List.mem_flatMap.1 h
    have hlt : sizeOf m < 1 + sizeOf n :=
      Nat.lt_trans (List.sizeOf_lt_of_mem hm) (Nat.lt_add_left 1 n.sizeOf_members_lt)
    exact exists_space_of_mem_tops hx
  termination_by sizeOf m
  decreasing_by simpa using hlt

namespace SymbolTable

/-- Holds of the parts of some declarations that stand somewhere and of all that is nested in them. -/
structure Declares (tops : List Standing) (parts : List Part) : Prop where
  listed : parts.map (fun p => (p.file, p.decl)) = Standing.sites tops
  outermost : ∀ x ∈ tops, ∃ p ∈ parts, p.toStanding = x
  nested : ∀ e ∈ Standing.sites tops, ∀ n ∈ e.2.nested, ∃ p ∈ parts, ∃ q ∈ parts,
    (p.file, p.decl) = e ∧ q.toStanding = ⟨e.1, .type p.type, n⟩

theorem declares_nil : Declares [] [] := ⟨rfl, by simp, by simp [Standing.sites]⟩

theorem Declares.append {tops tops' : List Standing} {parts parts' : List Part}
    (h : Declares tops parts) (h' : Declares tops' parts') :
    Declares (tops ++ tops') (parts ++ parts') where
  listed := by rw [List.map_append, h.listed, h'.listed, Standing.sites_append]
  outermost := by
    intro x hx
    rcases List.mem_append.1 hx with hx | hx
    · obtain ⟨p, hp, rfl⟩ := h.outermost x hx
      exact ⟨p, List.mem_append_left _ hp, rfl⟩
    · obtain ⟨p, hp, rfl⟩ := h'.outermost x hx
      exact ⟨p, List.mem_append_right _ hp, rfl⟩
  nested := by
    intro e he n hn
    rw [Standing.sites_append] at he
    rcases List.mem_append.1 he with he | he
    · obtain ⟨p, hp, q, hq, hrest⟩ := h.nested e he n hn
      exact ⟨p, List.mem_append_left _ hp, q, List.mem_append_left _ hq, hrest⟩
    · obtain ⟨p, hp, q, hq, hrest⟩ := h'.nested e he n hn
      exact ⟨p, List.mem_append_right _ hp, q, List.mem_append_right _ hq, hrest⟩

/-- The declarations nested in a declaration, which stand in its type. -/
def within (file : FileId) (id : TypeId) (d : TypeDecl) : List Standing :=
  d.nested.map fun n => ⟨file, .type id, n⟩

theorem sites_cons_within (x : Standing) (id : TypeId) :
    Standing.sites [x] = (x.file, x.decl) :: Standing.sites (within x.file id x.decl) := by
  simp [Standing.sites, within, List.flatMap_map, List.map_flatMap, TypeDecl.withNested_eq x.decl]

/-- A declaration with the parts of all that is nested in it. -/
theorem Declares.cons {x : Standing} {id : TypeId} {parts : List Part}
    (h : Declares (within x.file id x.decl) parts) : Declares [x] (⟨x, id⟩ :: parts) where
  listed := by rw [List.map_cons, h.listed, ← sites_cons_within]
  outermost := by
    intro y hy
    obtain rfl := List.mem_singleton.1 hy
    exact ⟨_, List.mem_cons_self, rfl⟩
  nested := by
    intro e he n hn
    rw [sites_cons_within x id] at he
    rcases List.mem_cons.1 he with rfl | he
    · obtain ⟨q, hq, hstands⟩ := h.outermost _ (List.mem_map_of_mem hn)
      exact ⟨_, List.mem_cons_self, q, List.mem_cons_of_mem _ hq, rfl, hstands⟩
    · obtain ⟨p, hp, q, hq, hrest⟩ := h.nested e he n hn
      exact ⟨p, List.mem_cons_of_mem _ hp, q, List.mem_cons_of_mem _ hq, hrest⟩

/-- Holds of a step that declares what stands in containers that there are. -/
def Adds (tops : List Standing) (f : SymbolTable → SymbolTable) : Prop :=
  ∀ t parts, t.Records parts → (∀ x ∈ tops, ∀ o, x.container = .type o → o < t.types.size) →
    ∃ more, (f t).Records (parts ++ more) ∧ Declares tops more ∧ t.types.size ≤ (f t).types.size

/-- Steps that declare, one after another. -/
theorem adds_foldl {α : Type} {f : SymbolTable → α → SymbolTable} {tops : α → List Standing}
    {as : List α} (h : ∀ a ∈ as, Adds (tops a) (f · a)) : Adds (as.flatMap tops) (as.foldl f ·) := by
  induction as with
  | nil =>
    intro t parts ht _
    exact ⟨[], by simpa using ht, declares_nil, Nat.le_refl _⟩
  | cons a as ih =>
    intro t parts ht htops
    obtain ⟨more, ht', hmore, hle⟩ := h a List.mem_cons_self t parts ht fun x hx =>
      htops x (List.mem_append_left _ hx)
    obtain ⟨rest, ht'', hrest, hle'⟩ := ih (fun b hb => h b (List.mem_cons_of_mem _ hb)) _ _ ht'
      fun x hx o ho => Nat.lt_of_lt_of_le (htops x (List.mem_append_right _ hx) o ho) hle
    rw [List.append_assoc] at ht''
    exact ⟨more ++ rest, ht'', hmore.append hrest, Nat.le_trans hle hle'⟩

theorem size_addPart (t : SymbolTable) (file : FileId) (id : TypeId) (d : TypeDecl) :
    (t.addPart file id d).types.size = t.types.size := by
  rw [addPart, foldl_addParamPart_eq]
  simp

/-- Declaring a part finds its type or adds it, and records the part. -/
theorem Records.declarePart {t : SymbolTable} {parts : List Part} (h : t.Records parts)
    (file : FileId) {container : Container} {space : String} (d : TypeDecl)
    (hopen : t.Opens space container) : ∃ id t', t.declarePart file container space d = (id, t') ∧
      t'.Records (parts ++ [⟨⟨file, container, d⟩, id⟩]) ∧ id < t'.types.size ∧
      t.types.size ≤ t'.types.size := by
  rw [SymbolTable.declarePart]
  split
  · next id hid =>
    obtain ⟨s, hs, hkey⟩ := (h.members _ id).1 hid
    refine ⟨id, _, rfl, h.addPart hs hkey, ?_, ?_⟩
    · rw [size_addPart]
      exact lt_size_of_getElem? hs
    · exact Nat.le_of_eq (size_addPart _ _ _ _).symm
  · next hnone =>
    have hself : (t.addType container space d).types[t.types.size]? =
        some (t.newType container space d) := by rw [types_addType, if_pos rfl]
    have hsize := lt_size_of_getElem? hself
    refine ⟨_, _, rfl, (h.addType hopen hnone).addPart hself hopen.key_newType, ?_, ?_⟩
    · rwa [size_addPart]
    · rw [size_addPart]
      exact Nat.le_of_lt hsize

/-- Declaring a type declares it and all types nested in it. -/
theorem adds_declareType (file : FileId) (space : String) {container : Container} (d : TypeDecl)
    (hspace : ∀ name, container = .space name → name = space) :
    Adds [⟨file, container, d⟩] (declareType file space container · d) := by
  intro t parts ht htops
  have hopen : t.Opens space container := by
    cases container with
    | type o => exact htops _ List.mem_cons_self o rfl
    | space name => exact hspace name rfl
  obtain ⟨id, t', hpart, ht', hid, hle⟩ := ht.declarePart file d hopen
  have hnested : Adds (within file id d) (d.nested.foldl (declareType file space (.type id)) ·) := by
    rw [within, List.map_eq_flatMap]
    exact adds_foldl fun n hn =>
      have hlt := TypeDecl.sizeOf_lt_of_mem_nested hn
      adds_declareType file space n (by simp)
  have hcontainer : ∀ x ∈ within file id d, ∀ o, x.container = .type o → o < t'.types.size := by
    intro x hx o ho
    obtain ⟨n, -, rfl⟩ := List.mem_map.1 hx
    obtain rfl : id = o := by simpa using ho
    exact hid
  obtain ⟨more, hmore, hdeclares, hle'⟩ := hnested t' _ ht' hcontainer
  have hrun : declareType file space container t d =
      d.nested.foldl (declareType file space (.type id)) t' := by rw [declareType_eq, hpart]
  refine ⟨⟨⟨file, container, d⟩, id⟩ :: more, ?_, hdeclares.cons, ?_⟩
  · simpa [hrun] using hmore
  · simpa only [hrun] using Nat.le_trans hle hle'
  termination_by sizeOf d

theorem Records.declareSpace {t : SymbolTable} {parts : List Part} (h : t.Records parts)
    (name : String) : (t.declareSpace name).Records parts :=
  ⟨h.typeId, h.fullName, h.outer, h.param, h.formal, h.members, h.keys, h.decls, h.paramDecls,
    h.locations, h.paramLocations⟩

/-- Declaring a member declares its types in their namespaces. -/
theorem adds_declareMember (file : FileId) (space : String) (m : Member) :
    Adds (m.tops file space) (declareMember file space · m) := by
  match m with
  | .type d =>
    rw [Member.tops_type]
    simp only [declareMember_type]
    exact adds_declareType file space d (by simp)
  | .space n =>
    have hmembers : Adds (n.members.flatMap (Member.tops file (Dotted.join space n.name)))
        (n.members.foldl (declareMember file (Dotted.join space n.name)) ·) :=
      adds_foldl fun m hm =>
        have hlt : sizeOf m < 1 + sizeOf n :=
          Nat.lt_trans (List.sizeOf_lt_of_mem hm) (Nat.lt_add_left 1 n.sizeOf_members_lt)
        adds_declareMember file _ m
    rw [Member.tops_space]
    simp only [declareMember_space]
    intro t parts ht htops
    exact hmembers _ parts (ht.declareSpace _) htops
  termination_by sizeOf m
  decreasing_by simpa using hlt

/-- Declaring a tree declares its types in their namespaces. -/
theorem adds_declareTree (tree : SyntaxTree) : Adds tree.tops (declareTree · tree) := by
  intro t parts ht htops
  obtain ⟨more, h, hrest⟩ := adds_foldl
    (fun m _ => adds_declareMember tree.file "" m) t parts ht htops
  exact ⟨more, ⟨h.typeId, h.fullName, h.outer, h.param, h.formal, h.members, h.keys, h.decls,
    h.paramDecls, h.locations, h.paramLocations⟩, hrest⟩

end SymbolTable

end SelfTypeLint
