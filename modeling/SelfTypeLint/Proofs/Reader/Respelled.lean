import SelfTypeLint.Proofs.Grammar.Owners
import SelfTypeLint.Proofs.Grammar.RespellFiles
import SelfTypeLint.Proofs.Reader.FilesComplete
import SelfTypeLint.Proofs.Reader.FilesSound
import SelfTypeLint.Proofs.Token.Exchange

/-!
# Reading respelled texts

Edits that put plain words in the place of identifiers of declarations keep a text free of faults. The
tree that is read of the new text is the old one with the new places and words (`read_respelled`).
-/

namespace SelfTypeLint

open Token Text

namespace Respelling

variable (m : Respelling)

/-- A tree with its new places and words. -/
def tree (t : SyntaxTree) : SyntaxTree where
  file := t.file
  usings := t.usings.map m.usingDirective
  members := m.memberList t.members

mutual

theorem withNested_typeDecl : ∀ d : TypeDecl,
    (m.typeDecl d).withNested = d.withNested.map m.typeDecl
  | ⟨_, _, _, _, _, _, _, _, nested, _, _⟩ => by
    rw [typeDecl, TypeDecl.withNested_eq, TypeDecl.withNested_eq, List.map_cons, typeDecl]
    exact congrArg _ (withNested_typeDeclList nested)

theorem withNested_typeDeclList : ∀ ds : List TypeDecl,
    (m.typeDeclList ds).flatMap TypeDecl.withNested =
      (ds.flatMap TypeDecl.withNested).map m.typeDecl
  | [] => rfl
  | d :: ds => by
    rw [typeDeclList, List.flatMap_cons, List.flatMap_cons, List.map_append, withNested_typeDecl d,
      withNested_typeDeclList ds]

end

mutual

theorem typeDecls_member : ∀ a : Member, (m.member a).typeDecls = a.typeDecls.map m.typeDecl
  | .type d => by
    rw [member, Member.typeDecls_type, Member.typeDecls_type, withNested_typeDecl]
  | .space ⟨_, _, _, _, members, _, _⟩ => by
    rw [member, Member.typeDecls_space, Member.typeDecls_space]
    exact typeDecls_memberList members

theorem typeDecls_memberList : ∀ as : List Member,
    (m.memberList as).flatMap Member.typeDecls = (as.flatMap Member.typeDecls).map m.typeDecl
  | [] => rfl
  | a :: as => by
    rw [memberList, List.flatMap_cons, List.flatMap_cons, List.map_append, typeDecls_member a,
      typeDecls_memberList as]

end

/-- Respelling keeps the declarations of a tree and their order. -/
theorem typeDecls_tree (t : SyntaxTree) : (m.tree t).typeDecls = t.typeDecls.map m.typeDecl :=
  m.typeDecls_memberList t.members

end Respelling

namespace TextEdit

/-- The new text of the edit at exactly a span, if there is one. -/
def wordAt (edits : List TextEdit) (s : Span) : Option String :=
  (edits.find? (·.span = s)).map (·.newText)

theorem mem_of_wordAt {edits : List TextEdit} {s : Span} {w : String}
    (h : wordAt edits s = some w) : ⟨s, w⟩ ∈ edits := by
  obtain ⟨e, he, rfl⟩ := Option.map_eq_some_iff.1 h
  have hspan : e.span = s := by simpa using List.find?_some he
  rw [← hspan]
  exact List.mem_of_find?_eq_some he

/-- Where no two edits overlap, at most one is at a span that is not empty. -/
theorem wordAt_eq_some_iff {edits : List TextEdit} {s : Span} {w : String}
    (hapart : edits.Pairwise fun a b => a.overlaps b = false)
    (hpos : ∀ e ∈ edits, e.span.start < e.span.stop) : wordAt edits s = some w ↔ ⟨s, w⟩ ∈ edits := by
  refine ⟨mem_of_wordAt, fun h => ?_⟩
  cases hfind : edits.find? (·.span = s) with
  | none => simpa using List.find?_eq_none.1 hfind _ h
  | some e =>
    have he := List.mem_of_find?_eq_some hfind
    have hspan : e.span = s := by simpa using List.find?_some hfind
    rw [wordAt, hfind, Option.map_some]
    by_cases hne : e = ⟨s, w⟩
    · rw [hne]
    · subst hspan
      have hno := not_overlaps_of_mem hapart he h hne
      rw [show e.overlaps ⟨e.span, w⟩ = true from overlaps_self e (hpos e he)] at hno
      exact absurd hno (by simp)

end TextEdit

/-! ## Edits that respell -/

namespace Text

/-- The character that ends at a byte offset. -/
def charBefore? (n : Nat) (cs : List Char) : Option Char := (splitAt? n cs).bind (·.1.getLast?)

/-- Holds of the offsets at which no word ends, nor the sign of a verbatim one. -/
def StandsFree (cs : List Char) (n : Nat) : Prop :=
  ∀ c ∈ charBefore? n cs, isWordPart c = false ∧ c ≠ '@'

instance (cs : List Char) (n : Nat) : Decidable (StandsFree cs n) :=
  Option.decidableForallMem (charBefore? n cs)

end Text

namespace TextEdit

/-- Holds of an edit that puts a plain word in the place of another that stands free, where neither
is a word that some positions reserve. -/
def Respells (e : TextEdit) (source : String) : Prop :=
  IsPlainWord e.newText ∧ e.newText ∉ Respelling.contextualWords ∧
    e.span.text source ∉ Respelling.contextualWords ∧ identName (e.span.text source) ≠ "global" ∧
    StandsFree source.toList e.span.start

instance (e : TextEdit) (source : String) : Decidable (e.Respells source) := by
  unfold Respells
  infer_instance

/-- The respelling that edits of a source do. -/
def respelling (edits : List TextEdit) (source : String) : Respelling where
  place := moved (wordAt edits) 0 0 (tiles source.toList)
  word := wordAt edits
  target n old :=
    let ahead := (Cursor.ofSource source).ahead.dropWhile (·.span.start ≠ n)
    (ahead[1]?.bind fun t => wordAt edits t.span).getD old

/-- The text that the edits of a source give if they stand at tokens. -/
def respelledText (edits : List TextEdit) (source : String) : String :=
  String.ofList (textOf (exchange (wordAt edits) 0 (tiles source.toList)))

end TextEdit

namespace TextEdit

open Grammar Respelling

/-- Holds of edits that respell identifiers of a source, of which no two overlap. -/
structure RespellAll (edits : List TextEdit) (source : String) : Prop where
  apart : edits.Pairwise fun a b => a.overlaps b = false
  idents : ∀ e ∈ edits, ∃ i ∈ Token.idents (Cursor.ofSource source).ahead, i.span = e.span
  respells : ∀ e ∈ edits, e.Respells source

namespace RespellAll

variable {edits : List TextEdit} {source : String} (h : RespellAll edits source)

include h

theorem exists_token {e : TextEdit} (he : e ∈ edits) :
    ∃ t ∈ (Cursor.ofSource source).ahead, t.kind = .ident ∧ t.span = e.span := by
  obtain ⟨i, hi, hspan⟩ := h.idents e he
  obtain ⟨t, ht, hsome⟩ := List.mem_filterMap.1 hi
  split at hsome
  · next hk =>
    obtain rfl := Option.some.inj hsome
    exact ⟨t, ht, hk, hspan⟩
  · exact absurd hsome (by simp)

theorem start_lt_stop {e : TextEdit} (he : e ∈ edits) : e.span.start < e.span.stop := by
  obtain ⟨t, ht, -, hspan⟩ := h.exists_token he
  rw [← hspan]
  exact ((placed_ofSource source).start_le ht).2

theorem wordAt_iff {s : Span} {w : String} : wordAt edits s = some w ↔ ⟨s, w⟩ ∈ edits :=
  wordAt_eq_some_iff h.apart fun _ he => h.start_lt_stop he

theorem suits {t : Token} (ht : t ∈ (Cursor.ofSource source).ahead) :
    (respelling edits source).Suits t := by
  intro w hw
  have he : ⟨t.span, w⟩ ∈ edits := h.wordAt_iff.1 hw
  obtain ⟨u, hu, hk, hspan⟩ := h.exists_token he
  obtain ⟨hplain, hnew, hold, hglobal, -⟩ := h.respells _ he
  have hut : u = t := (placed_ofSource source).eq_of_span hu ht hspan
  subst hut
  rw [text_of_mem_ofSource ht] at hold hglobal
  refine ⟨hk, hold, hglobal, hnew, ?_⟩
  obtain ⟨c, cs, hlist, hstart, -⟩ := hplain.shape
  unfold identName
  rw [hlist]
  split
  · next heq =>
    obtain ⟨rfl, -⟩ := List.cons.inj heq
    exact absurd hstart (by decide)
  · rfl

theorem suited : Suited (respelling edits source) (Cursor.ofSource source).ahead where
  suits := fun t ht => h.suits ht
  targets := by
    rintro o t ⟨xs, ys, hsplit⟩ - -
    have hdrop : (Cursor.ofSource source).ahead.dropWhile (·.span.start ≠ o.span.start) =
        o :: t :: ys := by
      have hplaced := placed_ofSource source
      rw [← hsplit, List.append_assoc] at hplaced ⊢
      rw [List.dropWhile_append_of_pos]
      · simp
      · intro x hx
        have hle := (List.pairwise_append.1 hplaced.pairwise).2.2 x hx o (by simp)
        have hlt := (hplaced.start_le (List.mem_append_left _ hx)).2
        simpa using (by omega : x.span.start ≠ o.span.start)
    simp only [respelling, hdrop]
    rfl

theorem exchangeable (herror : ∀ t ∈ (Cursor.ofSource source).ahead, t.kind ≠ .error) :
    Exchangeable (wordAt edits) none 0 (tiles source.toList) := by
  rw [ahead_ofSource] at herror
  have hne : ∀ t ∈ tiles source.toList, t.text ≠ [] := fun t => text_ne_nil_of_mem_tiles
  apply exchangeable_of_splits hne
  · intro u hu hk
    obtain ⟨as, bs, hsplit⟩ := List.append_of_mem hu
    rw [hsplit] at herror
    exact herror _ (mem_tokensAt_of_kind as bs hk) rfl
  · intro as u bs w hsplit hw
    have he := h.wordAt_iff.1 hw
    obtain ⟨hplain, -, -, -, hfree⟩ := h.respells _ he
    obtain ⟨t, ht, hk, hspan⟩ := h.exists_token he
    rw [ahead_ofSource] at ht
    obtain ⟨as', u', bs', hsplit', hkind, -, hspan'⟩ := exists_of_mem_tokensAt ht
    have hsize : byteSize (textOf as) = byteSize (textOf as') := by
      rw [hspan'] at hspan
      have := congrArg Span.start hspan
      dsimp only at this
      omega
    obtain ⟨rfl, rfl⟩ := split_unique (hsplit ▸ hne) (hsplit.symm.trans hsplit') hsize
    refine ⟨hkind.trans (congrArg some hk), hplain, fun c hc => hfree c ?_⟩
    have hcs : source.toList = textOf as ++ textOf (u :: bs) := by
      rw [← textOf_append, ← hsplit, textOf_tiles]
    rw [Option.or_none] at hc
    rw [Nat.zero_add, charBefore?, hcs, splitAt?_append]
    exact hc

/-- The new text, and its tokens at their new places. -/
theorem tokens (herror : ∀ t ∈ (Cursor.ofSource source).ahead, t.kind ≠ .error) :
    applyAll? edits source.toList = some (respelledText edits source).toList ∧
      (Cursor.ofSource (respelledText edits source)).ahead =
        (Cursor.ofSource source).ahead.map (respelling edits source).token := by
  have hne : ∀ t ∈ tiles source.toList, t.text ≠ [] := fun t => text_ne_nil_of_mem_tiles
  have hle : ∀ e ∈ edits, e.span.start ≤ e.span.stop := fun e he => Nat.le_of_lt (h.start_lt_stop he)
  have hperm : (placeOrder edits).Perm edits := List.mergeSort_perm _ _
  have hbounds : ∀ e ∈ edits, IsBoundary source.toList e.span.start ∧
      IsBoundary source.toList e.span.stop := by
    intro e he
    obtain ⟨t, ht, -, hspan⟩ := h.exists_token he
    rw [← hspan]
    exact isBoundary_of_mem_ofSource ht
  have hsplice : splice? 0 (placeOrder edits) (textOf (tiles source.toList)) =
      some (textOf (exchange (wordAt edits) 0 (tiles source.toList))) := by
    apply splice?_exchange hne (spaced_placeOrder hle h.apart)
    · intro e he
      obtain ⟨t, ht, -, hspan⟩ := h.exists_token (hperm.mem_iff.1 he)
      rw [ahead_ofSource] at ht
      exact ⟨t, ht, hspan.symm⟩
    · intro s w _
      rw [hperm.mem_iff]
      exact h.wordAt_iff
  rw [textOf_tiles] at hsplice
  rw [applyAll?_eq_splice? hle hbounds h.apart, hsplice, respelledText, String.toList_ofList]
  refine ⟨rfl, ?_⟩
  rw [ahead_ofSource, String.toList_ofList,
    (cut_tiles source.toList).exchange (h.exchangeable herror), tokensAt_exchange hne,
    ahead_ofSource]
  rfl

end RespellAll

end TextEdit

namespace SyntaxTree

open TextEdit Grammar

/-- No token of a text without faults is an error. -/
theorem kind_ne_error_of_read {file : FileId} {source : String} (h : (read file source).errors = []) :
    ∀ t ∈ (Cursor.ofSource source).ahead, t.kind ≠ .error := by
  obtain ⟨ts, is, es, hd, -, -⟩ := Read.satM_fileMembers
    (Read.declarationFuel (Cursor.ofSource source).ahead.length) (Cursor.ready_ofSource source)
    ((Cursor.ofSource source).ahead.length + 1)
  have hnil : ((Read.fileMembers (Read.declarationFuel (Cursor.ofSource source).ahead.length)
      ((Cursor.ofSource source).ahead.length + 1)).run (Cursor.ofSource source)).2.errors = [] :=
    List.reverse_eq_nil_iff.1 h
  have herrors := hd.errors
  rw [hnil] at herrors
  have hstart := (List.append_eq_nil_iff.1 herrors.symm).2
  intro t ht hk
  have hreverse : ((Cursor.ofSource source).ahead.filterMap fun t =>
      if t.kind = .error then some (.invalidToken t.text t.span) else none) =
        ([] : List ParseError) := List.reverse_eq_nil_iff.1 hstart
  have hnone := List.filterMap_eq_nil_iff.1 hreverse t ht
  rw [if_pos hk] at hnone
  exact absurd hnone (by simp)

/-- Edits that respell identifiers of declarations keep a text free of faults, and what is read of the
new text is the old tree with its new places and words. -/
theorem read_respelled {file : FileId} {source : String} {edits : List TextEdit}
    (hclean : (read file source).errors = []) (h : RespellAll edits source)
    (howned : ∀ e ∈ edits, ∃ d ∈ (read file source).tree.typeDecls, ∃ i ∈ d.idents,
      i.span = e.span) :
    applyAll? edits source.toList = some (respelledText edits source).toList ∧
      read file (respelledText edits source) =
        ⟨(respelling edits source).tree (read file source).tree, []⟩ := by
  have herror := kind_ne_error_of_read hclean
  obtain ⟨happly, htokens⟩ := h.tokens herror
  obtain ⟨is, hform⟩ := membersForm_read hclean
  refine ⟨happly, ?_⟩
  have hkept : IdentsKept (respelling edits source) is := by
    intro i hi
    cases hw : wordAt edits i.span with
    | none => exact hw
    | some w =>
      obtain ⟨d, hd, j, hj, hspan⟩ := howned _ (h.wordAt_iff.1 hw)
      have hnodup := nodup_of_subperm_idents hform.shared.subperm (placed_ofSource source)
      rw [List.map_append, List.nodup_append] at hnodup
      have hmem : j ∈ memberIdents (read file source).tree.members :=
        List.mem_flatMap.2 ⟨d, hd, hj⟩
      exact absurd hspan.symm (hnodup.2.2 _ (List.mem_map_of_mem hi) _ (List.mem_map_of_mem hmem))
  have hslice : SliceKept (respelling edits source) (·.text source)
      (·.text (respelledText edits source)) (Cursor.ofSource source).ahead := by
    intro us hus hne hkept
    have hsame := text_exchange (h.exchangeable herror) (ahead_ofSource source ▸ hus) hne hkept
    rwa [String.ofList_toList] at hsame
  have hnew := hform.respell h.suited hslice hkept (Agree.refl [])
  rw [← htokens] at hnew
  refine (Read.read_of_membersForm ?_ hnew file).trans rfl
  intro t ht
  rw [htokens] at ht
  obtain ⟨u, hu, rfl⟩ := List.mem_map.1 ht
  exact herror u hu

end SyntaxTree

end SelfTypeLint
