import SelfTypeLint.Proofs.Grammar.Blocks
import SelfTypeLint.Proofs.Reader.Spans

/-!
# Blocks of a text

In a text without faults whose brackets are well nested, every type and every namespace with a block ends
with the curly bracket that closes the block, and holds what stands in the block.
-/

namespace SelfTypeLint

open Token Grammar

/-- The tokens in a span, without the one that marks the end of a text. -/
def Token.within (s : Span) (ts : List Token) : List Token :=
  ts.filter fun t => t.kind ≠ .eof && s.contains t.span

theorem Token.within_read {source : String} {xs us ys : List Token} (hne : us ≠ [])
    (h : (Cursor.ofSource source).ahead = xs ++ (us ++ ys)) :
    within (spanOf us) (Token.read source) = us := by
  have hplaced := placed_ofSource source
  have hkind : ∀ t ∈ (Cursor.ofSource source).ahead,
      (t.kind ≠ .eof && (spanOf us).contains t.span) = (spanOf us).contains t.span := by
    intro t ht
    simp [kind_ne_eof_of_mem_ofSource ht]
  rw [within, Token.read, readFrom_eq, ← ahead_ofSource, List.filter_append,
    List.filter_congr hkind, h, filter_contains_spanOf (h ▸ hplaced) hne]
  simp

theorem Token.WellNested.ahead {source : String} (h : WellNested (Token.read source)) :
    WellNested (Cursor.ofSource source).ahead := by
  rw [WellNested, Token.read, readFrom_eq, ← ahead_ofSource, awaiting_append] at h
  obtain ⟨stack, hstack, h⟩ := Option.bind_eq_some_iff.1 h
  rw [WellNested, hstack]
  exact h

/-- Holds of a member of a text whose tokens are a stretch of it, nest their curly brackets well and end
with the block of the member, or with a semicolon in its place. Of all members just those in the member
stand between the brackets of the block. -/
structure Enclosed (source : String) (all : List Member) (m : Member) : Prop where
  nested : WellNested ((within m.span (Token.read source)).filter isBrace)
  span : m.span = spanOf (within m.span (Token.read source))
  ends : ∃ before rest, (Cursor.ofSource source).ahead =
      before ++ (within m.span (Token.read source) ++ rest) ∧
    ((∃ fs s, within m.span (Token.read source) = fs ++ [s] ∧ EndsInSemi fs s rest m) ∨
      ∃ fs o bs c ss, within m.span (Token.read source) = fs ++ o :: (bs ++ c :: ss) ∧
        EndsInBlock fs o bs c ss rest m ∧
        ∀ a ∈ all, a ∈ m.inner.flatMap Member.withInner ↔
          o.span.stop ≤ a.span.start ∧ a.span.stop ≤ c.span.start)

namespace SyntaxTree

section

variable {file : FileId} {source : String} (hclean : (read file source).errors = [])
  (hnested : WellNested (Token.read source))

include hclean hnested

/-- Every member of the tree stands at tokens that balance their curly brackets. -/
theorem memberIn_read {m : Member} (hm : m ∈ (read file source).tree.allMembers) :
    MemberIn (·.text source) (Cursor.ofSource source).ahead [] m := by
  obtain ⟨is, hform⟩ := membersForm_read hclean
  have hnested := hnested.ahead
  have hc : Completes ((Cursor.ofSource source).ahead ++ []) := by
    rw [List.append_nil]
    exact hnested.completes
  have hb : Balanced (Cursor.ofSource source).ahead := ⟨hform.shut hc, hnested.braceDepth_eq⟩
  obtain ⟨n, hn, hmn⟩ := List.mem_flatMap.1 hm
  exact (hform.memberIn hc hb hn).of_mem_withInner hc hmn

/-- Just what a member holds stands between the brackets of its block. -/
theorem mem_inner_iff_between {xs fs bs ss ys : List Token} {o c : Token} {m a : Member}
    (hm : m ∈ (read file source).tree.allMembers) (ha : a ∈ (read file source).tree.allMembers)
    (hsplit : (Cursor.ofSource source).ahead = xs ++ (fs ++ o :: (bs ++ c :: ss) ++ ys))
    (hspan : m.span = spanOf (fs ++ o :: (bs ++ c :: ss)))
    (hmembers : ∀ n ∈ m.inner, MemberIn (·.text source) bs (c :: (ss ++ ys)) n) :
    a ∈ m.inner.flatMap Member.withInner ↔
      o.span.stop ≤ a.span.start ∧ a.span.stop ≤ c.span.start := by
  have hplaced := placed_ofSource source
  rw [hsplit] at hplaced
  have hall : Placed 0 (fs ++ o :: (bs ++ c :: ss)) := hplaced.append_right.append_left
  constructor
  · intro hinner
    obtain ⟨n, hn, han⟩ := List.mem_flatMap.1 hinner
    have hc := hnested.ahead.completes
    rw [hsplit] at hc
    simp only [List.append_assoc, List.cons_append] at hc
    have hspanIn := ((hmembers n hn).of_mem_withInner hc.of_append.of_append.of_cons han).spanIn
    have hlater : SpanIn (bs ++ c :: ss) a.span := hspanIn.mono ⟨[], c :: ss, rfl⟩
    have hblock : Placed 0 ([o] ++ (bs ++ c :: ss)) := hall.append_right
    exact ⟨SpanIn.stop_le hblock (spanIn_of_mem List.mem_cons_self) hlater,
      SpanIn.stop_le hblock.append_right hspanIn (spanIn_of_mem List.mem_cons_self)⟩
  · rintro ⟨hstart, hstop⟩
    have hsome := ((memberIn_read hclean hnested ha).spanIn.within (placed_ofSource source)).2.1
    have hopener : o ∈ fs ++ o :: (bs ++ c :: ss) := by simp
    have hcloser : c ∈ fs ++ o :: (bs ++ c :: ss) := by simp
    obtain ⟨-, ho, hfirst⟩ := (spanIn_of_mem hopener).within hall
    obtain ⟨-, hc, hlast⟩ := (spanIn_of_mem hcloser).within hall
    rw [← hspan, Span.contains_iff] at hfirst hlast
    refine mem_inner_of_contains (inRow_read file source)
      (fun s hs => start_lt_stop_read file source hs) ha hm hsome ?_ ?_
    · rw [Span.contains_iff]
      omega
    · rw [Span.contains_iff]
      omega

theorem enclosed_read {m : Member} (hm : m ∈ (read file source).tree.allMembers)
    (hspace : ∀ n, m = .space n → n.fileScoped = false) :
    Enclosed source (read file source).tree.allMembers m := by
  obtain ⟨xs, as, us, ys, hsplit, hform, hshut, hb⟩ := memberIn_read hclean hnested hm
  rw [← List.append_assoc as] at hsplit
  rw [List.append_nil] at hform
  have hc := hnested.ahead.completes
  rw [hsplit, List.append_assoc] at hc
  have hwithin : within m.span (Token.read source) = as ++ us := by
    rw [hform.span_eq]
    exact within_read (by simp [hform.ne_nil]) hsplit
  have hspan := hform.span_eq
  refine ⟨hwithin ▸ wellNested_braces_iff.2 hb, by rw [hwithin, hspan], xs, ys, ?_⟩
  rw [hwithin]
  refine ⟨hsplit, (hform.ends hc.of_append.of_append hshut hb hspace).imp_right ?_⟩
  rintro ⟨fs, o, bs, c, ss, htokens, hblock, hmembers⟩
  refine ⟨fs, o, bs, c, ss, htokens, hblock, fun a ha => ?_⟩
  rw [htokens] at hsplit hspan
  exact mem_inner_iff_between hclean hnested hm ha hsplit hspan hmembers

/-- In a text without faults whose brackets are well nested, the curly brackets in the span of each type
declaration and of each namespace with a block are well nested. A declaration with a body ends with the
bracket that closes the one of the body, and at most a semicolon, and holds just the members of the tree
between the two. -/
theorem read_blocks_closed :
    (∀ d ∈ (read file source).tree.typeDecls,
      Enclosed source (read file source).tree.allMembers (.type d)) ∧
    ∀ n : NamespaceDecl, .space n ∈ (read file source).tree.allMembers → n.fileScoped = false →
      Enclosed source (read file source).tree.allMembers (.space n) := by
  refine ⟨fun d hd => ?_, fun n hn hfile => ?_⟩
  · exact enclosed_read hclean hnested (type_mem_allMembers hd) (by simp)
  · refine enclosed_read hclean hnested hn fun n' hn' => ?_
    obtain rfl := Member.space.inj hn'
    exact hfile

end

/-- A value after the braces of a property, and a nested type after it, leave all blocks as they are. -/
theorem read_blocks_closed_property :
    let source := "namespace N \x7b class A \x7b int P \x7b get; \x7d = 1; class B; \x7d \x7d"
    (read 0 source).errors = [] ∧ WellNested (Token.read source) ∧
      (∃ d ∈ (read 0 source).tree.typeDecls, d.name = "A" ∧
        Enclosed source (read 0 source).tree.allMembers (.type d)) ∧
      ∃ n, .space n ∈ (read 0 source).tree.allMembers ∧ n.name = "N" ∧ n.fileScoped = false ∧
        Enclosed source (read 0 source).tree.allMembers (.space n) := by
  intro source
  let space? : Member → Option NamespaceDecl := fun m => m.casesOn some fun _ => none
  obtain ⟨hclean, hnested, htypes, hspaces⟩ : (read 0 source).errors = [] ∧
      WellNested (Token.read source) ∧
      (read 0 source).tree.typeDecls.map (·.name) = ["A", "B"] ∧
      ((read 0 source).tree.members.filterMap space?).map (fun n => (n.name, n.fileScoped)) =
        [("N", false)] := by decide +kernel
  obtain ⟨htypesClosed, hspacesClosed⟩ := read_blocks_closed hclean hnested
  obtain ⟨d, hd, hdname⟩ : ∃ d ∈ (read 0 source).tree.typeDecls, d.name = "A" :=
    List.mem_map.1 (htypes ▸ List.mem_cons_self)
  obtain ⟨n, hn, hname⟩ := List.mem_map.1 (hspaces ▸ List.mem_singleton_self ("N", false))
  obtain ⟨hname, hfile⟩ := Prod.mk.inj hname
  have hall : .space n ∈ (read 0 source).tree.allMembers := by
    obtain ⟨m, hm, hmn⟩ := List.mem_filterMap.1 hn
    cases m with
    | type e => exact absurd hmn (by simp [space?])
    | space s =>
      obtain rfl := Option.some.inj hmn
      exact List.mem_flatMap.2 ⟨_, hm, Member.mem_withInner_self _⟩
  exact ⟨hclean, hnested, ⟨d, hd, hdname, htypesClosed d hd⟩,
    n, hall, hname, hfile, hspacesClosed n hall hfile⟩

end SyntaxTree

end SelfTypeLint
