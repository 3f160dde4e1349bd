import SelfTypeLint.Proofs.Grammar.FileHoles
import SelfTypeLint.Proofs.Tree.Enclosing

/-!
# Fillings

The holes of a file that are filled: the head of one declaration (`headFilling`), and the semicolon of one
using directive, behind which another directive can be put (`directiveFilling`).
-/

namespace SelfTypeLint

open Token Grammar Respelling

/-- Holds of directives that say the same, up to one that is added behind each of a certain kind. -/
inductive AddsBehind (last added : UsingDirective) : List UsingDirective → List UsingDirective → Prop
  | nil : AddsBehind last added [] []
  | other {u u' : UsingDirective} {us us' : List UsingDirective} (ne : u ≠ last) (same : u.SaysSame u')
      (tail : AddsBehind last added us us') : AddsBehind last added (u :: us) (u' :: us')
  | last {u' : UsingDirective} {us us' : List UsingDirective} (same : last.SaysSame u')
      (tail : AddsBehind last added us us') : AddsBehind last added (last :: us) (u' :: added :: us')

namespace Grammar

variable {slice : Span → String}

/-! ## Heads -/

/-- A declaration among some members is one of them, is nested in one or lies in a namespace of them. -/
theorem lies_of_mem_typeDecls {target : TypeDecl} {inUsing : UsingDirective → Prop} {x : Member}
    {us : List UsingDirective} {ms : List Member} (hx : x ∈ ms) (h : target ∈ x.typeDecls) :
    Lies (target ∈ ·.withNested) inUsing us ms := by
  match x with
  | .type d =>
    rw [Member.typeDecls_type] at h
    exact .type hx h
  | .space n =>
    rw [Member.typeDecls_space] at h
    obtain ⟨y, hy, h⟩ := List.mem_flatMap.1 h
    have hlt : sizeOf y < 1 + sizeOf n :=
      Nat.lt_trans (List.sizeOf_lt_of_mem hy) (Nat.lt_add_left 1 n.sizeOf_members_lt)
    exact .space hx (lies_of_mem_typeDecls hy h)
  termination_by sizeOf x
  decreasing_by simpa using hlt

/-- The head of a declaration can be exchanged in its file. -/
theorem headFilling (slice : Span → String) (target : TypeDecl) :
    Filling (headHole target) slice target.nameSpan.stop (target ∈ ·.withNested) (fun _ => False)
      (fun m h => TypeDecl.Patched m target h) fun _ _ => SameUsings where
  key_decl := by
    rintro ts d hd ⟨as, us, rest, attributes, modifiers, hsub, hform⟩
    have hmem := (hform.spelled hd rfl).name_mem
    exact (hsub.sublist.map _).subset hmem
  key_directive h := h.elim
  moved_decl hm hd := SelfTypeLint.parallel_moved hm hd
  moved_usings _ _ := sameUsings_map _ _
  cons_usings _ hu hus := .cons hu hus
  decl hts hd hform := hform.head hts hd
  directive h := h.elim

/-! ## Directives -/

/-- The semicolon of a directive as a hole. -/
def directiveHole (last : UsingDirective) : Hole UsingDirective where
  old hs _ := ∃ s, hs = [s] ∧ s.kind = .semi ∧ s.span.stop = last.span.stop
  new _ hs hs' rest added := ∃ s s' ns, hs = [s] ∧ hs' = s' :: ns ∧ s.kind = .semi ∧ s'.kind = .semi ∧
    s'.text = s.text ∧ ∀ slice, UsingForm slice ns rest added
  agree := by
    rintro m hs hs' rest rest' added - ⟨s, s', ns, rfl, rfl, hs, hs', htext, -⟩
    refine ⟨⟨by simp, hs'.trans hs.symm, by simp [starAt, hs, hs'], fun w _ => by simp [wordAt, hs, hs'],
      .inl (by simp [hs])⟩, by simp [htext]⟩

/-- Another directive can be put behind one. -/
theorem UsingForm.hole {ts rest : List Token} {u : UsingDirective} (h : UsingForm slice ts rest u) :
    (directiveHole u).In slice ts rest fun slice' _ added ts' rest' => ∃ vs ws u', ts' = vs ++ ws ∧
      UsingForm slice' vs (ws ++ rest') u' ∧ UsingForm slice' ws rest' added ∧ u.SaysSame u' := by
  cases h with
  | @mk gs ks ts rest w s isGlobal kind newName e global word kindForm target semi =>
    have hassoc : gs ++ w :: (ks ++ (ts ++ [s])) = gs ++ w :: (ks ++ ts) ++ [s] := by simp
    have hstop : s.span.stop = (spanOf (gs ++ w :: (ks ++ (ts ++ [s])))).stop := by
      rw [hassoc, spanOf, stopOf_concat]
    refine ⟨gs ++ w :: (ks ++ ts), [s], [], by simp, ⟨s, rfl, semi, hstop⟩, ?_⟩
    rintro slice' m hs' rest' added hm hxs - - ⟨s₀, s', ns, hs, rfl, -, hs', htext, hadded⟩
    obtain rfl := List.singleton_inj.1 hs
    have hend : ∀ rest rest', Agree (s :: rest) (s' :: rest') :=
      agree_of_end s s' (by simp [semi]) (hs'.trans semi.symm) htext
    have hslice : slice' (m.typeExpr e).span = slice e.span := by
      obtain ⟨us, vs, rfl, hus, he, -⟩ := target.covers
      rw [span_typeExpr, he]
      exact hxs us ⟨gs ++ w :: ks, vs, by simp⟩ hus (hm.kept us)
    have hform : UsingForm slice' (gs.map m.token ++ m.token w :: (ks.map m.token ++ (ts.map m.token ++ [s'])))
        (ns ++ rest') _ := .mk (global.respell fun t _ => hm.suits t) (w := m.token w) word
      (kindForm.respell (hm.kept ks) ((hend rest (ns ++ rest')).moves hm ts))
      (target.respell (fun t _ => hm.suits t) (hend rest (ns ++ rest'))) hs'
    rw [target.dottedName?_eq (hm.kept ts), hslice, span_typeExpr] at hform
    refine ⟨_, ns, _, ?_, hform, by simpa using hadded slice', ⟨rfl, rfl⟩⟩
    simp

theorem addsBehind_map {last added : UsingDirective} {m : Respelling} {us : List UsingDirective}
    (h : ∀ u ∈ us, u ≠ last) : AddsBehind last added us (us.map m.usingDirective) := by
  induction us with
  | nil => exact .nil
  | cons u us ih =>
    obtain ⟨hu, hus⟩ := List.forall_mem_cons.1 h
    exact .other hu ⟨rfl, rfl⟩ (ih hus)

/-- Another directive can be put behind one in its file. -/
theorem directiveFilling (slice : Span → String) (last : UsingDirective) :
    Filling (directiveHole last) slice last.span.stop (fun _ => False) (· = last)
      (fun m _ d d' => d'.header = m.header d.header) fun _ added => AddsBehind last added where
  key_decl h := h.elim
  key_directive := by
    rintro ts rest _ rfl hform
    cases hform with
    | @mk gs ks ts rest w s _ _ _ _ _ _ _ _ _ =>
      have hassoc : gs ++ w :: (ks ++ (ts ++ [s])) = gs ++ w :: (ks ++ ts) ++ [s] := by simp
      rw [spanOf, hassoc, stopOf_concat]
      simp
  moved_decl hm _ := Respelling.parallel_typeDecl _ fun e _ => ⟨Respelling.header_typeDecl _ e, hm.word _⟩
  moved_usings _ h := addsBehind_map h
  cons_usings hu hsame hus := .other hu hsame hus
  decl _ h := h.elim
  directive := by
    rintro ts rest _ rfl hform
    obtain ⟨xs, hs, ys, hts, hold, hnew⟩ := hform.hole
    refine ⟨xs, hs, ys, hts, hold, fun slice' m hs' rest' added hm hxs hys hrest hfill => ?_⟩
    obtain ⟨vs, ws, u', hts', hu, hadded, hsame⟩ := hnew slice' m hs' rest' added hm hxs hys hrest hfill
    exact ⟨vs, ws, u', added, hts', hu, hadded, fun us hus => .last hsame (addsBehind_map hus)⟩

/-- A directive of a namespace around a declaration lies among the members of the file. -/
theorem lies_of_within {inDecl : TypeDecl → Prop} {inUsing : UsingDirective → Prop} {d : TypeDecl}
    {us : List UsingDirective} {ms : List Member} {ns : List NamespaceDecl} (h : Within d ms ns)
    {n : NamespaceDecl} (hn : n ∈ ns) {u : UsingDirective} (hu : u ∈ n.usings) (hin : inUsing u) :
    Lies inDecl inUsing us ms := by
  induction h generalizing us with
  | type _ _ => exact absurd hn List.not_mem_nil
  | space hmem _ ih =>
    rcases List.mem_cons.1 hn with rfl | hn
    · exact .space hmem (.directive hu hin)
    · exact .space hmem (ih hn)

end Grammar

end SelfTypeLint
