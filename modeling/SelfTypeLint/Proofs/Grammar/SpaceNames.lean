import SelfTypeLint.Proofs.Reader.FilesSound
import SelfTypeLint.Proofs.Text.Dotted
import SelfTypeLint.Proofs.Token.Exchange
import SelfTypeLint.Proofs.Tree.Enclosing

/-!
# Names of namespaces

The name of every namespace of a tree begins with a word, in a text with faults too. So no name is
empty or begins with a dot.
-/

namespace SelfTypeLint

open Token Dotted

namespace Token

/-- Every tile is the piece at its place. -/
theorem exists_munch_of_mem_tiles {cs : List Char} {u : Tile} (hu : u ∈ tiles cs) :
    ∃ c rest, u.kind = (munch c rest).kind ∧ u.text = c :: rest.take (munch c rest).more := by
  induction cs using tiles.induct with
  | case1 => exact absurd hu (by simp [tiles_nil])
  | case2 c cs piece ih =>
    rw [tiles_cons] at hu
    rcases List.mem_cons.1 hu with rfl | hu
    · exact ⟨c, cs, rfl, rfl⟩
    · exact ih hu

theorem led_of_isWordStart {c : Char} (h : isWordStart c = true) (cs : List Char) :
    Led (String.ofList (c :: cs)) :=
  ⟨c, cs, String.toList_ofList, by rintro rfl; exact absurd h (by decide)⟩

/-- The name of an identifier begins with a word. -/
theorem led_identName {source : String} {t : Token} (ht : t ∈ (Cursor.ofSource source).ahead)
    (hk : t.kind = .ident) : Led (identName t.text) := by
  rw [ahead_ofSource] at ht
  obtain ⟨before, u, after, hts, hkind, htext, -⟩ := exists_of_mem_tokensAt ht
  obtain ⟨c, rest, hu, hchars⟩ := exists_munch_of_mem_tiles (u := u) (by rw [hts]; simp)
  rw [hk, hu] at hkind
  rw [htext, hchars, identName, String.toList_ofList]
  rcases start_of_munch_ident hkind with hstart | rfl
  · split
    · next heq =>
      obtain ⟨rfl, -⟩ := List.cons.inj heq
      exact absurd hstart (by decide)
    · exact led_of_isWordStart hstart _
  · have hat : atSign rest = ⟨some .ident, (munch '@' rest).more⟩ := by rw [← hkind]; rfl
    obtain ⟨d, ds, rfl, hstart, hmore⟩ := atSign_ident hat
    rw [hmore, Nat.add_comm, List.take_succ_cons]
    exact led_of_isWordStart hstart _

/-- The name of an identifier is a plain word, if it is no keyword. -/
theorem isPlainWord_identName {source : String} {t : Token} (ht : t ∈ (Cursor.ofSource source).ahead)
    (hk : t.kind = .ident) (hfree : TokenKind.ofWord? (identName t.text) = none) :
    IsPlainWord (identName t.text) := by
  refine ⟨?_, hfree⟩
  have hrun : ∀ cs : List Char, ∀ x ∈ cs.take (run isWordPart cs), isWordPart x = true := by
    intro cs x hx
    rw [run, ← List.prefix_iff_eq_take.1 (List.takeWhile_prefix _)] at hx
    exact List.all_eq_true.1 List.all_takeWhile x hx
  rw [ahead_ofSource] at ht
  obtain ⟨before, u, after, hts, hkind, htext, -⟩ := exists_of_mem_tokensAt ht
  obtain ⟨c, rest, hu, hchars⟩ := exists_munch_of_mem_tiles (u := u) (by rw [hts]; simp)
  rw [hk, hu] at hkind
  rw [htext, hchars, identName, String.toList_ofList]
  rcases start_of_munch_ident hkind with hstart | rfl
  · split
    · next heq =>
      obtain ⟨rfl, -⟩ := List.cons.inj heq
      exact absurd hstart (by decide)
    · rw [munch_word hstart (not_isLayout_of_opens (.inl hstart)), more_word]
      exact ⟨c, _, String.toList_ofList, hstart, hrun rest⟩
  · have hat : atSign rest = ⟨some .ident, (munch '@' rest).more⟩ := by rw [← hkind]; rfl
    obtain ⟨d, ds, rfl, hstart, hmore⟩ := atSign_ident hat
    rw [hmore, Nat.add_comm, List.take_succ_cons]
    exact ⟨d, _, String.toList_ofList, hstart, hrun ds⟩

end Token

namespace Grammar

theorem DottedForm.led {name name' : String} {span span' : Span} {ts rest : List Token}
    (h : DottedForm name span ts rest name' span') (hname : Led name) : Led name' := by
  induction h with
  | done => exact hname
  | more _ _ _ ih =>
    refine ih ?_
    rw [String.append_assoc]
    exact hname.append _

/-- Holds of tokens whose identifiers begin with words. -/
def WordsLead (ts : List Token) : Prop := ∀ t ∈ ts, t.kind = .ident → Led (identName t.text)

theorem WordsLead.mono {ts us : List Token} (h : WordsLead us) (hs : ts ⊆ us) : WordsLead ts :=
  fun t ht => h t (hs ht)

mutual

/-- The namespaces around a declaration of some members have names that begin with words. -/
theorem LooseMembers.led {slice : Span → String} {ts : List Token} {us : List UsingDirective}
    {ms : List Member} {d : TypeDecl} {ns : List NamespaceDecl} (hts : WordsLead ts)
    (hd : Within d ms ns) :
    LooseMembers slice ts us ms → ∀ n ∈ ns, Led n.name
  | .nil ts => by
    obtain ⟨m, hm, -⟩ := hd.exists_member
    exact absurd hm List.not_mem_nil
  | .skip ts tail => tail.led (hts.mono (List.subset_append_right _ _)) hd
  | .using _ tail => tail.led (hts.mono (List.subset_append_right _ _)) hd
  | .type _ tail => by
    rcases hd.cons_cases with rfl | ⟨n, ns', hn, -⟩ | hd
    · simp
    · exact absurd hn (by simp)
    · exact tail.led (hts.mono (List.subset_append_right _ _)) hd
  | .space space tail => by
    rcases hd.cons_cases with rfl | ⟨n, ns', hn, rfl, hin⟩ | hd
    · simp
    · obtain rfl := Member.space.inj hn
      exact space.led (hts.mono (by simp)) hin
    · exact tail.led (hts.mono (by simp)) hd

theorem LooseSpace.led {slice : Span → String} {start : Nat} {ts : List Token} {n : NamespaceDecl}
    {d : TypeDecl} {ns : List NamespaceDecl} (hts : WordsLead ts) (hd : Within d n.members ns) :
    LooseSpace slice start ts n → ∀ m ∈ n :: ns, Led m.name
  | .mk k o fileScoped first dotted members => by
    intro m hm
    rcases List.mem_cons.1 hm with rfl | hm
    · exact dotted.led (hts _ (by simp) first)
    · exact members.led (hts.mono fun t ht => by simp [ht]) hd m hm

end

end Grammar

/-- The namespaces around a declaration of a text have names that begin with words. -/
theorem SyntaxTree.led_of_within {file : FileId} {source : String} {d : TypeDecl}
    {ns : List NamespaceDecl} (h : Within d (read file source).tree.members ns) :
    ∀ n ∈ ns, Led n.name :=
  (looseMembers_read file source).led (fun _ => led_identName) h

end SelfTypeLint
