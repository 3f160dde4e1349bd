import SelfTypeLint.Proofs.Fix.Header
import SelfTypeLint.Proofs.Text.Dotted
import SelfTypeLint.Proofs.Token.Between

/-!
# A directive behind the header

A using directive that is put behind the header of a text is read as the tokens of a directive. The main
statement, `read_insert_usingLine`, says that the header ends in front of the first token and outside
comments, so that the tokens of the text follow those of the directive, as they were.
-/

namespace SelfTypeLint.Fix

open Text Token

/-- The line that brings in a namespace. -/
def usingLine (space : String) : String := "using " ++ space ++ ";\n"

/-- The tokens of a dotted name that has such parts. -/
def dottedTokens (offset : Nat) : List String → List Token
  | [] => []
  | [p] => [identAt offset p]
  | p :: q :: ps =>
    let stop := offset + byteSize p.toList
    identAt offset p :: ⟨.dot, ⟨stop, stop + 1⟩, "."⟩ :: dottedTokens (stop + 1) (q :: ps)

/-- The tokens of the line that brings in a namespace. -/
def usingTokens (offset : Nat) (space : String) : List Token :=
  let stop := offset + 6 + byteSize space.toList
  ⟨.kwUsing, ⟨offset, offset + 5⟩, "using"⟩ :: dottedTokens (offset + 6) (Dotted.parts space) ++
    [⟨.semi, ⟨stop, stop + 1⟩, ";"⟩]

/-- The word that opens the line is a token where a blank follows. -/
theorem readFrom_usingWord (rest : List Char) (offset : Nat) :
    readFrom offset ("using ".toList ++ rest) =
      ⟨.kwUsing, ⟨offset, offset + 5⟩, "using"⟩ :: readFrom (offset + 6) rest := by
  have hparts : ∀ x ∈ "sing".toList, isWordPart x = true := List.all_eq_true.1 (by decide)
  have hmunch : munch 'u' ("sing".toList ++ ' ' :: rest) = ⟨some .kwUsing, 4⟩ := by
    rw [munch_word (by decide) (by decide), word_append (run_append_eq_iff.2 ⟨hparts, rfl⟩)]
    rfl
  have hword := readFrom_token hmunch offset
  rwa [readFrom_blank (show isLayout ' ' = true from rfl)] at hword

/-- A dotted name is read as its parts and the dots between them, where no word goes on after it. -/
theorem readFrom_dotted {cs rest : List Char} (hrest : run isWordPart rest = 0)
    (h : ∀ p ∈ Dotted.pieces '.' cs, ∃ ts,
      read (String.ofList p) = identAt 0 (String.ofList p) :: ts) (offset : Nat) :
    readFrom offset (cs ++ rest) =
      dottedTokens offset ((Dotted.pieces '.' cs).map String.ofList) ++
        readFrom (offset + byteSize cs) rest := by
  generalize hpieces : Dotted.pieces '.' cs = ps at h
  induction ps generalizing cs offset with
  | nil => exact absurd hpieces (Dotted.pieces_ne_nil '.' cs)
  | cons p ps ih =>
    obtain ⟨⟨ts, hread⟩, hothers⟩ := List.forall_mem_cons.1 h
    have hident : ∀ more, run isWordPart more = 0 → readFrom offset (p ++ more) =
        identAt offset (String.ofList p) :: readFrom (offset + byteSize p) more := by
      intro more hmore
      have := readFrom_ident hread offset hmore
      rwa [String.toList_ofList] at this
    rcases Dotted.eq_of_pieces_eq_cons hpieces with ⟨rfl, rfl⟩ | ⟨more, rfl, hmore⟩
    · exact hident rest hrest
    · obtain ⟨q, qs, rfl⟩ := List.exists_cons_of_ne_nil (hmore ▸ Dotted.pieces_ne_nil '.' more)
      have hsize : offset + byteSize (p ++ '.' :: more) = offset + byteSize p + 1 + byteSize more := by
        rw [byteSize_append, byteSize_cons, show '.'.utf8Size = 1 from rfl]
        omega
      have htokens : dottedTokens offset ((p :: q :: qs).map String.ofList) =
          identAt offset (String.ofList p) ::
            ⟨.dot, ⟨offset + byteSize p, offset + byteSize p + 1⟩, "."⟩ ::
              dottedTokens (offset + byteSize p + 1) ((q :: qs).map String.ofList) := by
        rw [List.map_cons, List.map_cons, dottedTokens, String.toList_ofList]
      rw [List.append_assoc, hident _ rfl, List.cons_append, readFrom_mark (k := .dot) (by decide),
        ih _ hmore hothers, htokens, hsize]
      rfl

/-- The directive that brings in a namespace is read as its tokens in front of any text. -/
theorem readFrom_using {space : String}
    (h : ∀ p ∈ Dotted.parts space, ∃ ts, read p = identAt 0 p :: ts) (offset : Nat) (rest : List Char) :
    readFrom offset (("using " ++ space ++ ";").toList ++ rest) = usingTokens offset space ++
      readFrom (offset + byteSize ("using " ++ space ++ ";").toList) rest := by
  have htext : ("using " ++ space ++ ";").toList ++ rest =
      "using ".toList ++ (space.toList ++ ';' :: rest) := by simp
  have hparts : ∀ p ∈ Dotted.pieces '.' space.toList, ∃ ts,
      read (String.ofList p) = identAt 0 (String.ofList p) :: ts :=
    fun p hp => h _ (List.mem_map_of_mem hp)
  have hsize : offset + byteSize ("using " ++ space ++ ";").toList =
      offset + 6 + byteSize space.toList + 1 := by
    have hends : byteSize "using ".toList = 6 ∧ byteSize ";".toList = 1 := by decide
    rw [String.toList_append, String.toList_append, byteSize_append, byteSize_append, hends.1, hends.2]
    omega
  rw [htext, readFrom_usingWord, readFrom_dotted rfl hparts, readFrom_mark (k := .semi) (by decide),
    hsize, usingTokens, List.cons_append, List.cons_append, List.append_assoc]
  rfl

/-- The line that brings in a namespace is read as its tokens in front of any text. -/
theorem readFrom_usingLine {space : String}
    (h : ∀ p ∈ Dotted.parts space, ∃ ts, read p = identAt 0 p :: ts) (offset : Nat) (rest : List Char) :
    readFrom offset ((usingLine space).toList ++ rest) =
      usingTokens offset space ++ readFrom (offset + byteSize (usingLine space).toList) rest := by
  have htext : (usingLine space).toList = ("using " ++ space ++ ";").toList ++ ['\n'] := by
    simp [usingLine]
  rw [htext, List.append_assoc, readFrom_using h, List.singleton_append, readFrom_blank rfl,
    byteSize_append, Nat.add_assoc]
  rfl

/-- The header of a text ends between two characters, in front of the first token and outside comments. A
using directive that is put there is read as its tokens, and the tokens of the text follow them as they
were. -/
theorem read_insert_usingLine (source : String) :
    headerByOffsets source.toList (headerStart source.toList) = some (headerEnd source.toList) ∧
    ∃ front back, source.toList = front ++ back ∧ byteSize front = headerEnd source.toList ∧
      read (String.ofList front) = [⟨.eof, .point (headerEnd source.toList), ""⟩] ∧
      TriviaRun front back ∧ (∀ t ∈ read source, headerEnd source.toList ≤ t.span.start) ∧
      ∀ space, (∀ p ∈ Dotted.parts space,
          read p = [identAt 0 p, ⟨.eof, .point (byteSize p.toList), ""⟩]) →
        (∃ t ∈ read source, t.kind ≠ .eof) →
          (TextEdit.insertAt (headerEnd source.toList) (usingLine space)).applyTo? source.toList =
            some (front ++ (usingLine space).toList ++ back) ∧
          read (String.ofList (front ++ (usingLine space).toList ++ back)) =
            usingTokens (headerEnd source.toList) space ++
              (read source).map (Token.shift (byteSize (usingLine space).toList)) := by
  obtain ⟨hloop, front, back, hsource, hsize, hheads⟩ := headerEnd_correct source.toList
  rw [← hsize] at hloop ⊢
  have hread : read source = readFrom (byteSize front) back := by
    rw [Token.read, hsource, hheads.run.readFrom, Nat.zero_add]
  refine ⟨hloop, front, back, hsource, rfl, ?_, hheads.run, fun t ht => ?_,
    fun space hparts htoken => ⟨?_, ?_⟩⟩
  · have hfront := hheads.alone.readFrom 0
    rw [List.append_nil, Nat.zero_add, Token.readFrom] at hfront
    rwa [Token.read, String.toList_ofList]
  · exact le_start_of_mem_readFrom (hread ▸ ht)
  · have hinsert := TextEdit.applyTo?_append (.insertAt (byteSize front) (usingLine space)) front [] back
      rfl rfl
    rwa [List.append_nil, ← hsource] at hinsert
  · -- The token stands behind the header, so the header does not end in a comment without its line end.
    have hback : back ≠ [] := by
      rintro rfl
      obtain ⟨t, ht, hkind⟩ := htoken
      rw [hread, Token.readFrom, List.mem_singleton] at ht
      exact hkind (ht ▸ rfl)
    have hrun := hheads.before hback ((usingLine space).toList ++ back)
    rw [Token.read, String.toList_ofList, List.append_assoc, hrun.readFrom, Nat.zero_add,
      readFrom_usingLine fun p hp => ⟨_, hparts p hp⟩, hread, Nat.add_comm, readFrom_add]

/-- A directive between a comment and a declaration. -/
theorem read_insert_usingLine_afterComment :
    (∀ p ∈ Dotted.parts "N.M", read p = [identAt 0 p, ⟨.eof, .point (byteSize p.toList), ""⟩]) ∧
      (∃ t ∈ read "// h\nclass A", t.kind ≠ .eof) ∧
      ∃ front back, "// h\nclass A".toList = front ++ back ∧ byteSize front = 5 ∧
        read (String.ofList (front ++ (usingLine "N.M").toList ++ back)) =
          usingTokens 5 "N.M" ++ (read "// h\nclass A").map (Token.shift 11) := by
  have hparts : ∀ p ∈ Dotted.parts "N.M",
      read p = [identAt 0 p, ⟨.eof, .point (byteSize p.toList), ""⟩] := by decide +kernel
  have htoken : ∃ t ∈ read "// h\nclass A", t.kind ≠ .eof := by decide +kernel
  have hend : headerEnd "// h\nclass A".toList = 5 := by decide +kernel
  have hline : byteSize (usingLine "N.M").toList = 11 := by decide +kernel
  obtain ⟨-, front, back, hsource, hsize, -, -, -, hinsert⟩ := read_insert_usingLine "// h\nclass A"
  have hread := (hinsert "N.M" hparts htoken).2
  rw [hend, hline] at hread
  exact ⟨hparts, htoken, front, back, hsource, hsize.trans hend, hread⟩

end SelfTypeLint.Fix
