import SelfTypeLint.Proofs.Grammar.RespellFiles
import SelfTypeLint.Proofs.Token.Exchange

/-!
# Moving

A respelling that gives no word only moves. Tokens that are moved spell the moved form of what they
spelled before. Where a text takes the place of a piece of another one, the tokens in front of it stay
and those behind it move by what the text is longer.
-/

namespace SelfTypeLint

namespace Respelling

/-- New places for tokens that keep their words. -/
def move (place : Nat → Nat) : Respelling where
  place := place
  word _ := none
  target _ old := old

/-- New places where what ends at one offset is exchanged for what ends at another. -/
def behind (old new : Nat) : Respelling := move fun p => if p < old then p else p - old + new

/-- Holds of a respelling that only moves. -/
structure Moves (m : Respelling) : Prop where
  word : ∀ s, m.word s = none
  target : ∀ n old, m.target n old = old

theorem moves_behind (old new : Nat) : (behind old new).Moves := ⟨fun _ => rfl, fun _ _ => rfl⟩

namespace Moves

variable {m : Respelling} (h : m.Moves)

include h

theorem text_eq (s : Span) (old : String) : m.text s old = old := by rw [text, h.word, Option.getD_none]

theorem token_eq (t : Token) : m.token t = ⟨t.kind, m.span t.span, t.text⟩ := by
  rw [token, h.text_eq]

theorem suits (t : Token) : m.Suits t := fun w hw => absurd hw (by simp [h.word])

theorem suited (ts : List Token) : Grammar.Suited m ts :=
  ⟨fun t _ => h.suits t, fun _ _ _ _ _ => by rw [h.target, h.text_eq]⟩

theorem kept (ts : List Token) : Grammar.Kept m ts := fun t _ => h.word t.span

theorem identsKept (is : List Ident) : Grammar.IdentsKept m is := fun i _ => h.word i.span

end Moves

end Respelling

namespace Grammar

open Token Text Respelling

variable {m : Respelling}

theorem Agree.moves {rest rest' : List Token} (ha : Agree rest rest') (h : m.Moves)
    (ts : List Token) : Agree (ts ++ rest) (ts.map m.token ++ rest') :=
  ha.append fun t _ => h.suits t

/-- Holds of tokens of which the grammar sees the same and the first one has the same text. -/
structure AgreeText (rest rest' : List Token) : Prop extends Agree rest rest' where
  text : rest'.head?.map (·.text) = rest.head?.map (·.text)

theorem AgreeText.moves {rest rest' : List Token} (ha : AgreeText rest rest') (h : m.Moves)
    (ts : List Token) : AgreeText (ts ++ rest) (ts.map m.token ++ rest') where
  toAgree := ha.toAgree.moves h ts
  text := by
    cases ts with
    | nil => exact ha.text
    | cons t ts => simp [h.token_eq]

/-- Of tokens that begin with the same two the grammar sees the same. -/
theorem agreeText_of_two (h : m.Moves) (t u : Token) (rest rest' : List Token) :
    AgreeText (t :: u :: rest) (m.token t :: m.token u :: rest') where
  nil := by simp
  kind := rfl
  star := by simp [starAt, h.token_eq]
  word w _ := by simp [wordAt, h.token_eq]
  second := .inr rfl
  text := by simp [h.token_eq]

/-- Of what begins with a mark that ends a form the grammar sees the mark only. -/
theorem agree_of_end (c c' : Token) (hc : c.kind ∈ [.comma, .rbracket, .colon, .semi])
    (hkind : c'.kind = c.kind) (htext : c'.text = c.text) (rest rest' : List Token) :
    Agree (c :: rest) (c' :: rest') where
  nil := by simp
  kind := hkind
  star := by simp [starAt, hkind, htext]
  word w _ := by simp [wordAt, hkind, htext]
  second := .inl hc

theorem ExternAt.agree_iff {rest rest' : List Token} (ha : AgreeText rest rest') :
    ExternAt rest' ↔ ExternAt rest := by
  cases rest with
  | nil => rw [ha.nil.2 rfl]
  | cons t rest =>
    cases rest' with
    | nil => exact absurd (ha.nil.1 rfl) (by simp)
    | cons u rest' =>
      have hkind : u.kind = t.kind := ha.kind
      have htext : u.text = t.text := by simpa using ha.text
      by_cases hk : t.kind = .modifier
      · rw [ExternAt, ExternAt, ha.second_of hk (by simp)]
        simp [hkind, htext]
      · simp [ExternAt, hkind, hk]

theorem DeclarationAt.agree {rest rest' : List Token} (h : DeclarationAt rest)
    (ha : AgreeText rest rest') : DeclarationAt rest' where
  member := (MemberAt.agree_iff ha.toAgree).2 h.member
  noUsing := by
    rw [UsingAt.agree_iff ha.toAgree]
    exact h.noUsing
  noExtern := by
    rw [ExternAt.agree_iff ha]
    exact h.noExtern

/-! ## Tokens in front and behind -/

section

variable {old new : Nat}

theorem span_behind_of_lt {s : Span} (hstart : s.start < old) (hstop : s.stop < old) :
    (behind old new).span s = s := by
  simp only [Respelling.span, behind, move, if_pos hstart, if_pos hstop]

theorem span_behind_add (old new a b : Nat) :
    (behind old new).span ⟨old + a, old + b⟩ = ⟨new + a, new + b⟩ := by
  have hplace : ∀ a, (behind old new).place (old + a) = new + a := by
    intro a
    simp only [behind, move]
    rw [if_neg (by omega)]
    omega
  rw [Respelling.span, hplace, hplace]

/-- Tokens in front stay. -/
theorem map_token_front {as : List Tile} (hlt : byteSize (textOf as) < old) :
    (tokensAt 0 as).map (behind old new).token = tokensAt 0 as := by
  conv_rhs => rw [← List.map_id (tokensAt 0 as)]
  refine List.map_congr_left fun t ht => ?_
  obtain ⟨us, u, vs, rfl, -, -, hspan⟩ := exists_of_mem_tokensAt ht
  rw [textOf_append, textOf_cons, byteSize_append, byteSize_append] at hlt
  rw [(moves_behind old new).token_eq, span_behind_of_lt]
  · rfl
  · rw [hspan]
    dsimp only
    omega
  · rw [hspan]
    dsimp only
    omega

/-- Tokens behind move. -/
theorem map_token_behind (old new : Nat) (cs : List Tile) (n : Nat) :
    (tokensAt (old + n) cs).map (behind old new).token = tokensAt (new + n) cs := by
  induction cs generalizing n with
  | nil => rfl
  | cons c cs ih =>
    rw [tokensAt, tokensAt, Nat.add_assoc, Nat.add_assoc]
    cases c.kind with
    | none => exact ih _
    | some k =>
      dsimp only
      rw [List.map_cons, ih, (moves_behind old new).token_eq, span_behind_add]

theorem text_of_split (front mid back : List Char) :
    Span.text ⟨byteSize front, byteSize front + byteSize mid⟩ (String.ofList (front ++ (mid ++ back))) =
      String.ofList mid := by
  rw [Span.text, String.toList_ofList, slice?_append, Option.getD_some]

/-- Texts in front stay. -/
theorem sliceKept_front {as : List Tile} (hlt : byteSize (textOf as) < old) (rest rest' : List Char) :
    SliceKept (behind old new) (·.text (String.ofList (textOf as ++ rest)))
      (·.text (String.ofList (textOf as ++ rest'))) (tokensAt 0 as) := by
  intro us hus hne _
  obtain ⟨ds, es, fs, rfl, -, hspan⟩ := exists_tiles_of_infix hus hne
  rw [Nat.zero_add] at hspan
  simp only [textOf_append, byteSize_append, List.append_assoc] at hlt ⊢
  rw [span_behind_of_lt (by rw [hspan]; dsimp only; omega) (by rw [hspan]; dsimp only; omega), hspan,
    text_of_split, text_of_split]

/-- Texts behind move. -/
theorem sliceKept_behind (front front' : List Char) (cs : List Tile) :
    SliceKept (behind (byteSize front) (byteSize front'))
      (·.text (String.ofList (front ++ textOf cs))) (·.text (String.ofList (front' ++ textOf cs)))
      (tokensAt (byteSize front) cs) := by
  intro us hus hne _
  obtain ⟨ds, es, fs, rfl, -, hspan⟩ := exists_tiles_of_infix hus hne
  have hmoved := span_behind_add (byteSize front) (byteSize front') (byteSize (textOf ds))
    (byteSize (textOf ds) + byteSize (textOf es))
  simp only [← Nat.add_assoc] at hmoved
  have htext : ∀ front : List Char, Span.text ⟨byteSize front + byteSize (textOf ds),
      byteSize front + byteSize (textOf ds) + byteSize (textOf es)⟩
      (String.ofList (front ++ textOf (ds ++ (es ++ fs)))) = String.ofList (textOf es) := by
    intro front
    rw [textOf_append, textOf_append, ← List.append_assoc, ← byteSize_append, text_of_split]
  rw [hspan, hmoved]
  exact (htext front').trans (htext front).symm

end

end Grammar

end SelfTypeLint
