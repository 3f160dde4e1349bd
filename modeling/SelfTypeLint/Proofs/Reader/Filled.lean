import SelfTypeLint.Proofs.Grammar.Derivations
import SelfTypeLint.Proofs.Grammar.Fillings
import SelfTypeLint.Proofs.Reader.Respelled
import SelfTypeLint.Proofs.Token.Between

/-!
# Reading texts with a hole filled

A piece of a text is exchanged for another one, so that the tokens around it move. If the tokens of the new
piece fill a hole of the file, the new text has no faults, and its tree is parallel to that of the old one
(`read_filled`).
-/

namespace SelfTypeLint

open Token Text Grammar Respelling

/-- Holds of texts of which the second has other tokens in one place, without errors, and those around them
as they were, but moved. -/
structure Refilled (m : Respelling) (source source' : String) (xs ws ys : List Token) : Prop where
  moves : m.Moves
  ahead : (Cursor.ofSource source').ahead = xs.map m.token ++ (ws ++ ys.map m.token)
  front : SliceKept m (·.text source) (·.text source') xs
  back : SliceKept m (·.text source) (·.text source') ys
  clean : ∀ t ∈ (Cursor.ofSource source').ahead, t.kind ≠ .error

/-- Tokens at the sides that move count as new ones. -/
theorem Refilled.widen {m : Respelling} {source source' : String} {xs fs ws gs ys : List Token}
    (h : Refilled m source source' (xs ++ fs) ws (gs ++ ys)) :
    Refilled m source source' xs (fs.map m.token ++ (ws ++ gs.map m.token)) ys where
  moves := h.moves
  ahead := by
    rw [h.ahead]
    simp
  front := h.front.mono ⟨[], fs, rfl⟩
  back := h.back.mono ⟨gs, [], by simp⟩
  clean := h.clean

namespace Grammar

variable {α : Type} {H : Hole α} {key : Nat} {inDecl : TypeDecl → Prop} {inUsing : UsingDirective → Prop}
  {R : Respelling → α → TypeDecl → TypeDecl → Prop}
  {S : Respelling → α → List UsingDirective → List UsingDirective → Prop}

/-- A text without faults has a hole where one of its declarations or directives has, and whatever fills it
makes a text without faults whose tree is parallel. -/
theorem Filling.read_filled {file : FileId} {source : String}
    (F : Filling H (·.text source) key inDecl inUsing R S)
    (hclean : (SyntaxTree.read file source).errors = [])
    (hlies : Lies inDecl inUsing (SyntaxTree.read file source).tree.usings
      (SyntaxTree.read file source).tree.members) :
    ∃ xs hs ys, (Cursor.ofSource source).ahead = xs ++ (hs ++ ys) ∧ H.old hs ys ∧
      ∀ (source' : String) (m : Respelling) (hs' : List Token) (a : α), Refilled m source source' xs hs' ys →
        H.new m hs hs' (ys.map m.token) a →
          (SyntaxTree.read file source').errors = [] ∧
          SyntaxTree.Parallel (fun _ => R m a) (S m a) (SyntaxTree.read file source).tree
            (SyntaxTree.read file source').tree := by
  obtain ⟨is, hform⟩ := SyntaxTree.membersForm_read hclean
  obtain ⟨xs, hs, ys, hahead, hold, hnew⟩ :=
    hform.hole F (apart_of_placed (placed_ofSource source)) hlies
  rw [List.append_nil] at hold
  refine ⟨xs, hs, ys, hahead, hold, fun source' m hs' a hrefilled hfill => ?_⟩
  obtain ⟨us', ms', is', hform', hus, hms⟩ := hnew (·.text source') m hs' [] a hrefilled.moves
    hrefilled.front hrefilled.back (.refl []) (by rwa [List.append_nil])
  rw [← hrefilled.ahead] at hform'
  have hread := Read.read_of_membersForm hrefilled.clean hform' file
  rw [hread]
  exact ⟨rfl, rfl, hus, hms⟩

end Grammar

/-! ## Texts in pieces -/

theorem kind_ne_error_of_tokensAt {offset : Nat} {ts : List Tile}
    (h : ∀ t ∈ tokensAt offset ts, t.kind ≠ .error) : ∀ t ∈ ts, t.kind ≠ some .error := by
  intro t ht hk
  obtain ⟨as, bs, rfl⟩ := List.append_of_mem ht
  exact h _ (mem_tokensAt_of_kind as bs hk) rfl

/-- Holds of the tiles of a text in three pieces: in front of some tokens, of these, and behind them. -/
structure Pieces (source : String) (xs us ys : List Token) (as bs cs : List Tile) : Prop where
  tiles : Token.tiles source.toList = as ++ (bs ++ cs)
  front : tokensAt 0 as = xs
  mid : tokensAt (byteSize (textOf as)) bs = us
  back : tokensAt (byteSize (textOf as) + byteSize (textOf bs)) cs = ys
  span : spanOf us = ⟨byteSize (textOf as), byteSize (textOf as) + byteSize (textOf bs)⟩
  pos : 0 < byteSize (textOf bs)

/-- A text is in three pieces around some of its tokens. The second one begins with the first of these. -/
theorem exists_pieces {source : String} {xs us ys : List Token} {t : Token}
    (h : (Cursor.ofSource source).ahead = xs ++ (t :: us ++ ys)) :
    ∃ as u bs cs, Pieces source xs (t :: us) ys as (u :: bs) cs ∧ u.kind = some t.kind := by
  rw [ahead_ofSource] at h
  obtain ⟨as, u, bs, cs, htiles, hkind, has, hus, hys, hspan⟩ := exists_tiles_of_append h
  have hmem : u ∈ tiles source.toList := by
    rw [htiles]
    simp
  have hne : u.text ≠ [] := text_ne_nil_of_mem_tiles hmem
  simp only [Nat.zero_add] at hus hys hspan
  refine ⟨as, u, bs, cs, ⟨htiles, has, hus, hys, hspan, ?_⟩, hkind⟩
  have hpos : byteSize u.text ≠ 0 := fun hzero => hne (eq_nil_of_byteSize_eq_zero hzero)
  rw [textOf_cons, byteSize_append]
  omega

namespace Pieces

variable {source : String} {xs us ys ws : List Token} {as bs cs : List Tile} {new : List Char}

theorem source_eq (h : Pieces source xs us ys as bs cs) :
    source = String.ofList (textOf as ++ (textOf bs ++ textOf cs)) := by
  rw [← textOf_append, ← textOf_append, ← h.tiles, textOf_tiles, String.ofList_toList]

theorem cut (h : Pieces source xs us ys as bs cs) : Cut (as ++ (bs ++ cs)) :=
  h.tiles ▸ cut_tiles source.toList

theorem ahead_eq (h : Pieces source xs us ys as bs cs) :
    (Cursor.ofSource source).ahead = xs ++ (us ++ ys) := by
  rw [ahead_ofSource, h.tiles, tokensAt_append, tokensAt_append, Nat.zero_add, h.front, h.mid, h.back]

theorem cut_back (h : Pieces source xs us ys as bs cs) : Cut cs := h.cut.append_right.append_right

/-- How the tokens around a piece move where another one takes its place. -/
def moves (as bs : List Tile) (new : List Char) : Respelling :=
  behind (byteSize (textOf as) + byteSize (textOf bs)) (byteSize (textOf as) + byteSize new)

/-- The second piece is exchanged: the tokens around it move. -/
theorem refilled (h : Pieces source xs us ys as bs cs)
    (herror : ∀ t ∈ (Cursor.ofSource source).ahead, t.kind ≠ .error)
    (hfront : readFrom 0 (textOf as ++ (new ++ textOf cs)) =
      xs ++ readFrom (byteSize (textOf as)) (new ++ textOf cs))
    (hnew : Reads (byteSize (textOf as)) new (textOf cs) ws) :
    Refilled (moves as bs new) source (String.ofList (textOf as ++ (new ++ textOf cs))) xs ws ys := by
  have hlt : byteSize (textOf as) < byteSize (textOf as) + byteSize (textOf bs) := by
    have := h.pos
    omega
  have hahead : (Cursor.ofSource (String.ofList (textOf as ++ (new ++ textOf cs)))).ahead =
      xs.map (moves as bs new).token ++ (ws ++ ys.map (moves as bs new).token) := by
    have hread := hfront
    rw [hnew.read, readFrom_eq, readFrom_eq, show Token.tiles (textOf cs) = cs from h.cut_back,
      ← List.append_assoc ws, ← List.append_assoc xs] at hread
    have hbehind := map_token_behind (byteSize (textOf as) + byteSize (textOf bs))
      (byteSize (textOf as) + byteSize new) cs 0
    rw [ahead_ofSource, String.toList_ofList, (List.append_inj' hread rfl).1, ← h.front, ← h.back]
    exact congrArg₂ (· ++ ·) (map_token_front hlt).symm (congrArg (ws ++ ·) hbehind.symm)
  refine ⟨moves_behind _ _, hahead, ?_, ?_, ?_⟩
  · rw [h.source_eq, ← h.front]
    exact sliceKept_front hlt _ _
  · have hkept := sliceKept_behind (textOf as ++ textOf bs) (textOf as ++ new) cs
    rw [List.append_assoc, List.append_assoc, byteSize_append, byteSize_append] at hkept
    rw [h.source_eq, ← h.back]
    exact hkept
  · have hmoved : ∀ {ts : List Token}, (∀ u ∈ ts, u.kind ≠ .error) →
        ∀ t ∈ ts.map (moves as bs new).token, t.kind ≠ .error := by
      intro ts hts t ht
      obtain ⟨u, hu, rfl⟩ := List.mem_map.1 ht
      exact hts u hu
    rw [h.ahead_eq] at herror
    have hsides := List.forall_mem_append.1 herror
    rw [hahead]
    exact List.forall_mem_append.2 ⟨hmoved hsides.1, List.forall_mem_append.2
      ⟨hnew.clean, hmoved (List.forall_mem_append.1 hsides.2).2⟩⟩

/-- A piece around a mark is the mark. -/
theorem exists_mark {u : Tile} {t : Token} (h : Pieces source xs [t] ys as (u :: bs) cs)
    (hu : u.kind = some t.kind) (ht : t.kind ∈ listMarks.map (·.1)) :
    ∃ c, (t.kind, c) ∈ listMarks ∧ textOf (u :: bs) = [c] ∧ t.text = String.ofList [c] := by
  have hcut : Cut (u :: (bs ++ cs)) := h.cut.append_right
  obtain ⟨⟨c, more, hc, hmunch⟩, -⟩ := hcut.exists_munch
  rw [hu] at hmunch
  obtain ⟨hnil, hmark⟩ := mark_of_munch hmunch ht
  rw [List.eq_nil_of_length_eq_zero hnil] at hc
  have hmid := h.mid
  rw [tokensAt, hu, hc] at hmid
  have htoken := (List.cons.inj hmid).1
  -- The token ends where the piece does, so that nothing else is in this.
  have hstop : t.span.stop = _ := congrArg Span.stop h.span
  have hsize : byteSize (textOf bs) = 0 := by
    rw [← htoken, textOf_cons, hc, byteSize_append] at hstop
    dsimp only at hstop
    omega
  exact ⟨c, hmark, by rw [textOf_cons, hc, eq_nil_of_byteSize_eq_zero hsize]; rfl, htoken ▸ rfl⟩

/-- What stands behind is moved by what is put in front of the second piece. -/
theorem span_back (h : Pieces source xs us ys as bs cs) {t : Token} (ht : t ∈ ys) (front : List Char) :
    (moves as bs (front ++ textOf bs)).span t.span = t.span.shift (byteSize front) := by
  rw [← h.back] at ht
  obtain ⟨ls, u, rs, -, -, -, hspan⟩ := exists_of_mem_tokensAt ht
  rw [hspan, Nat.add_assoc _ _ (byteSize u.text), moves, span_behind_add, byteSize_append, Span.shift]
  simp only [Span.mk.injEq]
  omega

/-- Behind a mark the tokens in front are read as they were where what opens a piece takes the place of
what begins a type or a type parameter. -/
theorem front_behind_mark {u : Tile} {t : Token} (h : Pieces source xs (t :: us) ys as (u :: bs) cs)
    (herror : ∀ t ∈ (Cursor.ofSource source).ahead, t.kind ≠ .error) (hu : u.kind = some t.kind)
    (hlast : lastKind xs ∈ listMarks.map (·.1)) (ht : StartsItem t.kind) {d : Char} (hd : Opens d)
    (more : List Char) : readFrom 0 (textOf as ++ d :: more) =
      xs ++ readFrom (byteSize (textOf as)) (d :: more) := by
  rw [ahead_ofSource, h.tiles] at herror
  have hcut : Cut (as ++ u :: (bs ++ cs)) := h.cut
  obtain ⟨ls, l, rfl⟩ : ∃ ls l, xs = ls ++ [l] := by
    rcases List.eq_nil_or_concat xs with rfl | ⟨ls, l, rfl⟩
    · exact absurd hlast (by decide)
    · exact ⟨ls, l, by simp⟩
  rw [lastKind_concat] at hlast
  have hread := readFrom_behind_mark hcut (kind_ne_error_of_tokensAt herror)
    (by rw [h.front, List.getLast?_concat]) hlast hu ht hd more
  rwa [h.front, Nat.zero_add] at hread

end Pieces

end SelfTypeLint
