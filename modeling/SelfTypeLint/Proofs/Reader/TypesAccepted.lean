import SelfTypeLint.Proofs.Grammar.Derivations
import SelfTypeLint.Proofs.Reader.TypesSound
import SelfTypeLint.Proofs.Reader.TypesComplete

/-!
# The types that are accepted

The reader of types accepts the derivations of the grammar and nothing else, and of the derivations that
begin at a place the longest: one that the tokens after it cannot extend.
-/

namespace SelfTypeLint

open Token Grammar

namespace Cursor

/-- A move is told by what it consumes and adds. -/
theorem Moved.unique {c d d' : Cursor} {ts : List Token} {is : List Ident} {es : List ParseError}
    (h : c.Moved ts is es d) (h' : c.Moved ts is es d') : d = d' := by
  have hsource := h.source.trans h'.source.symm
  have heof := h.eof.trans h'.eof.symm
  have hahead : d.ahead = d'.ahead := List.append_cancel_left (h.ahead.symm.trans h'.ahead)
  have hprev := h.prevEnd.trans h'.prevEnd.symm
  have hidents := h.idents.trans h'.idents.symm
  have herrors := h.errors.trans h'.errors.symm
  cases d
  cases d'
  simp only [mk.injEq]
  exact ⟨hsource, hahead, heof, hprev, herrors, hidents⟩

theorem Took.eq_advance {c d : Cursor} {ts : List Token} (h : c.Took ts d) :
    d = c.advance ts.length :=
  h.unique (took_advance h.ahead)

end Cursor

namespace Read

open Cursor

/-- A type is read from tokens just if they spell it where they stand. -/
theorem runAt_typeExpr_iff {c : Cursor} (hc : c.Ready) {ts rest : List Token} {e : TypeExpr}
    (ha : c.ahead = ts ++ rest) :
    typeExpr.runAt c = (.ok e, c.advance ts.length) ↔ TypeForm ts rest e := by
  have htook := took_advance ha
  constructor
  · intro hrun
    have hspells := spells_typeExpr c hc
    rw [Spells, Sat, hrun] at hspells
    obtain ⟨us, hus, hform⟩ := hspells
    have hahead := Took.ahead_eq htook ha
    have hus := hus.ahead
    rw [ha, hahead] at hus
    rwa [hahead, ← List.append_cancel_right hus] at hform
  · intro hform
    have hparses := parses_typeExpr hform hc ha
    rw [Parses, Sat] at hparses
    split at hparses
    · next a d hrun =>
      obtain ⟨rfl, hd⟩ := hparses
      rw [hrun, hd.eq_advance]
    · exact hparses.elim

theorem typeEnds_append_left {ts us rest : List Token} (h : TypeEnds ts (us ++ rest)) :
    TypeEnds ts us := by
  cases us with
  | nil => exact typeEnds_nil ts
  | cons t us =>
    have hstar : starAt (t :: us) = false := h.suffix.star
    cases us with
    | nil =>
      exact ⟨⟨h.suffix.question, fun _ => by simp, hstar⟩,
        ⟨h.name.arguments, fun _ hdot => absurd hdot.2 (by simp), h.name.qualifier⟩⟩
    | cons t' us =>
      exact ⟨⟨h.suffix.question, h.suffix.brackets, hstar⟩,
        ⟨h.name.arguments, h.name.dot, h.name.qualifier⟩⟩

/-- The type that is read is the longest: no tokens after it complete another one. -/
theorem typeDerivation_longest {c : Cursor} (hc : c.Ready) {ts us rest : List Token}
    {e e' : TypeExpr} (ha : c.ahead = ts ++ (us ++ rest)) (h : TypeDerivation ts e)
    (hends : TypeEnds ts (us ++ rest)) (h' : TypeDerivation (ts ++ us) e') : us = [] := by
  -- the tokens up to the end of the longer derivation, with nothing after them
  let d : Cursor := { c with ahead := ts ++ us }
  have hplaced := hc.placed
  rw [ha, ← List.append_assoc] at hplaced
  have hd : d.Ready :=
    ⟨hc.eof, fun t ht => hc.ahead t (by
      rw [ha, ← List.append_assoc]
      exact List.mem_append_left rest ht), hplaced.append_left⟩
  have hda : d.ahead = ts ++ us ++ [] := (List.append_nil _).symm
  have hshort := (runAt_typeExpr_iff (c := d) hd rfl).2 (h.form (typeEnds_append_left hends))
  have hlong := (runAt_typeExpr_iff hd hda).2 (h'.form (typeEnds_nil _))
  have heq : d.advance ts.length = d.advance (ts ++ us).length :=
    congrArg Prod.snd (hshort.symm.trans hlong)
  have hahead := congrArg Cursor.ahead heq
  rwa [Took.ahead_eq (took_advance (show d.ahead = ts ++ us from rfl)) rfl,
    Took.ahead_eq (took_advance hda) hda] at hahead

/-- The reader of types accepts exactly its grammar. A derivation that begins at the cursor is what is
read, token by token, just if the tokens that follow it cannot extend it, and whatever is read as a type
has such a derivation. Tokens that cannot extend a derivation complete no longer one; of all others the
first begin a longer one. -/
theorem typeExpr_accepts (c : Cursor) (hc : c.Ready) :
    (∀ ts rest e, c.ahead = ts ++ rest → TypeDerivation ts e →
      (typeExpr.runAt c = (.ok e, c.advance ts.length) ↔ TypeEnds ts rest)) ∧
    (∀ e d, typeExpr.runAt c = (.ok e, d) →
      ∃ ts, c.ahead = ts ++ d.ahead ∧ d = c.advance ts.length ∧ TypeDerivation ts e ∧
        TypeEnds ts d.ahead) ∧
    ∀ ts rest e, c.ahead = ts ++ rest → TypeDerivation ts e →
      (TypeEnds ts rest → ∀ us e', us <+: rest → TypeDerivation (ts ++ us) e' → us = []) ∧
      (¬ TypeEnds ts rest →
        ∃ us vs e', us ≠ [] ∧ us <+: rest ∧ TypeDerivation (ts ++ (us ++ vs)) e') := by
  refine ⟨fun ts rest e ha hder => ?_, fun e d hrun => ?_, fun ts rest e ha hder => ⟨?_, ?_⟩⟩
  · rw [runAt_typeExpr_iff hc ha, typeForm_iff]
    exact and_iff_right hder
  · have hspells := spells_typeExpr c hc
    rw [Spells, Sat, hrun] at hspells
    obtain ⟨ts, hts, hform⟩ := hspells
    obtain ⟨hder, hends⟩ := typeForm_iff.1 hform
    exact ⟨ts, hts.ahead, hts.eq_advance, hder, hends⟩
  · rintro hends us e' ⟨vs, rfl⟩ hlonger
    exact typeDerivation_longest hc ha hder hends hlonger
  · exact hder.exists_extension

/-- An unbound name that may be null, before a word that does not go on it. -/
theorem typeExpr_accepts_unbound :
    let c := Cursor.ofSource "global::A<,>? b"
    c.Ready ∧
    TypeDerivation (c.ahead.take 7) (.nullable
      (.path true [⟨"A", ⟨8, 9⟩, [], some ⟨9, 12⟩⟩] ⟨0, 12⟩) ⟨0, 13⟩) ∧
    TypeEnds (c.ahead.take 7) (c.ahead.drop 7) ∧
    typeExpr.runAt c = (.ok (.nullable
      (.path true [⟨"A", ⟨8, 9⟩, [], some ⟨9, 12⟩⟩] ⟨0, 12⟩) ⟨0, 13⟩),
      c.advance (c.ahead.take 7).length) := by
  intro c
  have hc : c.Ready := ready_ofSource _
  have ha : c.ahead = [⟨.ident, ⟨0, 6⟩, "global"⟩, ⟨.colonColon, ⟨6, 8⟩, "::"⟩, ⟨.ident, ⟨8, 9⟩, "A"⟩,
      ⟨.lt, ⟨9, 10⟩, "<"⟩, ⟨.comma, ⟨10, 11⟩, ","⟩, ⟨.gt, ⟨11, 12⟩, ">"⟩,
      ⟨.question, ⟨12, 13⟩, "?"⟩] ++ [⟨.ident, ⟨14, 15⟩, "b"⟩] := by decide +kernel
  have hder : TypeDerivation (c.ahead.take 7) (.nullable
      (.path true [⟨"A", ⟨8, 9⟩, [], some ⟨9, 12⟩⟩] ⟨0, 12⟩) ⟨0, 13⟩) := by
    rw [ha]
    exact .mk (.path (.root rfl rfl (by decide))
      (.last (@SegmentDerivation.unbound _ _ _ [_] rfl rfl (by simp) rfl)))
      (.nullable rfl .nil)
  have hends : TypeEnds (c.ahead.take 7) (c.ahead.drop 7) := by
    rw [ha]
    exact typeEnds_of_kindAt (.inr (.inr (.inr rfl)))
  have hsplit := (List.take_append_drop 7 c.ahead).symm
  exact ⟨hc, hder, hends, ((typeExpr_accepts c hc).1 _ _ _ hsplit hder).2 hends⟩

end Read

end SelfTypeLint
