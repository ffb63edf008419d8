import GrowthOrder.Proofs.Recurrence.Indexed
import GrowthOrder.Proofs.Recurrence.Refusals

/-!
# GrowthOrder.Proofs.Recurrence.Cursor

A cursor in the lexemes of a text: a position, and the lexemes from there on.

* `Indexed.At` ties the two, and says that there are rounds enough to go over all lexemes;
* each access at such a position is in range, and what it gives is said by the lexemes that stand
  there (`Indexed.At.entry`, `near`, `refuse`, `advance`, `accept`, `slice`, `breakAt_comma` and so
  on);
* each look ahead comes to an end, and says how many lexemes it has passed (`Indexed.At.seek`,
  `Indexed.At.summandEnd`);
* `Indexed.Agrees` is what reading at a cursor has to do with reading lexemes off the front of a
  list: the same result and the same place behind it, or the same refusal.
-/

namespace GrowthOrder

namespace Indexed

theorem ok_bind {α β : Type} (a : α) (f : α → Read β) : ((.ok a : Read α) >>= f) = f a :=
  rfl

theorem distance_add (i n : Nat) : distance i (i + n) = .ok n := by
  rw [distance, if_pos (Nat.le_add_right i n), Nat.add_sub_cancel_left]

/-- The first of some lexemes as an entry, or the end if there is none. -/
def Entry.first (stop : Place) (ls : List Lexeme) : Entry :=
  ⟨ls.head?.map Lexeme.token, Lexeme.start stop ls⟩

namespace Entry

@[simp] theorem token_first_nil (stop : Place) : (first stop []).token = none :=
  rfl

@[simp] theorem token_first_cons (stop : Place) (l : Lexeme) (ls : List Lexeme) :
    (first stop (l :: ls)).token = some l.token :=
  rfl

theorem isNone_token_first {stop : Place} {ls : List Lexeme} :
    (first stop ls).token.isNone = true ↔ ls = [] := by
  cases ls <;> simp

end Entry

theorem last_of (text : String) (ls : List Lexeme) : (Source.of text ls).last = .ok ls.length := by
  simp [Source.last, distance, Source.of]

/-- The lexemes of a text from position `i` on are `after`, and `bound` rounds are enough to go over
all of them. -/
structure At (text : String) (ls : List Lexeme) (bound i : Nat) (after : List Lexeme) : Prop where
  tiled : Lexer.Tiled (Glyph.scan text).1 ls
  enough : ls.length < bound
  split : ∃ before, ls = before ++ after ∧ before.length = i

namespace At

variable {text : String} {ls after : List Lexeme} {bound i : Nat}

/-! ## Positions -/

theorem append {front : List Lexeme} (h : At text ls bound i (front ++ after)) :
    At text ls bound (i + front.length) after := by
  obtain ⟨htiled, henough, before, hls, rfl⟩ := h
  exact ⟨htiled, henough, before ++ front, by rw [hls, List.append_assoc], List.length_append⟩

theorem cons {l : Lexeme} (h : At text ls bound i (l :: after)) :
    At text ls bound (i + 1) after := by
  rw [← List.singleton_append] at h
  exact h.append

theorem length_lt (h : At text ls bound i after) : after.length < bound := by
  obtain ⟨-, henough, before, rfl, -⟩ := h
  rw [List.length_append] at henough
  omega

theorem zero (htiled : Lexer.Tiled (Glyph.scan text).1 ls) (henough : ls.length < bound) :
    At text ls bound 0 ls :=
  ⟨htiled, henough, [], rfl, rfl⟩

theorem origin (h : At text ls bound i after) : At text ls bound 0 ls :=
  zero h.tiled h.enough

theorem eq_of_zero (h : At text ls bound 0 after) : ls = after := by
  obtain ⟨-, -, before, rfl, hlength⟩ := h
  rw [List.length_eq_zero_iff.1 hlength, List.nil_append]

theorem eq_add {part : List Lexeme} {j : Nat} (h : At text ls bound i (part ++ after))
    (hj : At text ls bound j after) : j = i + part.length := by
  obtain ⟨-, -, before, rfl, rfl⟩ := h
  obtain ⟨-, -, before', hsame, rfl⟩ := hj
  have hlength := congrArg List.length hsame
  simp only [List.length_append] at hlength
  omega

/-- Where something stands in front of `after`, the position is not that of `after`. -/
theorem ne_of_cons {l : Lexeme} {rest : List Lexeme} {j : Nat}
    (h : At text ls bound i (l :: rest ++ after)) (hj : At text ls bound j after) : i ≠ j := by
  have hlength := h.eq_add hj
  rw [List.length_cons] at hlength
  omega

/-! ## Access -/

theorem entry (h : At text ls bound i after) :
    (Source.of text ls).entry i = .ok (Entry.first (Glyph.scan text).2 after) := by
  obtain ⟨-, -, before, rfl, rfl⟩ := h
  have hfound : (Source.of text (before ++ after)).entries[before.length]? =
      some (Entry.first (Glyph.scan text).2 after) := by
    rw [Source.of, List.map_append, List.append_assoc, List.getElem?_append_right (by simp)]
    cases after <;> simp [Entry.first, Lexeme.start]
  rw [Source.entry, hfound]

theorem near (h : At text ls bound i after) :
    (Source.of text ls).near i = .ok (Entry.first (Glyph.scan text).2 after) := by
  have hmin : min i ls.length = i := by
    obtain ⟨-, -, before, rfl, rfl⟩ := h
    simp
  rw [Source.near, last_of, ok_bind, hmin, h.entry]

theorem refuse (h : At text ls bound i after) {α : Type} (fault : ParseFault) (fragment : String) :
    ((Source.of text ls).refuse i fault fragment : Read α) =
      .error (.refused ⟨fault, fragment, Lexeme.start (Glyph.scan text).2 after⟩) := by
  rw [Source.refuse, h.near]
  rfl

theorem advance {l : Lexeme} (h : At text ls bound i (l :: after)) :
    (Source.of text ls).advance i = .ok (i + 1) := by
  rw [Source.advance, h.entry, ok_bind]
  simp only [Entry.token_first_cons, Option.isNone_some, if_false, Bool.false_eq_true,
    Nat.add_sub_cancel, h.entry, ok_bind]

/-- A sign that is there is accepted. -/
theorem accept {l : Lexeme} (h : At text ls bound i (l :: after)) :
    (Source.of text ls).accept i l.token = .ok (some (i + 1)) := by
  rw [Source.accept, h.entry, ok_bind]
  simp only [Entry.token_first_cons, if_true, h.advance, ok_bind]
  rfl

/-- A sign that is not there is not accepted. -/
theorem accept_of_ne (h : At text ls bound i after) {sign : Token}
    (hne : ∀ l ∈ after.head?, l.token ≠ sign) :
    (Source.of text ls).accept i sign = .ok none := by
  have hfirst : (Entry.first (Glyph.scan text).2 after).token ≠ some sign := by
    intro hsign
    obtain ⟨l, hl, hsign⟩ := Option.map_eq_some_iff.1 hsign
    exact hne l hl hsign
  rw [Source.accept, h.entry, ok_bind, if_neg hfirst]
  rfl

/-- What is cut out between two positions is what stands between them. -/
theorem slice {part : List Lexeme} (h : At text ls bound i (part ++ after)) :
    (Source.of text ls).slice i (i + part.length) = .ok (Lexeme.spell part) := by
  have hstart := h.near
  have hstop := h.append.near
  obtain ⟨htiled, -, before, rfl, rfl⟩ := h
  have hnext : Lexer.Tiled (Glyph.scan text).1 ((before ++ part) ++ after) := by
    rwa [List.append_assoc]
  have hchars : (Source.of text (before ++ (part ++ after))).chars =
      Lexeme.chars before ++ Lexeme.chars part ++ Lexeme.chars after := by
    rw [Source.of, htiled.chars_eq]
    simp
  rw [Source.slice, hstart, hstop, ok_bind, ok_bind, hchars]
  simp only [Entry.first, htiled.offset, hnext.offset, Lexeme.chars_append, List.length_append,
    Text.extract_middle]
  split
  · next hle =>
    have hnil : Lexeme.chars part = [] := List.length_eq_zero_iff.1 (by omega)
    rw [← String.ofList_nil, ← hnil]
    rfl
  · rw [if_pos (by omega)]
    rfl

theorem breakAt_comma {l : Lexeme} (h : At text ls bound i (l :: after)) (hl : l.token = .comma) :
    (Source.of text ls).breakAt i = .ok (.comma (i + 1)) := by
  rw [Source.breakAt, ← hl, h.accept]
  rfl

theorem breakAt_closing {l : Lexeme} (h : At text ls bound i (l :: after))
    (hl : l.token = .closing) : (Source.of text ls).breakAt i = .ok (.closing (i + 1)) := by
  rw [Source.breakAt, h.accept_of_ne (by simp [hl]), ok_bind, ← hl, h.accept]
  rfl

theorem breakAt_missing (h : At text ls bound i after)
    (hne : ∀ l ∈ after.head?, l.token ≠ .comma ∧ l.token ≠ .closing) :
    (Source.of text ls).breakAt i = .ok .missing := by
  rw [Source.breakAt, h.accept_of_ne fun l hl => (hne l hl).1, ok_bind]
  simp only
  rw [h.accept_of_ne fun l hl => (hne l hl).2]
  rfl

/-! ## Looking ahead -/

/-- A search stops at the first lexeme that passes its test, or at the end. -/
theorem seek (h : At text ls bound i after) {test : Option Token → Bool} (hend : test none = true)
    {rounds : Nat} (hrounds : after.length < rounds) :
    (Source.of text ls).seek test rounds i =
      .ok (i + (after.takeWhile fun l => !test (some l.token)).length) := by
  induction rounds generalizing i after with
  | zero => exact absurd hrounds (Nat.not_lt_zero _)
  | succ rounds ih =>
      rw [Source.seek, h.near, ok_bind]
      cases after with
      | nil =>
          rw [Entry.token_first_nil, hend]
          rfl
      | cons l after =>
          rw [Entry.token_first_cons]
          cases htest : test (some l.token) with
          | true =>
              rw [List.takeWhile_cons_of_neg (by simp [htest])]
              rfl
          | false =>
              rw [List.takeWhile_cons_of_pos (by simp [htest]), if_neg Bool.false_ne_true,
                ih h.cons (Nat.lt_of_succ_lt_succ hrounds), List.length_cons, Nat.add_right_comm]
              rfl

/-- The end of a summand is where it is split off. -/
theorem summandEnd (h : At text ls bound i after) (depth : Nat) {rounds : Nat}
    (hrounds : after.length < rounds) :
    (Source.of text ls).summandEnd rounds depth i =
      .ok (i + (Parser.splitSummand depth after).1.length) := by
  induction rounds generalizing i after depth with
  | zero => exact absurd hrounds (Nat.not_lt_zero _)
  | succ rounds ih =>
      rw [Source.summandEnd, h.near, ok_bind]
      cases after with
      | nil => rfl
      | cons l after =>
          have hnext (depth : Nat) : (Source.of text ls).summandEnd rounds depth (i + 1) =
              .ok (i + ((Parser.splitSummand depth after).1.length + 1)) := by
            rw [ih h.cons depth (Nat.lt_of_succ_lt_succ hrounds), Nat.add_right_comm, Nat.add_assoc]
          rw [Entry.token_first_cons, Parser.splitSummand]
          cases ht : l.token with
          | opening => exact hnext (depth + 1)
          | closing => exact hnext (depth - 1)
          | plus =>
              by_cases hdepth : depth = 0
              · simp only [hdepth, if_true]
                rfl
              · simp only [hdepth, if_false]
                exact hnext depth
          | minus =>
              by_cases hdepth : depth = 0
              · simp only [hdepth, if_true]
                rfl
              · simp only [hdepth, if_false]
                exact hnext depth
          | _ => exact hnext depth

end At

/-! ## Agreement -/

/-- Two readers come to results in the relation `R` and to the same place, `after` being behind
both, or they refuse the text for the same reason. -/
def Agrees (text : String) (ls : List Lexeme) (bound : Nat) (after : List Lexeme) {α β : Type}
    (R : α → β → Prop) (x : Read (β × Nat)) : Except ParseError (α × List Lexeme) → Prop
  | .error e => x = .error (.refused e)
  | .ok (a, rest) => ∃ b i, x = .ok (b, i) ∧ R a b ∧ At text ls bound i (rest ++ after)

theorem Agrees.eq_error {text : String} {ls after : List Lexeme} {bound : Nat} {α β : Type}
    {R : α → β → Prop} {x : Read (β × Nat)} {e : ParseError}
    (h : Agrees text ls bound after R x (.error e)) : x = .error (.refused e) :=
  h

end Indexed

end GrowthOrder
