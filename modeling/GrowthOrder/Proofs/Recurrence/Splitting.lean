import GrowthOrder.Proofs.Recurrence.Grammar
import GrowthOrder.Recurrence.Parser
import Mathlib.Tactic

/-!
# GrowthOrder.Proofs.Recurrence.Splitting

How the reader takes lexemes apart before it looks at the parts: a call at its commas up to the
first closing parenthesis, a sum before each sign outside of parentheses.  Neither split follows the
grammar, since an argument ends at a parenthesis that belongs to something else just as well.

* `arguments?_sound` and `arguments?_complete` — the parts of a call are what commas separate and a
  parenthesis ends.
* `splitSummand_operand` — in front of a sign or the end, a written operand is split off whole.
-/

namespace GrowthOrder

namespace Parser

open Grammar (separated)

/-! ## Arguments -/

/-- Tokens none of which ends an argument. -/
def Unbroken (ts : List Token) : Prop :=
  ∀ t ∈ ts, t ≠ .comma ∧ t ≠ .closing

theorem endsArgument_iff (l : Lexeme) :
    endsArgument l = true ↔ l.token = .comma ∨ l.token = .closing := by
  simp [endsArgument]

theorem argument_append_afterArgument (ls : List Lexeme) : argument ls ++ afterArgument ls = ls :=
  List.takeWhile_append_dropWhile

theorem unbroken_argument (ls : List Lexeme) : Unbroken ((argument ls).map Lexeme.token) := by
  intro t ht
  obtain ⟨l, hl, rfl⟩ := List.mem_map.1 ht
  have hends := (List.all_takeWhile : ((argument ls).all fun l => !endsArgument l) = true)
  simpa [endsArgument] using List.all_eq_true.1 hends l hl

theorem not_closing_of_mem_argument (ls : List Lexeme) :
    ∀ l ∈ argument ls, l.token ≠ .closing :=
  fun _ hl => (unbroken_argument ls _ (List.mem_map_of_mem hl)).2

/-- What stands behind an argument starts with a comma or a closing parenthesis. -/
theorem endsArgument_of_afterArgument {ls rest : List Lexeme} {l : Lexeme}
    (h : afterArgument ls = l :: rest) : l.token = .comma ∨ l.token = .closing := by
  have hhead := List.head?_dropWhile_not (fun l => !endsArgument l) ls
  rw [afterArgument] at h
  rw [h, List.head?_cons] at hhead
  exact (endsArgument_iff l).1 (by simpa using hhead)

/-- An argument reaches up to the first token that ends it. -/
theorem split_argument {part : List Lexeme} {l : Lexeme} (rest : List Lexeme)
    (hpart : Unbroken (part.map Lexeme.token)) (hl : l.token = .comma ∨ l.token = .closing) :
    argument (part ++ l :: rest) = part ∧ afterArgument (part ++ l :: rest) = l :: rest := by
  have hends : endsArgument l = true := (endsArgument_iff l).2 hl
  have hopen : ∀ x ∈ part, (!endsArgument x) = true := by
    intro x hx
    have h := hpart x.token (List.mem_map_of_mem hx)
    simpa [endsArgument] using h
  constructor
  · rw [argument, List.takeWhile_append_of_pos hopen, List.takeWhile_cons_of_neg (by simp [hends]),
      List.append_nil]
  · rw [afterArgument, List.dropWhile_append_of_pos hopen,
      List.dropWhile_cons_of_neg (by simp [hends])]

/-- The tokens of the parts that a call is split into. -/
def yields (parts : List (Place × List Lexeme)) : List (List Token) :=
  parts.map fun part => part.2.map Lexeme.token

/-- The equation of `arguments?`, without the proof that it ends. -/
theorem arguments?_eq (stop : Place) (ls : List Lexeme) :
    arguments? stop ls =
      match afterArgument ls with
      | [] => none
      | l :: rest =>
        let first := (Lexeme.start stop ls, argument ls)
        if l.token = .comma then
          (arguments? stop rest).map fun more => (first :: more.1, more.2)
        else some ([first], rest) := by
  rw [arguments?]
  split
  · next h => simp only [h]
  · next h => simp only [h]

/-- What is split was the parts with commas between them and a closing parenthesis behind. -/
theorem arguments?_sound (stop : Place) (ls : List Lexeme) {parts : List (Place × List Lexeme)}
    {rest : List Lexeme} (h : arguments? stop ls = some (parts, rest)) :
    parts ≠ [] ∧ (∀ part ∈ yields parts, Unbroken part) ∧
      ls.map Lexeme.token = separated (yields parts) ++ .closing :: rest.map Lexeme.token := by
  fun_induction arguments? stop ls generalizing parts rest with
  | case1 ls hafter => exact absurd h (by simp)
  | case2 ls l tail hafter _ first =>
      rename_i hcomma ih
      have htail := argument_append_afterArgument ls
      simp only [Option.map_eq_some_iff, Prod.mk.injEq] at h
      obtain ⟨⟨more, rest'⟩, hmore, rfl, rfl⟩ := h
      obtain ⟨hne, hunbroken, htokens⟩ := ih hmore
      obtain ⟨next, others, rfl⟩ := List.exists_cons_of_ne_nil hne
      refine ⟨List.cons_ne_nil _ _, ?_, ?_⟩
      · intro part hpart
        obtain rfl | hpart := List.mem_cons.1 hpart
        · exact unbroken_argument ls
        · exact hunbroken part hpart
      · conv_lhs => rw [← htail, hafter, List.map_append, List.map_cons, htokens, hcomma]
        simp only [yields, List.map_cons, Grammar.separated_cons_cons, List.append_assoc,
          List.cons_append, first]
  | case3 ls l tail hafter _ first =>
      rename_i hcomma
      have htail := argument_append_afterArgument ls
      have hclosing := (endsArgument_of_afterArgument hafter).resolve_left hcomma
      simp only [Option.some.injEq, Prod.mk.injEq] at h
      obtain ⟨rfl, rfl⟩ := h
      refine ⟨List.cons_ne_nil _ _, by simpa [yields] using unbroken_argument ls, ?_⟩
      conv_lhs => rw [← htail, hafter, List.map_append, List.map_cons, hclosing]
      simp [yields, Grammar.separated_singleton, first]

/-- Parts with commas between them and a closing parenthesis behind are what is split. -/
theorem arguments?_complete (stop : Place) {parts : List (List Token)} (hne : parts ≠ [])
    (hparts : ∀ part ∈ parts, Unbroken part) {ls : List Lexeme}
    (h : ls.map Lexeme.token = separated parts ++ [.closing]) :
    ∃ found, arguments? stop ls = some (found, []) ∧ yields found = parts := by
  induction parts generalizing ls with
  | nil => exact absurd rfl hne
  | cons part more ih =>
      cases more with
      | nil =>
          rw [Grammar.separated_singleton] at h
          obtain ⟨first, last, rfl, rfl, hlast⟩ := List.map_eq_append_iff.1 h
          obtain ⟨l, rfl, hl⟩ := List.map_eq_singleton_iff.1 hlast
          obtain ⟨hargument, hafter⟩ :=
            split_argument [] (hparts _ (List.mem_cons_self)) (.inr hl)
          refine ⟨[(Lexeme.start stop (first ++ [l]), first)], ?_, rfl⟩
          rw [arguments?_eq, hafter, hargument]
          exact if_neg (by simp [hl])
      | cons next others =>
          rw [Grammar.separated_cons_cons, List.append_assoc, List.cons_append] at h
          obtain ⟨first, last, rfl, rfl, hlast⟩ := List.map_eq_append_iff.1 h
          obtain ⟨l, tail, rfl, hl, htail⟩ := List.map_eq_cons_iff.1 hlast
          obtain ⟨hargument, hafter⟩ :=
            split_argument tail (hparts _ (List.mem_cons_self)) (.inl hl)
          obtain ⟨found, hfound, hyields⟩ := ih (List.cons_ne_nil _ _)
            (fun part hpart => hparts part (List.mem_cons_of_mem _ hpart)) htail
          refine ⟨(Lexeme.start stop (first ++ l :: tail), first) :: found, ?_, ?_⟩
          · rw [arguments?_eq, hafter, hargument]
            dsimp only
            rw [if_pos hl, hfound, Option.map_some]
          · rw [yields, List.map_cons, ← yields, hyields]

/-! ## Summands -/

/-- What is not split off starts with a sign. -/
theorem splitSummand_snd (depth : Nat) (ls : List Lexeme) :
    (splitSummand depth ls).2 = [] ∨
      ∃ l rest, (splitSummand depth ls).2 = l :: rest ∧ (l.token = .plus ∨ l.token = .minus) := by
  fun_induction splitSummand depth ls with
  | case1 => exact .inl rfl
  | case2 depth l ls h ih => exact ih
  | case3 depth l ls h ih => exact ih
  | case4 l ls h => exact .inr ⟨l, ls, rfl, .inl h⟩
  | case5 depth l ls h hdepth ih => exact ih
  | case6 l ls h => exact .inr ⟨l, ls, rfl, .inr h⟩
  | case7 depth l ls h hdepth ih => exact ih
  | case8 depth l ls _ _ _ _ ih => exact ih

/-- What follows a summand that is split off is a sign. -/
theorem sign_of_splitSummand {depth : Nat} {ls summand after : List Lexeme}
    (h : splitSummand depth ls = (summand, after)) :
    ∀ l ∈ after.head?, l.token = .plus ∨ l.token = .minus := by
  have hbehind := splitSummand_snd depth ls
  rw [h] at hbehind
  obtain rfl | ⟨l, more, rfl, hl⟩ := hbehind
  · simp
  · simpa using hl

/-- Whether a token with this many open parentheses around it neither opens nor closes one nor ends
a summand. -/
def Passes (depth : Nat) (t : Token) : Prop :=
  t ≠ .opening ∧ t ≠ .closing ∧ (depth = 0 → t ≠ .plus ∧ t ≠ .minus)

theorem splitSummand_cons {depth : Nat} {l : Lexeme} (h : Passes depth l.token)
    (ls : List Lexeme) :
    splitSummand depth (l :: ls) =
      (l :: (splitSummand depth ls).1, (splitSummand depth ls).2) := by
  obtain ⟨hopening, hclosing, hsign⟩ := h
  rw [splitSummand]
  cases ht : l.token with
  | opening => exact absurd ht hopening
  | closing => exact absurd ht hclosing
  | plus => exact if_neg fun h => (hsign h).1 ht
  | minus => exact if_neg fun h => (hsign h).2 ht
  | _ => rfl

/-- What is split off is split off behind its first lexeme, too. -/
theorem splitSummand_of_cons {depth : Nat} {l : Lexeme} {rest after : List Lexeme}
    (hl : Passes depth l.token)
    (h : splitSummand depth (l :: rest ++ after) = (l :: rest, after)) :
    splitSummand depth (rest ++ after) = (rest, after) := by
  rw [List.cons_append, splitSummand_cons hl] at h
  obtain ⟨hfst, hsnd⟩ := Prod.mk.inj h
  exact Prod.ext (List.cons.inj hfst).2 hsnd

theorem splitSummand_append {depth : Nat} {front : List Lexeme}
    (h : ∀ t ∈ front.map Lexeme.token, Passes depth t) (ls : List Lexeme) :
    splitSummand depth (front ++ ls) =
      (front ++ (splitSummand depth ls).1, (splitSummand depth ls).2) := by
  induction front with
  | nil => rfl
  | cons l front ih =>
      rw [List.map_cons, List.forall_mem_cons] at h
      rw [List.cons_append, splitSummand_cons h.1, ih h.2]
      rfl

theorem mem_separated {t : Token} {parts : List (List Token)} (h : t ∈ separated parts) :
    t = .comma ∨ ∃ part ∈ parts, t ∈ part := by
  cases parts with
  | nil => exact absurd h List.not_mem_nil
  | cons part parts =>
      simp only [separated, List.mem_append, List.mem_flatMap, List.mem_cons] at h
      obtain h | ⟨next, hnext, rfl | h⟩ := h
      · exact .inr ⟨part, List.mem_cons_self, h⟩
      · exact .inl rfl
      · exact .inr ⟨next, List.mem_cons_of_mem _ hnext, h⟩

/-- An argument holds no parenthesis and no comma. -/
theorem argument_tokens {a : Grammar.Argument} {t : Token} (h : t ∈ a.tokens) :
    t ≠ .opening ∧ t ≠ .closing ∧ t ≠ .comma ∧ t ≠ .equals := by
  obtain ⟨name, offset⟩ := a
  cases offset with
  | none =>
      obtain rfl := List.mem_singleton.1 h
      simp
  | plus l =>
      simp only [Grammar.Argument.tokens, Grammar.Offset.tokens, List.mem_cons, List.not_mem_nil,
        or_false] at h
      obtain rfl | rfl | rfl := h <;> simp
  | minus l =>
      simp only [Grammar.Argument.tokens, Grammar.Offset.tokens, List.mem_cons, List.not_mem_nil,
        or_false] at h
      obtain rfl | rfl | rfl := h <;> simp

/-- A factor holds numbers and stars only. -/
theorem factor_tokens {f : Grammar.Factor} {t : Token} (h : t ∈ f.tokens) :
    (∃ l, t = .number l) ∨ t = .star := by
  cases f with
  | none => exact absurd h List.not_mem_nil
  | number l => exact .inl ⟨l, List.mem_singleton.1 h⟩
  | starred l =>
      obtain rfl | h := List.mem_cons.1 h
      · exact .inl ⟨l, rfl⟩
      · exact .inr (List.mem_singleton.1 h)

/-- Nothing to split off in front of a sign or of the end. -/
theorem splitSummand_sign {rest : List Lexeme}
    (h : ∀ l ∈ rest.head?, l.token = .plus ∨ l.token = .minus) :
    splitSummand 0 rest = ([], rest) := by
  cases rest with
  | nil => rfl
  | cons l rest =>
      rw [splitSummand]
      obtain hl | hl := h l rfl <;> rw [hl] <;> rfl

/-- **In front of a sign or the end, a written operand is split off whole.** -/
theorem splitSummand_operand {o : Grammar.Operand} {summand rest : List Lexeme}
    (h : summand.map Lexeme.token = o.tokens)
    (hrest : ∀ l ∈ rest.head?, l.token = .plus ∨ l.token = .minus) :
    splitSummand 0 (summand ++ rest) = (summand, rest) := by
  cases o with
  | number l =>
      have hpass : ∀ t ∈ summand.map Lexeme.token, Passes 0 t := by
        simp [h, Grammar.Operand.tokens, Passes]
      rw [splitSummand_append hpass, splitSummand_sign hrest, List.append_nil]
  | application a =>
      rw [Grammar.Operand.tokens, Grammar.Application.tokens, List.append_assoc,
        List.map_eq_append_iff] at h
      obtain ⟨front, tail, rfl, hfront, htail⟩ := h
      obtain ⟨name, tail, rfl, hname, htail⟩ := List.map_eq_cons_iff.1 htail
      obtain ⟨opening, tail, rfl, hopening, htail⟩ := List.map_eq_cons_iff.1 htail
      obtain ⟨inner, last, rfl, hinner, hlast⟩ := List.map_eq_append_iff.1 htail
      obtain ⟨closing, rfl, hclosing⟩ := List.map_eq_singleton_iff.1 hlast
      have hpass : ∀ t ∈ front.map Lexeme.token, Passes 0 t := by
        intro t ht
        rw [hfront] at ht
        obtain ⟨l, rfl⟩ | rfl := factor_tokens ht <;> simp [Passes]
      have hwithin : ∀ t ∈ inner.map Lexeme.token, Passes (0 + 1) t := by
        intro t ht
        rw [hinner] at ht
        obtain rfl | ⟨part, hpart, ht⟩ := mem_separated ht
        · simp [Passes]
        · obtain ⟨arg, -, rfl⟩ := List.mem_map.1 hpart
          obtain ⟨hop, hcl, -⟩ := argument_tokens ht
          exact ⟨hop, hcl, by simp⟩
      simp only [List.append_assoc, List.cons_append, List.nil_append]
      rw [splitSummand_append hpass, splitSummand_cons (by simp [hname, Passes]), splitSummand,
        hopening]
      simp only
      rw [splitSummand_append hwithin, splitSummand, hclosing]
      simp only [Nat.zero_add, Nat.sub_self, splitSummand_sign hrest, Prod.map, id]

end Parser

end GrowthOrder
