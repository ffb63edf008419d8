import GrowthOrder.Proofs.Recurrence.Parser
import GrowthOrder.Proofs.Token.Tiling
import GrowthOrder.Search.Dominant

/-!
# GrowthOrder.Proofs.Recurrence.Constants

Constants never affect the growth.  A number that is written as one more summand of a sum changes
neither the calls of the recurrence nor the search for its growth base.

* `Equation.isChain_tokens` — what the grammar generates can be written down without blanks.
* `parse_of_spelling` — a text that an equation is written in is read as this equation.
* `Sum.Inserted.exists_terms` — a further summand leaves the terms in front of it and behind it.
* `dominantRoot_congr` — the search sees the calls and the count of variables only.
* `parse_of_inserted` — what these come to.
-/

namespace GrowthOrder

namespace Token

/-! ## Tokens in a row -/

/-- A sign may stand in front of any token. -/
theorem mayPrecede_of_left {t : Token} (h : t.isWord = false) (u : Token) : t.MayPrecede u := by
  cases t with
  | name s => exact absurd h Bool.noConfusion
  | number l => exact absurd h Bool.noConfusion
  | _ => trivial

/-- A sign may stand behind any token. -/
theorem mayPrecede_of_right (t : Token) {u : Token} (h : u.isWord = false) : t.MayPrecede u := by
  cases t with
  | name s => exact h
  | number l =>
      cases u with
      | number l' => exact absurd h Bool.noConfusion
      | _ => trivial
  | _ => trivial

variable {ts us : List Token}

/-- A sign may stand between any tokens. -/
theorem isChain_sign {t : Token} (ht : t.isWord = false) (hts : ts.IsChain MayPrecede)
    (hus : us.IsChain MayPrecede) : (ts ++ t :: us).IsChain MayPrecede := by
  refine List.isChain_append.2 ⟨hts, ?_, ?_⟩
  · exact hus.cons fun u _ => mayPrecede_of_left ht u
  · intro u _ v hv
    obtain rfl := Option.some.inj hv
    exact mayPrecede_of_right u ht

/-- Stretches of tokens may stand behind each other with signs in front of them. -/
theorem isChain_flatMap {β : Type} {sign : β → Token} {body : β → List Token} {items : List β}
    (hsign : ∀ x, (sign x).isWord = false) (hbody : ∀ x ∈ items, (body x).IsChain MayPrecede)
    (hts : ts.IsChain MayPrecede) :
    (ts ++ items.flatMap fun x => sign x :: body x).IsChain MayPrecede := by
  induction items generalizing ts with
  | nil => simpa using hts
  | cons x items ih =>
      rw [List.forall_mem_cons] at hbody
      rw [List.flatMap_cons, ← List.append_assoc]
      exact ih hbody.2 (isChain_sign (hsign x) hts hbody.1)

end Token

namespace Grammar

open Token (isChain_sign isChain_flatMap)

theorem isChain_separated {parts : List (List Token)}
    (h : ∀ part ∈ parts, part.IsChain Token.MayPrecede) :
    (separated parts).IsChain Token.MayPrecede := by
  cases parts with
  | nil => exact .nil
  | cons part parts =>
      rw [List.forall_mem_cons] at h
      exact isChain_flatMap (fun _ => rfl) h.2 h.1

theorem Argument.isChain_tokens (a : Argument) : a.tokens.IsChain Token.MayPrecede := by
  obtain ⟨name, _ | l | l⟩ := a
  · exact .singleton _
  · exact isChain_sign (t := .plus) rfl (.singleton (.name name)) (.singleton (.number l))
  · exact isChain_sign (t := .minus) rfl (.singleton (.name name)) (.singleton (.number l))

/-- A name with something in parentheses behind it. -/
theorem isChain_parenthesized (name : String) {ts : List Token}
    (h : ts.IsChain Token.MayPrecede) :
    (Token.name name :: .opening :: ts ++ [Token.closing]).IsChain Token.MayPrecede := by
  have hopening : ([Token.name name] ++ .opening :: ts).IsChain Token.MayPrecede :=
    isChain_sign rfl (.singleton _) h
  exact isChain_sign (t := .closing) rfl hopening .nil

theorem Operand.isChain_tokens (o : Operand) : o.tokens.IsChain Token.MayPrecede := by
  cases o with
  | number l => exact .singleton _
  | application a =>
      obtain ⟨f, function, first, others⟩ := a
      have harguments : (separated ((first :: others).map Argument.tokens)).IsChain
          Token.MayPrecede := by
        refine isChain_separated fun part hpart => ?_
        obtain ⟨a, -, rfl⟩ := List.mem_map.1 hpart
        exact a.isChain_tokens
      have hcall := isChain_parenthesized function harguments
      cases f with
      | none => exact hcall
      -- a number may stand right in front of a name
      | number l => exact .cons_cons trivial hcall
      | starred l => exact isChain_sign (t := .star) rfl (.singleton (.number l)) hcall

theorem Summand.isChain_tokens (s : Summand) : s.tokens.IsChain Token.MayPrecede := by
  obtain ⟨_ | _, o⟩ := s
  · exact o.isChain_tokens
  · exact isChain_sign (t := .minus) rfl .nil o.isChain_tokens

theorem Sum.isChain_tokens (s : Sum) : s.tokens.IsChain Token.MayPrecede := by
  refine isChain_flatMap (fun next => ?_) (fun next _ => next.2.isChain_tokens)
    s.first.isChain_tokens
  cases next.1 <;> rfl

theorem Header.isChain_tokens (h : Header) : h.tokens.IsChain Token.MayPrecede := by
  refine isChain_parenthesized _ (isChain_separated fun part hpart => ?_)
  obtain ⟨name, -, rfl⟩ := List.mem_map.1 hpart
  exact .singleton _

/-- **What the grammar generates can be written down without blanks:** no two names touch, nor two
numbers, and no name stands in front of a number. -/
theorem Equation.isChain_tokens (e : Equation) : e.tokens.IsChain Token.MayPrecede :=
  isChain_sign rfl e.left.isChain_tokens e.right.isChain_tokens

/-- A text that this equation was read from: its variables and calls agree, and its tokens are those
of the text. -/
structure Equation.IsReadFrom (e : Equation) (text : String) : Prop where
  isScoped : e.Scoped
  tokens : ∃ ls, Lexer.tokens (Glyph.scan text).1 = .ok ls ∧ ls.map Lexeme.token = e.tokens

end Grammar

open Grammar

/-! ## Reading equations -/

theorem Recurrence.parse_of_isReadFrom {e : Equation} {text : String} (h : e.IsReadFrom text) :
    parse text = .ok e.recurrence := by
  obtain ⟨hscoped, ls, hls, htokens⟩ := h
  rw [parse, hls]
  exact Parser.recurrence_complete (Lexer.isValid_of_tokens hls) htokens hscoped

theorem Recurrence.exists_isReadFrom {text : String} {r : Recurrence Float}
    (h : parse text = .ok r) : ∃ e : Equation, e.IsReadFrom text ∧ r = e.recurrence := by
  obtain ⟨ls, hls, e, htokens, hscoped, rfl, -⟩ := exists_scoped_of_parse h
  exact ⟨e, ⟨hscoped, ls, hls, htokens⟩, rfl⟩

theorem Grammar.Equation.IsReadFrom.written {e : Equation} {text : String}
    (h : e.IsReadFrom text) : ∀ t ∈ e.tokens, t.IsWritten := by
  obtain ⟨-, ls, hls, htokens⟩ := h
  rw [← htokens]
  intro t ht
  obtain ⟨l, hl, rfl⟩ := List.mem_map.1 ht
  exact (Lexer.tokens_eq_ok_iff.1 hls).written l hl

/-- An equation is read from every text that it is written in, with whatever blanks. -/
theorem Grammar.Equation.isReadFrom_of_spelling {e : Equation} (hscoped : e.Scoped)
    (hwritten : ∀ t ∈ e.tokens, t.IsWritten) {text : String}
    (h : Text.strip text.toList = e.tokens.flatMap Token.spelling) : e.IsReadFrom text :=
  ⟨hscoped, Lexer.tokens_of_mayPrecede hwritten e.isChain_tokens h⟩

/-! ## One more summand -/

namespace Grammar

/-- A sum and the same sum with one more summand `t`, which is added in front of the first summand,
behind the last one, or between two.  Each summand keeps its sign; a minus sign that belongs to the
first summand may become the sign between `t` and this summand. -/
inductive Sum.Inserted (t : Summand) : Sum → Sum → Prop
  | first (s : Sum) : Inserted t s ⟨t, (.plus, s.first) :: s.others⟩
  | beforeMinus (o : Operand) (others : List (Sign × Summand)) :
      Inserted t ⟨⟨true, o⟩, others⟩ ⟨t, (.minus, ⟨false, o⟩) :: others⟩
  | behind (first : Summand) (before after : List (Sign × Summand)) :
      Inserted t ⟨first, before ++ after⟩ ⟨first, before ++ (.plus, t) :: after⟩

namespace Sum.Inserted

variable {t : Summand} {s s' : Sum}

/-- **The terms in front of a further summand and behind it stay.** -/
theorem exists_terms (h : Inserted t s s') :
    ∃ before after, s.terms = before ++ after ∧ s'.terms = before ++ t.term :: after := by
  cases h with
  | first => exact ⟨[], s.terms, rfl, rfl⟩
  | beforeMinus o others => exact ⟨[], _, rfl, rfl⟩
  | behind first before after =>
      refine ⟨first.term :: before.map fun next => next.2.term.signed next.1.isMinus,
        after.map fun next => next.2.term.signed next.1.isMinus, ?_, ?_⟩
      · rw [Sum.terms, List.map_append]
        rfl
      · rw [Sum.terms, List.map_append]
        rfl

theorem mem_operands (h : Inserted t s s') :
    ∀ o ∈ s'.operands, o = t.operand ∨ o ∈ s.operands := by
  cases h with
  | first => simp [Sum.operands]
  | beforeMinus o others => simp [Sum.operands]
  | behind first before after =>
      simp only [Sum.operands, List.map_append, List.map_cons, List.mem_cons, List.mem_append]
      tauto

/-- Apart from the tokens of the summand there is at most a plus sign more. -/
theorem mem_tokens (h : Inserted t s s') :
    ∀ u ∈ s'.tokens, u = .plus ∨ u ∈ t.tokens ∨ u ∈ s.tokens := by
  cases h with
  | first =>
      simp only [Sum.tokens, Sign.token, List.flatMap_cons, List.mem_cons, List.mem_append]
      tauto
  | beforeMinus o others =>
      simp only [Sum.tokens, Summand.tokens, Sign.token, List.flatMap_cons, List.mem_cons,
        List.mem_append, if_true, Bool.false_eq_true, if_false, List.not_mem_nil]
      tauto
  | behind first before after =>
      simp only [Sum.tokens, Sign.token, List.flatMap_append, List.flatMap_cons, List.mem_cons,
        List.mem_append]
      tauto

end Sum.Inserted

/-! ## One more number -/

theorem written_number (negated : Bool) {l : Literal} (hl : l.IsNumeral) :
    ∀ t ∈ (Summand.mk negated (.number l)).tokens, t.IsWritten := by
  cases negated with
  | false => exact List.forall_mem_singleton.2 hl
  | true => exact List.forall_mem_cons.2 ⟨trivial, List.forall_mem_singleton.2 hl⟩

/-- The term of a number is a constant. -/
theorem call?_number (negated : Bool) (l : Literal) :
    (Summand.mk negated (.number l)).term.call? = none := by
  rw [Summand.term, Operand.term, Term.signed_constant]
  rfl

/-- A number that is inserted leaves the calls. -/
theorem Sum.Inserted.calls {negated : Bool} {l : Literal} {s s' : Sum}
    (h : Inserted ⟨negated, .number l⟩ s s') : Term.calls s'.terms = Term.calls s.terms := by
  obtain ⟨before, after, hs, hs'⟩ := h.exists_terms
  rw [hs, hs', Term.calls, Term.calls, List.filterMap_append, List.filterMap_append,
    List.filterMap_cons_none (call?_number negated l)]

/-- A number fits in anywhere. -/
theorem Equation.Scoped.inserted {left : Header} {negated : Bool} {l : Literal} {s s' : Sum}
    (h : (Equation.mk left s).Scoped) (hs : Sum.Inserted ⟨negated, .number l⟩ s s') :
    (Equation.mk left s').Scoped where
  distinct := h.distinct
  fits o ho := by
    obtain rfl | ho := hs.mem_operands o ho
    · trivial
    · exact h.fits o ho

/-- An equation that is read from a text can be written with one more number. -/
theorem Equation.IsReadFrom.inserted {e : Equation} {text text' : String} (h : e.IsReadFrom text)
    {negated : Bool} {l : Literal} (hl : l.IsNumeral) {s : Sum}
    (hs : Sum.Inserted ⟨negated, .number l⟩ e.right s)
    (htext : Text.strip text'.toList = (Equation.mk e.left s).tokens.flatMap Token.spelling) :
    (Equation.mk e.left s).IsReadFrom text' := by
  have hold : ∀ t ∈ e.left.tokens ++ .equals :: e.right.tokens, t.IsWritten := h.written
  rw [List.forall_mem_append, List.forall_mem_cons] at hold
  obtain ⟨hleft, hequals, hright⟩ := hold
  have hnew : ∀ t ∈ s.tokens, t.IsWritten := by
    intro t ht
    obtain rfl | ht | ht := hs.mem_tokens t ht
    · trivial
    · exact written_number negated hl t ht
    · exact hright t ht
  refine Equation.isReadFrom_of_spelling (h.isScoped.inserted hs) ?_ htext
  exact List.forall_mem_append.2 ⟨hleft, List.forall_mem_cons.2 ⟨hequals, hnew⟩⟩

end Grammar

/-! ## The search -/

section Search

variable {α : Type} [Scalar α] {r r' : Recurrence α}

/-- The search for the growth base sees nothing but the calls and the variables. -/
theorem Recurrence.dominantRoot_congr (hparameters : r'.parameters = r.parameters)
    (hcalls : r'.calls = r.calls) : r'.dominantRoot = r.dominantRoot := by
  rw [dominantRoot, dominantRoot, Characteristic.ofRecurrence, Characteristic.ofRecurrence,
    hparameters, hcalls]

end Search

/-- **A constant does not affect the growth.**  Where one more number, perhaps with a minus sign of
its own, is added to the sum that a text was read as, before the first summand, behind the last one
or between two, with whatever blanks, the new text is read too.  It defines the same function of the
same variables by the same calls in the same order, and the search for its growth base finds the
same root in the same steps. -/
theorem Recurrence.parse_of_inserted {text : String} {r : Recurrence Float}
    (h : parse text = .ok r) :
    (∃ e : Equation, e.IsReadFrom text) ∧
    ∀ (e : Equation) (negated : Bool) (l : Literal) (s : Sum) (text' : String),
      e.IsReadFrom text → l.IsNumeral → Sum.Inserted ⟨negated, .number l⟩ e.right s →
      Text.strip text'.toList = (Equation.mk e.left s).tokens.flatMap Token.spelling →
      ∃ r', parse text' = .ok r' ∧ r'.signature = r.signature ∧ r'.calls = r.calls ∧
        r'.dominantRoot = r.dominantRoot := by
  obtain ⟨e, he, -⟩ := exists_isReadFrom h
  refine ⟨⟨e, he⟩, fun e negated l s text' he hl hs htext => ?_⟩
  obtain rfl : e.recurrence = r := Except.ok.inj ((parse_of_isReadFrom he).symm.trans h)
  have hcalls : (Equation.mk e.left s).recurrence.calls = e.recurrence.calls := by
    change Term.calls (Term.collect s.terms) = Term.calls (Term.collect e.right.terms)
    rw [Term.calls_collect, Term.calls_collect, hs.calls]
  exact ⟨_, parse_of_isReadFrom (he.inserted hl hs htext), rfl, hcalls,
    dominantRoot_congr rfl hcalls⟩

/-- A number between the summands of `T(n) = -T(n-1) + 2.5*T(n-2) - 3`, of which one keeps its minus
sign: both texts have the same two calls. -/
theorem Recurrence.parse_of_inserted_between :
    let one : Summand := ⟨true, .application ⟨.none, "T", ⟨"n", .minus ⟨['1'], []⟩⟩, []⟩⟩
    let two : Summand :=
      ⟨false, .application ⟨.starred ⟨['2'], ['5']⟩, "T", ⟨"n", .minus ⟨['2'], []⟩⟩, []⟩⟩
    let three : Summand := ⟨false, .number ⟨['3'], []⟩⟩
    let l : Literal := ⟨['7'], ['2', '5']⟩
    let e : Equation := ⟨⟨"T", "n", []⟩, ⟨one, [(.plus, two), (.minus, three)]⟩⟩
    let s : Sum := ⟨one, [(.plus, two), (.plus, ⟨true, .number l⟩), (.minus, three)]⟩
    (∃ r, parse "T(n) = -T(n-1) + 2.5*T(n-2) - 3" = .ok r ∧
      ∃ r', parse "T(n) = -T(n-1) + 2.5 * T(n-2) + - 7.25 - 3" = .ok r' ∧
        r.calls.length = 2 ∧ r'.signature = r.signature ∧ r'.calls = r.calls ∧
        r'.dominantRoot = r.dominantRoot) ∧
      e.IsReadFrom "T(n) = -T(n-1) + 2.5*T(n-2) - 3" ∧ l.IsNumeral ∧
      Sum.Inserted ⟨true, .number l⟩ e.right s := by
  intro one two three l e s
  have hl : l.IsNumeral := by decide +kernel
  have hinserted : Sum.Inserted ⟨true, .number l⟩ e.right s :=
    .behind one [(.plus, two)] [(.minus, three)]
  have hread : e.IsReadFrom "T(n) = -T(n-1) + 2.5*T(n-2) - 3" :=
    Equation.isReadFrom_of_spelling (by decide +kernel) (by decide +kernel) (by decide +kernel)
  have hparse := parse_of_isReadFrom hread
  obtain ⟨r', hr', hsignature, hcalls, hroot⟩ :=
    (parse_of_inserted hparse).2 e true l s "T(n) = -T(n-1) + 2.5 * T(n-2) + - 7.25 - 3" hread hl
      hinserted (by decide +kernel)
  exact ⟨⟨_, hparse, r', hr', by decide +kernel, hsignature, hcalls, hroot⟩, hread, hl, hinserted⟩

end GrowthOrder
