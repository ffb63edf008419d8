import GrowthOrder.Proofs.Binary64.Packing
import GrowthOrder.Proofs.Recurrence.Checks
import GrowthOrder.Proofs.Recurrence.LikeTerms
import GrowthOrder.Proofs.Recurrence.Splitting
import GrowthOrder.Proofs.Token.Lexer

/-!
# GrowthOrder.Proofs.Recurrence.Parser

The reader accepts exactly the grammar.  Each function of `Parser` has one lemma of the form
`f … = .ok x ↔ …` that says which trees it reads and what it makes of them; the lemma for a function
uses those for the functions it calls.  From left to right a lemma says that what is read is a tree,
from right to left that no tree is refused.
-/

namespace GrowthOrder

/-! ## Signs of terms -/

namespace Term

/-- The call of a term with a sign in front is the call with its coefficient signed. -/
theorem signed_call (negative : Bool) (c : Call Float) :
    (call c).signed negative =
      call { c with coefficient := Parser.signed negative c.coefficient } := by
  cases negative <;> rfl

theorem signed_constant (negative : Bool) (c : Float) :
    (constant c).signed negative = constant (Parser.signed negative c) := by
  cases negative <;> rfl

/-- Two minus signs in front of a term cancel. -/
theorem signed_signed (outer inner : Bool) (t : Term Float) :
    (t.signed inner).signed outer = t.signed (outer != inner) := by
  cases outer <;> cases inner <;> cases t <;> simp [signed, negate, Binary64.neg_neg]

end Term

namespace Parser

open Grammar

/-! ## Arguments -/

/-- A shift is read exactly from an argument at the expected variable. -/
theorem shift?_eq_some_iff {name : String} {part : List Lexeme} {s : Float} :
    shift? name part = some s ↔
      ∃ a : Argument, part.map Lexeme.token = a.tokens ∧ a.name = name ∧ a.shift = s := by
  constructor
  · intro h
    unfold shift? at h
    split at h
    · next found _ =>
      obtain ⟨rfl, hs⟩ := Option.ite_none_right_eq_some.1 h
      exact ⟨⟨found, .none⟩, rfl, rfl, Option.some.inj hs⟩
    · next found _ _ l _ =>
      obtain ⟨rfl, hs⟩ := Option.ite_none_right_eq_some.1 h
      exact ⟨⟨found, .plus l⟩, rfl, rfl, Option.some.inj hs⟩
    · next found _ _ l _ =>
      obtain ⟨rfl, hs⟩ := Option.ite_none_right_eq_some.1 h
      exact ⟨⟨found, .minus l⟩, rfl, rfl, Option.some.inj hs⟩
    · exact absurd h (by simp)
  · rintro ⟨⟨name, offset⟩, htokens, rfl, rfl⟩
    obtain ⟨⟨_, _⟩, more, rfl, rfl, hmore⟩ := List.map_eq_cons_iff.1 htokens
    cases offset with
    | none =>
        obtain rfl := List.map_eq_nil_iff.1 hmore
        exact if_pos rfl
    | plus l =>
        obtain ⟨⟨_, _⟩, last, rfl, rfl, hlast⟩ := List.map_eq_cons_iff.1 hmore
        obtain ⟨⟨_, _⟩, rfl, rfl⟩ := List.map_eq_singleton_iff.1 hlast
        exact if_pos rfl
    | minus l =>
        obtain ⟨⟨_, _⟩, last, rfl, rfl, hlast⟩ := List.map_eq_cons_iff.1 hmore
        obtain ⟨⟨_, _⟩, rfl, rfl⟩ := List.map_eq_singleton_iff.1 hlast
        exact if_pos rfl

/-- As many parts as variables are read as shifts exactly if they are arguments at these variables,
in the same order. -/
theorem shifts_eq_ok_iff (term : String) {names : List String}
    {parts : List (Place × List Lexeme)} {ss : List Float}
    (hlength : parts.length = names.length) :
    shifts term names parts = .ok ss ↔
      ∃ as : List Argument, yields parts = as.map Argument.tokens ∧
        as.map Argument.name = names ∧ as.map Argument.shift = ss := by
  induction names generalizing parts ss with
  | nil =>
      obtain rfl := List.length_eq_zero_iff.1 hlength
      constructor
      · intro h
        obtain rfl := Except.ok.inj h
        exact ⟨[], rfl, rfl, rfl⟩
      · rintro ⟨as, -, hnames, rfl⟩
        obtain rfl := List.map_eq_nil_iff.1 hnames
        rfl
  | cons name names ih =>
      obtain ⟨⟨place, part⟩, parts, rfl⟩ := List.exists_cons_of_length_eq_add_one hlength
      replace ih := fun ss => @ih parts ss (Nat.succ.inj hlength)
      rw [shifts]
      constructor
      · intro h
        split at h
        · exact absurd h (by simp)
        · next s hs =>
          obtain ⟨a, htokens, rfl, rfl⟩ := shift?_eq_some_iff.1 hs
          split at h
          · exact absurd h (by simp)
          · next ss' hss =>
            obtain rfl := Except.ok.inj h
            obtain ⟨as, hyields, rfl, rfl⟩ := (ih ss').1 hss
            refine ⟨a :: as, ?_, rfl, rfl⟩
            rw [List.map_cons, ← htokens, ← hyields]
            rfl
      · rintro ⟨as, hyields, hnames, rfl⟩
        obtain ⟨a, as, rfl, rfl, hrest⟩ := List.map_eq_cons_iff.1 hnames
        rw [yields, List.map_cons, List.map_cons, List.cons.injEq] at hyields
        rw [shift?_eq_some_iff.2 ⟨a, hyields.1, rfl, rfl⟩, (ih _).2 ⟨as, hyields.2, hrest, rfl⟩]
        rfl

/-! ## Calls and numbers -/

/-- Some factor is always read off, and what is left follows it. -/
theorem factor_sound (summand : List Lexeme) :
    ∃ f : Factor, summand.map Lexeme.token = f.tokens ++ (factor summand).2.map Lexeme.token ∧
      (factor summand).1 = f.coefficient := by
  unfold factor
  split
  · next l _ _ rest => exact ⟨.starred l, rfl, rfl⟩
  · next l _ rest _ => exact ⟨.number l, rfl, rfl⟩
  · exact ⟨.none, rfl, rfl⟩

/-- In front of a name, a factor is read off whole. -/
theorem factor_append {f : Factor} {front rest : List Lexeme} {name : String} {place : Place}
    (h : front.map Lexeme.token = f.tokens) :
    factor (front ++ ⟨.name name, place⟩ :: rest) =
      (f.coefficient, ⟨.name name, place⟩ :: rest) := by
  cases f with
  | none =>
      obtain rfl := List.map_eq_nil_iff.1 h
      rfl
  | number l =>
      obtain ⟨⟨_, _⟩, rfl, rfl⟩ := List.map_eq_singleton_iff.1 h
      rfl
  | starred l =>
      obtain ⟨⟨_, _⟩, more, rfl, rfl, hmore⟩ := List.map_eq_cons_iff.1 h
      obtain ⟨⟨_, _⟩, rfl, rfl⟩ := List.map_eq_singleton_iff.1 hmore
      rfl

/-- No argument is broken by the comma or the parenthesis behind it. -/
theorem unbroken_arguments (as : List Argument) :
    ∀ part ∈ as.map Argument.tokens, Unbroken part := by
  intro part hpart t ht
  obtain ⟨a, -, rfl⟩ := List.mem_map.1 hpart
  obtain ⟨-, hclosing, hcomma, -⟩ := argument_tokens ht
  exact ⟨hcomma, hclosing⟩

section

variable {header : Call Float} {whole : String × Place} {negative : Bool}

/-- **A summand is read as a call exactly if it is an application of the expected function at the
expected variables.** -/
theorem call_eq_ok_iff (hvalid : ∀ name ∈ header.function :: header.parameters,
      Name.isValid name = true) {summand : List Lexeme} {c : Call Float} :
    call header whole negative summand = .ok c ↔
      ∃ a : Application, summand.map Lexeme.token = a.tokens ∧ a.function = header.function ∧
        a.names = header.parameters ∧
        c = { a.call with coefficient := signed negative a.factor.coefficient } := by
  constructor
  · intro h
    obtain ⟨f, hfront, hcoefficient⟩ := factor_sound summand
    simp only [call] at h
    split at h
    · next function _ _ inner hrest =>
      split at h
      · exact absurd h (by simp)
      · next hfunction =>
        split at h
        · exact absurd h (by simp)
        · exact absurd h (by simp)
        · next parts hparts =>
          split at h
          · exact absurd h (by simp)
          · next hlength =>
            split at h
            · exact absurd h (by simp)
            · next ss hss =>
              obtain ⟨as, hyields, hnames, rfl⟩ := (shifts_eq_ok_iff _ (not_not.1 hlength)).1 hss
              obtain ⟨hne, -, hinner⟩ := arguments?_sound _ _ hparts
              rw [not_not.1 hfunction, Call.checked_eq_ok_iff.2
                ⟨by rw [← hnames, List.length_map, List.length_map], hvalid, rfl⟩] at h
              obtain rfl := Except.ok.inj h
              cases as with
              | nil => exact absurd (List.map_eq_nil_iff.1 hyields) hne
              | cons a as =>
                  refine ⟨⟨f, function, a, as⟩, ?_, not_not.1 hfunction, hnames, ?_⟩
                  · rw [hfront, hrest, List.map_cons, List.map_cons, hinner, hyields]
                    simp [Application.tokens, Application.arguments]
                  · rw [hcoefficient, ← hnames, ← not_not.1 hfunction]
                    rfl
    · exact absurd h (by simp)
  · rintro ⟨a, htokens, hfunction, hnames, rfl⟩
    rw [Application.tokens, List.append_assoc, List.map_eq_append_iff] at htokens
    obtain ⟨front, tail, rfl, hfront, htail⟩ := htokens
    obtain ⟨⟨_, _⟩, tail, rfl, rfl, hcall⟩ := List.map_eq_cons_iff.1 htail
    obtain ⟨⟨_, _⟩, inner, rfl, rfl, hinner⟩ := List.map_eq_cons_iff.1 hcall
    have hne : a.arguments.map Argument.tokens ≠ [] := List.cons_ne_nil _ _
    obtain ⟨parts, hparts, hyields⟩ :=
      arguments?_complete whole.2 hne (unbroken_arguments a.arguments) hinner
    have hlength : parts.length = header.parameters.length := by
      rw [← hnames, Application.names, List.length_map, ← List.length_map (f := Argument.tokens),
        ← hyields, yields, List.length_map]
    have hshifts := (shifts_eq_ok_iff whole.1 hlength).2 ⟨_, hyields, hnames, rfl⟩
    have hsame : header.parameters.length = (a.arguments.map Argument.shift).length := by
      rw [← hnames, Application.names, List.length_map, List.length_map]
    simp only [call, factor_append hfront, hparts, hshifts, hfunction, hlength, ne_eq,
      not_true_eq_false, if_false, Call.checked_eq_ok_iff.2 ⟨hsame, hvalid, rfl⟩]
    rw [Application.call, hnames, hfunction]

theorem term_of_ne_number {summand : List Lexeme} (h : ∀ l p, summand ≠ [⟨.number l, p⟩]) :
    term header whole negative summand =
      (call header whole negative summand).map .call := by
  rw [term]
  · cases call header whole negative summand <;> rfl
  · exact h

/-- **A summand without its sign is read exactly if it is an operand that fits.** -/
theorem term_eq_ok_iff (hvalid : ∀ name ∈ header.function :: header.parameters,
      Name.isValid name = true) {summand : List Lexeme} {t : Term Float} :
    term header whole negative summand = .ok t ↔
      ∃ o : Operand, summand.map Lexeme.token = o.tokens ∧
        o.Fits header.function header.parameters ∧ t = o.term.signed negative := by
  constructor
  · intro h
    unfold term at h
    split at h
    · next l _ =>
      obtain rfl := Except.ok.inj h
      exact ⟨.number l, rfl, trivial, (Term.signed_constant negative l.value).symm⟩
    · split at h
      · exact absurd h (by simp)
      · next c hc =>
        obtain rfl := Except.ok.inj h
        obtain ⟨a, htokens, hfunction, hnames, rfl⟩ := (call_eq_ok_iff hvalid).1 hc
        exact ⟨.application a, htokens, ⟨hfunction, hnames⟩,
          (Term.signed_call negative a.call).symm⟩
  · rintro ⟨o, htokens, hfits, rfl⟩
    cases o with
    | number l =>
        obtain ⟨⟨_, _⟩, rfl, rfl⟩ := List.map_eq_singleton_iff.1 htokens
        rw [term, Operand.term, Term.signed_constant]
    | application a =>
        have hcall : call header whole negative summand = .ok _ :=
          (call_eq_ok_iff hvalid).2 ⟨a, htokens, hfits.1, hfits.2, rfl⟩
        have hnumber : ∀ l place, summand ≠ [⟨.number l, place⟩] := by
          rintro l place rfl
          have hlength := congrArg List.length htokens
          simp [Operand.tokens, Application.tokens] at hlength
          omega
        rw [term, hcall, Operand.term, Term.signed_call]
        · rfl
        · exact hnumber

end

/-! ## Sums -/

/-- An operand starts with a word. -/
theorem operand_tokens (o : Operand) : ∃ t ts, o.tokens = t :: ts ∧ t.isWord = true := by
  cases o with
  | number l => exact ⟨.number l, [], rfl, rfl⟩
  | application a =>
      obtain ⟨_ | l | l, function, first, others⟩ := a
      · exact ⟨.name function, _, rfl, rfl⟩
      · exact ⟨.number l, _, rfl, rfl⟩
      · exact ⟨.number l, _, rfl, rfl⟩

/-- The tokens of a minus sign that may be there. -/
def signTokens (negated : Bool) : List Token :=
  if negated then [.minus] else []

theorem splitSign_sound (ls : List Lexeme) :
    ls.map Lexeme.token =
      signTokens (!(splitSign ls).1.isEmpty) ++ (splitSign ls).2.map Lexeme.token := by
  unfold splitSign
  split <;> rfl

/-- In front of an operand, exactly the sign is split off. -/
theorem splitSign_complete {negated : Bool} {o : Operand} {ls : List Lexeme} {more : List Token}
    (h : ls.map Lexeme.token = signTokens negated ++ (o.tokens ++ more)) :
    (!(splitSign ls).1.isEmpty) = negated ∧
      (splitSign ls).2.map Lexeme.token = o.tokens ++ more := by
  cases negated with
  | true =>
      obtain ⟨⟨_, _⟩, body, rfl, rfl, hbody⟩ := List.map_eq_cons_iff.1 h
      exact ⟨rfl, hbody⟩
  | false =>
      obtain ⟨t, ts, ho, hword⟩ := operand_tokens o
      have hhead := h
      rw [ho] at hhead
      obtain ⟨⟨t, place⟩, body, rfl, rfl, -⟩ := List.map_eq_cons_iff.1 hhead
      have hsplit : splitSign (⟨t, place⟩ :: body) = ([], ⟨t, place⟩ :: body) := by
        cases t with
        | minus => exact absurd hword Bool.false_ne_true
        | _ => rfl
      rw [hsplit]
      exact ⟨rfl, h⟩

/-- What follows a summand starts with a sign. -/
theorem head_others {others : List (Sign × Summand)} {ls : List Lexeme}
    (h : ls.map Lexeme.token = others.flatMap fun next => next.1.token :: next.2.tokens) :
    ∀ l ∈ ls.head?, l.token = .plus ∨ l.token = .minus := by
  rintro l hl
  cases others with
  | nil =>
      obtain rfl := List.map_eq_nil_iff.1 h
      exact absurd hl (by simp)
  | cons next others =>
      obtain ⟨l', rest, rfl, hl', -⟩ := List.map_eq_cons_iff.1 h
      obtain rfl := Option.some.inj hl
      rw [hl']
      cases next.1 with
      | plus => exact .inl rfl
      | minus => exact .inr rfl

section

variable {header : Call Float} (stop : Place)

/-- The terms of a sum with a sign in front of the first one. -/
def termsBehind (negative : Bool) (s : Sum) : List (Term Float) :=
  s.first.term.signed negative :: s.others.map fun next => next.2.term.signed next.1.isMinus

/-- The equation of `terms`, without the proof that it ends. -/
theorem terms_eq (header : Call Float) (stop : Place) (negative : Bool) (ls : List Lexeme) :
    terms header stop negative ls =
      let sign := (splitSign ls).1
      let split := splitSummand 0 (splitSign ls).2
      let whole := (Lexeme.spell (sign ++ split.1), Lexeme.start stop ls)
      if split.1 = [] then
        .error ⟨.expectedTerm ((splitSign ls).2.head?.map Lexeme.token), whole.1, whole.2⟩
      else (term header whole (negative != !sign.isEmpty) split.1).bind fun t =>
        match split.2 with
        | [] => .ok [t]
        | separator :: rest =>
          (terms header stop (separator.token == .minus) rest).map (t :: ·) := by
  rw [terms]
  dsimp only
  split_ifs
  · rfl
  · cases term header _ _ _ with
    | error _ => rfl
    | ok t =>
        simp only [Except.bind]
        split
        · next h => simp only [h]
        · next separator rest h =>
          simp only [h]
          cases terms header stop (separator.token == .minus) rest <;> rfl

theorem terms_sound (hvalid : ∀ name ∈ header.function :: header.parameters,
      Name.isValid name = true) {negative : Bool} {ls : List Lexeme} {ts : List (Term Float)}
    (h : terms header stop negative ls = .ok ts) :
    ∃ s : Sum, ls.map Lexeme.token = s.tokens ∧
      (∀ o ∈ s.operands, o.Fits header.function header.parameters) ∧
      ts = termsBehind negative s := by
  induction hn : ls.length using Nat.strong_induction_on generalizing negative ls ts with
  | _ n ih =>
  subst hn
  have hsign := splitSign_sound ls
  have hbody := append_splitSummand 0 (splitSign ls).2
  have hlength := length_splitSign_le ls
  rw [← hbody] at hsign hlength
  rw [terms] at h
  dsimp only at h
  split at h
  · exact absurd h (by simp)
  · split at h
    · exact absurd h (by simp)
    · next t ht =>
      obtain ⟨o, htokens, hfits, rfl⟩ := (term_eq_ok_iff hvalid).1 ht
      rw [List.map_append, htokens] at hsign
      split at h
      · next hrest =>
        obtain rfl := Except.ok.inj h
        refine ⟨⟨⟨!(splitSign ls).1.isEmpty, o⟩, []⟩, ?_, by simpa [Sum.operands] using hfits, ?_⟩
        · rw [hsign, hrest, List.map_nil]
          simp [Sum.tokens, Summand.tokens, signTokens]
        · simp only [termsBehind, Summand.term, Term.signed_signed, List.map_nil]
      · next l rest hrest =>
        rw [hrest, List.length_append, List.length_cons] at hlength
        split at h
        · exact absurd h (by simp)
        · next ts' hts =>
          obtain rfl := Except.ok.inj h
          obtain ⟨⟨first, others⟩, hmore, hothers, rfl⟩ := ih rest.length (by omega) hts rfl
          obtain ⟨sign, hl⟩ : ∃ sign : Sign, l.token = sign.token := by
            have hsplit : splitSummand 0 (splitSign ls).2 = (_, l :: rest) := Prod.ext rfl hrest
            obtain hl | hl := sign_of_splitSummand hsplit l rfl
            · exact ⟨.plus, hl⟩
            · exact ⟨.minus, hl⟩
          refine ⟨⟨⟨!(splitSign ls).1.isEmpty, o⟩, (sign, first) :: others⟩, ?_, ?_, ?_⟩
          · rw [hsign, hrest, List.map_cons, hl, hmore]
            simp [Sum.tokens, Summand.tokens, signTokens]
          · exact List.forall_mem_cons.2 ⟨hfits, hothers⟩
          · have hminus : (l.token == Token.minus) = sign.isMinus := by
              rw [hl]
              cases sign <;> rfl
            simp only [termsBehind, Summand.term, Term.signed_signed, List.map_cons, hminus]

/-- One step of reading a sum: a summand that fits is read, and the rest decides. -/
theorem terms_of_summand (hvalid : ∀ name ∈ header.function :: header.parameters,
      Name.isValid name = true) {negative negated : Bool} {o : Operand}
    {others : List (Sign × Summand)} {ls : List Lexeme}
    (h : ls.map Lexeme.token =
      (Summand.mk negated o).tokens ++ others.flatMap fun next => next.1.token :: next.2.tokens)
    (hfits : o.Fits header.function header.parameters) :
    ∃ rest : List Lexeme,
      (rest.map Lexeme.token = others.flatMap fun next => next.1.token :: next.2.tokens) ∧
      terms header stop negative ls = match rest with
        | [] => .ok [(Summand.mk negated o).term.signed negative]
        | separator :: rest => match terms header stop (separator.token == .minus) rest with
          | .error e => .error e
          | .ok ts => .ok ((Summand.mk negated o).term.signed negative :: ts) := by
  rw [Summand.tokens, List.append_assoc] at h
  obtain ⟨hsign, hbody⟩ := splitSign_complete h
  obtain ⟨summand, rest, hsplit, hsummand, hrest⟩ := List.map_eq_append_iff.1 hbody
  have hoperand := splitSummand_operand hsummand (head_others hrest)
  rw [← hsplit] at hoperand
  have hne : summand ≠ [] := by
    rintro rfl
    obtain ⟨t, ts, ho, -⟩ := operand_tokens o
    exact absurd (hsummand.trans ho) (by simp)
  have hterm (whole : String × Place) :
      term header whole (negative != negated) summand =
        .ok ((Summand.mk negated o).term.signed negative) := by
    refine (term_eq_ok_iff hvalid).2 ⟨o, hsummand, hfits, ?_⟩
    rw [Summand.term, Term.signed_signed]
  refine ⟨rest, hrest, ?_⟩
  rw [terms_eq, hoperand]
  dsimp only
  rw [if_neg hne, hsign, hterm]
  cases rest with
  | nil => rfl
  | cons separator rest =>
      simp only [Except.bind]
      cases terms header stop (separator.token == .minus) rest <;> rfl

theorem terms_complete (hvalid : ∀ name ∈ header.function :: header.parameters,
      Name.isValid name = true) (negative : Bool) (s : Sum) {ls : List Lexeme}
    (h : ls.map Lexeme.token = s.tokens)
    (hfits : ∀ o ∈ s.operands, o.Fits header.function header.parameters) :
    terms header stop negative ls = .ok (termsBehind negative s) := by
  obtain ⟨⟨negated, o⟩, others⟩ := s
  induction others generalizing negative negated o ls with
  | nil =>
      obtain ⟨rest, hrest, hterms⟩ :=
        terms_of_summand stop hvalid h (hfits o List.mem_cons_self)
      obtain rfl := List.map_eq_nil_iff.1 hrest
      exact hterms
  | cons next others ih =>
      obtain ⟨sign, negated', o'⟩ := next
      obtain ⟨ho, hothers⟩ := List.forall_mem_cons.1 hfits
      obtain ⟨rest, hrest, hterms⟩ := terms_of_summand stop hvalid h ho
      obtain ⟨l, rest, rfl, hl, htokens⟩ := List.map_eq_cons_iff.1 hrest
      have hminus : (l.token == Token.minus) = sign.isMinus := by
        rw [hl]
        cases sign <;> rfl
      dsimp only at hterms
      rw [hterms, hminus, ih sign.isMinus negated' o' htokens hothers]
      rfl

/-- **A sum is read exactly if all of its calls fit.** -/
theorem terms_eq_ok_iff (hvalid : ∀ name ∈ header.function :: header.parameters,
      Name.isValid name = true) {ls : List Lexeme} {ts : List (Term Float)} :
    terms header stop false ls = .ok ts ↔
      ∃ s : Sum, ls.map Lexeme.token = s.tokens ∧
        (∀ o ∈ s.operands, o.Fits header.function header.parameters) ∧ ts = s.terms := by
  constructor
  · exact terms_sound stop hvalid
  · rintro ⟨s, htokens, hfits, rfl⟩
    exact terms_complete stop hvalid false s htokens hfits

end

/-! ## The left-hand side -/

/-- The tokens of variables with commas between them. -/
def parameterTokens (names : List String) : List Token :=
  separated (names.map fun name => [.name name])

/-- The equation of `parameters`, without the proof that it ends. -/
theorem parameters_eq (stop : Place) (whole : String × Place) (before : List String)
    (ls : List Lexeme) :
    parameters stop whole before ls =
      match argument ls with
      | [⟨.name name, place⟩] =>
        if name ∈ before then .error ⟨.duplicateVariable, name, place⟩
        else match afterArgument ls with
          | [] => .error ⟨.invalidLeft, whole.1, whole.2⟩
          | l :: rest =>
            if l.token = .comma then parameters stop whole (before ++ [name]) rest
            else .ok (before ++ [name], rest)
      | part => .error ⟨.invalidVariable, Lexeme.spell part, Lexeme.start stop ls⟩ := by
  rw [parameters]
  generalize argument ls = part
  obtain _ | ⟨⟨t, place⟩, _ | ⟨l, more⟩⟩ := part
  · rfl
  · cases t with
    | name name =>
        dsimp only
        split_ifs
        · rfl
        · split <;> next h => simp only [h]
    | _ => rfl
  · cases t <;> rfl

theorem parameters_sound {stop : Place} {whole : String × Place} {before all : List String}
    {ls rest : List Lexeme} (h : parameters stop whole before ls = .ok (all, rest)) :
    ∃ names, names ≠ [] ∧ all = before ++ names ∧ (before.Nodup → all.Nodup) ∧
      ls.map Lexeme.token = parameterTokens names ++ .closing :: rest.map Lexeme.token := by
  fun_induction parameters stop whole before ls with
  | case1 => exact absurd h (by simp)
  | case2 => exact absurd h (by simp)
  | case3 before ls name place hargument hnew l tail hafter =>
      rename_i hcomma ih
      have hsplit := argument_append_afterArgument ls
      obtain ⟨names, hne, rfl, hnodup, htokens⟩ := ih h
      obtain ⟨next, others, rfl⟩ := List.exists_cons_of_ne_nil hne
      refine ⟨name :: next :: others, List.cons_ne_nil _ _, by simp, fun hb => hnodup ?_, ?_⟩
      · exact List.nodup_append'.2 ⟨hb, List.nodup_singleton name, by simpa using hnew⟩
      · rw [← hsplit, hargument, hafter, List.map_append, List.map_cons, List.map_cons, hcomma,
          htokens]
        rfl
  | case4 before ls name place hargument hnew l tail hafter =>
      rename_i hcomma
      have hsplit := argument_append_afterArgument ls
      have hclosing := (endsArgument_of_afterArgument hafter).resolve_left hcomma
      simp only [Except.ok.injEq, Prod.mk.injEq] at h
      obtain ⟨rfl, rfl⟩ := h
      refine ⟨[name], List.cons_ne_nil _ _, rfl, fun hb => ?_, ?_⟩
      · exact List.nodup_append'.2 ⟨hb, List.nodup_singleton name, by simpa using hnew⟩
      · rw [← hsplit, hargument, hafter, List.map_append, List.map_cons, List.map_cons, hclosing]
        rfl
  | case5 => exact absurd h (by simp)

theorem parameters_complete {stop : Place} {whole : String × Place} {before names : List String}
    {ls : List Lexeme} (hne : names ≠ []) (hnodup : (before ++ names).Nodup)
    (h : ls.map Lexeme.token = parameterTokens names ++ [.closing]) :
    parameters stop whole before ls = .ok (before ++ names, []) := by
  induction names generalizing before ls with
  | nil => exact absurd rfl hne
  | cons name names ih =>
      have hnew : name ∉ before := fun hmem =>
        (List.nodup_append'.1 hnodup).2.2 hmem List.mem_cons_self
      have hunbroken (place : Place) :
          Unbroken ([⟨.name name, place⟩].map Lexeme.token) := by simp [Unbroken]
      cases names with
      | nil =>
          obtain ⟨⟨_, place⟩, tail, rfl, rfl, htail⟩ := List.map_eq_cons_iff.1 h
          obtain ⟨l, rfl, hl⟩ := List.map_eq_singleton_iff.1 htail
          obtain ⟨hargument, hafter⟩ := split_argument [] (hunbroken place) (.inr hl)
          rw [List.singleton_append] at hargument hafter
          rw [parameters_eq, hargument, hafter]
          dsimp only
          rw [if_neg hnew, if_neg (by simp [hl])]
      | cons next others =>
          obtain ⟨⟨_, place⟩, tail, rfl, rfl, htail⟩ := List.map_eq_cons_iff.1 h
          obtain ⟨l, tail, rfl, hl, htokens⟩ := List.map_eq_cons_iff.1 htail
          obtain ⟨hargument, hafter⟩ := split_argument tail (hunbroken place) (.inl hl)
          rw [List.singleton_append] at hargument hafter
          rw [parameters_eq, hargument, hafter]
          dsimp only
          rw [if_neg hnew, if_pos hl, ih (List.cons_ne_nil _ _) (by simpa using hnodup) htokens]
          simp

/-- The call that a header denotes is built, since all of its names are valid. -/
theorem signature_call (h : Header)
    (hvalid : ∀ name ∈ h.function :: h.parameters, Name.isValid name = true) :
    Call.signature h.function h.parameters = .ok h.call :=
  Call.checked_eq_ok_iff.2 ⟨by rw [List.length_map], hvalid, rfl⟩

/-- Every name of a header is among its tokens. -/
theorem name_mem_tokens (h : Header) {name : String} (hname : name ∈ h.function :: h.parameters) :
    .name name ∈ h.tokens := by
  rw [Header.tokens]
  obtain rfl | hname := List.mem_cons.1 hname
  · exact List.mem_cons_self
  · refine List.mem_cons_of_mem _ (List.mem_cons_of_mem _ (List.mem_append_left _ ?_))
    obtain rfl | hname := List.mem_cons.1 hname
    · exact List.mem_cons_self
    · refine List.mem_append_right _ (List.mem_flatMap.2 ⟨[.name name], ?_, by simp⟩)
      exact List.mem_map_of_mem hname

/-- The names of a header are valid where those of its text are. -/
theorem valid_of_tokens {h : Header} {left : List Lexeme}
    (htokens : left.map Lexeme.token = h.tokens)
    (hvalid : ∀ name, .name name ∈ left.map Lexeme.token → Name.isValid name = true) :
    ∀ name ∈ h.function :: h.parameters, Name.isValid name = true :=
  fun name hname => hvalid name (htokens ▸ name_mem_tokens h hname)

/-- One name, a parenthesis and variables up to the end are a header. -/
theorem exists_header {stop place place' : Place} {whole : String × Place}
    {left inner : List Lexeme} {function : String} {names : List String}
    (hwords : (left.takeWhile fun l => l.token.isWord) = [⟨.name function, place⟩])
    (hrest : (left.dropWhile fun l => l.token.isWord) = ⟨.opening, place'⟩ :: inner)
    (hnames : parameters stop whole [] inner = .ok (names, [])) :
    ∃ h : Header, left.map Lexeme.token = h.tokens ∧ h.function = function ∧
      h.parameters = names ∧ names.Nodup := by
  have hleft := List.takeWhile_append_dropWhile (p := fun l : Lexeme => l.token.isWord)
    (l := left)
  obtain ⟨names, hne, rfl, hnodup, htokens⟩ := parameters_sound hnames
  obtain ⟨first, others, rfl⟩ := List.exists_cons_of_ne_nil hne
  refine ⟨⟨function, first, others⟩, ?_, rfl, rfl, hnodup List.nodup_nil⟩
  rw [← hleft, hwords, hrest, List.map_append, List.map_cons, List.map_cons, List.map_nil, htokens]
  rfl

/-- **A left-hand side is read exactly if it is a header with distinct variables.** -/
theorem signature_eq_ok_iff {stop : Place} {left : List Lexeme} {c : Call Float}
    (hvalid : ∀ name, .name name ∈ left.map Lexeme.token → Name.isValid name = true) :
    signature stop left = .ok c ↔
      ∃ h : Header, left.map Lexeme.token = h.tokens ∧ h.parameters.Nodup ∧ c = h.call := by
  constructor
  · intro h
    simp only [signature] at h
    split at h
    · exact absurd h (by simp)
    · next function _ _ inner hwords hrest =>
      split at h
      · exact absurd h (by simp)
      · split at h
        · exact absurd h (by simp)
        · next names hnames =>
          obtain ⟨header, htokens, rfl, rfl, hnodup⟩ := exists_header hwords hrest hnames
          rw [signature_call header (valid_of_tokens htokens hvalid)] at h
          obtain rfl := Except.ok.inj h
          exact ⟨header, htokens, hnodup, rfl⟩
        · exact absurd h (by simp)
    · exact absurd h (by simp)
    · exact absurd h (by simp)
  · rintro ⟨h, htokens, hnodup, rfl⟩
    have hcall := signature_call h (valid_of_tokens htokens hvalid)
    obtain ⟨⟨_, place⟩, tail, rfl, rfl, htail⟩ := List.map_eq_cons_iff.1 htokens
    obtain ⟨⟨_, place'⟩, inner, rfl, rfl, hinner⟩ := List.map_eq_cons_iff.1 htail
    have hhead : (inner.head?.any fun l => decide (l.token = Token.closing)) = false := by
      obtain ⟨⟨_, _⟩, _, rfl, rfl, -⟩ := List.map_eq_cons_iff.1 hinner
      rfl
    have hparameters (whole : String × Place) :
        parameters stop whole [] inner = .ok (h.parameters, []) :=
      parameters_complete (List.cons_ne_nil _ _) hnodup hinner
    simp only [signature, List.takeWhile_cons, List.dropWhile_cons, Token.isWord, if_true, hhead,
      hparameters, hcall, Bool.false_eq_true, if_false]

/-! ## Recurrences -/

/-- The terms of a sum are its operands with signs. -/
theorem exists_operand_of_mem_terms {s : Sum} {t : Term Float} (ht : t ∈ s.terms) :
    ∃ o ∈ s.operands, ∃ negative, t = o.term.signed negative := by
  obtain rfl | ht := List.mem_cons.1 ht
  · exact ⟨_, List.mem_cons_self, _, rfl⟩
  · obtain ⟨⟨sign, next⟩, hnext, rfl⟩ := List.mem_map.1 ht
    refine ⟨next.operand, ?_, _, Term.signed_signed _ _ _⟩
    exact List.mem_cons_of_mem _ (List.mem_map_of_mem (f := fun n => n.2.operand) hnext)

/-- The calls of a sum have the functions, variables and shifts of its operands. -/
theorem calls_terms_parts {P : String → List String → List Float → Prop} {s : Sum}
    (h : ∀ a, .application a ∈ s.operands → P a.function a.names (a.arguments.map Argument.shift)) :
    ∀ c ∈ Term.calls s.terms, P c.function c.parameters c.shifts := by
  intro c hc
  obtain ⟨t, ht, hc⟩ := List.mem_filterMap.1 hc
  obtain ⟨o, ho, negative, rfl⟩ := exists_operand_of_mem_terms ht
  cases o with
  | number l =>
      rw [Operand.term, Term.signed_constant] at hc
      exact absurd hc (by simp [Term.call?])
  | application a =>
      rw [Operand.term, Term.signed_call] at hc
      obtain rfl := Option.some.inj hc
      exact h a ho

/-- The calls of a sum whose operands fit are calls of one function at the same variables. -/
theorem calls_terms {function : String} {parameters : List String} {s : Sum}
    (hfits : ∀ o ∈ s.operands, o.Fits function parameters) :
    ∀ c ∈ Term.calls s.terms, c.function = function ∧ c.parameters = parameters :=
  calls_terms_parts (P := fun f ps _ => f = function ∧ ps = parameters) fun _ ha => hfits _ ha

/-- What a scoped equation denotes breaks no rule of the model. -/
theorem checked_recurrence {e : Equation} (h : e.Scoped) :
    Recurrence.checked e.left.call (Term.collect e.right.terms) = .ok e.recurrence := by
  have hone : ((1.0 : Float) == 1.0) = true := by decide +kernel
  have hzero : ((0.0 : Float) == 0.0) = true := by decide +kernel
  refine Recurrence.checked_eq_ok_iff.2 ⟨rfl, hone, fun s hs => ?_, h.distinct, ?_⟩
  · obtain ⟨-, -, rfl⟩ := List.mem_map.1 hs
    exact hzero
  · exact Term.calls_collect_parts (P := fun f ps _ => f = e.left.function ∧ ps = e.left.parameters)
      (calls_terms h.fits)

/-- What a scoped equation with valid names denotes has passed all checks. -/
theorem isChecked_recurrence {e : Equation} (h : e.Scoped)
    (hvalid : ∀ name ∈ e.left.function :: e.left.parameters, Name.isValid name = true) :
    e.recurrence.IsChecked where
  signature := signature_call e.left hvalid
  calls c hc := by
    have hrules := (Recurrence.checked_eq_ok_iff.1 (checked_recurrence h)).2
    obtain ⟨hfunction, hparameters⟩ := hrules.calls c hc
    have hterms : ∀ c ∈ Term.calls e.right.terms, c.parameters.length = c.shifts.length :=
      calls_terms_parts (P := fun _ ps ss => ps.length = ss.length)
        fun a _ => by simp [Application.names]
    have hlength := Term.calls_collect_parts (P := fun _ ps ss => ps.length = ss.length) hterms c hc
    exact Call.checked_eq_ok_iff.2 ⟨hlength, by rw [hfunction, hparameters]; exact hvalid, rfl⟩
  whole := checked_recurrence h

theorem equals_not_mem_header (h : Header) : Token.equals ∉ h.tokens := by
  intro hmem
  rw [Header.tokens, List.mem_append, List.mem_cons, List.mem_cons, List.mem_singleton] at hmem
  obtain (hmem | hmem | hmem) | hmem := hmem
  · exact Token.noConfusion hmem
  · exact Token.noConfusion hmem
  · obtain hmem | ⟨part, hpart, hmem⟩ := mem_separated hmem
    · exact Token.noConfusion hmem
    · obtain ⟨name, -, rfl⟩ := List.mem_map.1 hpart
      exact Token.noConfusion (List.mem_singleton.1 hmem)
  · exact Token.noConfusion hmem

theorem equals_not_mem_summand (s : Summand) : Token.equals ∉ s.tokens := by
  intro hmem
  rw [Summand.tokens, List.mem_append] at hmem
  obtain hmem | hmem := hmem
  · split at hmem
    · exact Token.noConfusion (List.mem_singleton.1 hmem)
    · exact absurd hmem List.not_mem_nil
  · cases ho : s.operand with
    | number l =>
        rw [ho] at hmem
        exact Token.noConfusion (List.mem_singleton.1 hmem)
    | application a =>
        rw [ho, Operand.tokens, Application.tokens, List.mem_append, List.mem_append,
          List.mem_cons, List.mem_cons, List.mem_singleton] at hmem
        obtain (hmem | hmem | hmem | hmem) | hmem := hmem
        · obtain ⟨l, hmem⟩ | hmem := factor_tokens hmem <;> exact Token.noConfusion hmem
        · exact Token.noConfusion hmem
        · exact Token.noConfusion hmem
        · obtain hmem | ⟨part, hpart, hmem⟩ := mem_separated hmem
          · exact Token.noConfusion hmem
          · obtain ⟨arg, -, rfl⟩ := List.mem_map.1 hpart
            exact (argument_tokens hmem).2.2.2 rfl
        · exact Token.noConfusion hmem

theorem equals_not_mem_sum (s : Sum) : Token.equals ∉ s.tokens := by
  intro hmem
  rw [Sum.tokens, List.mem_append, List.mem_flatMap] at hmem
  obtain hmem | ⟨⟨sign, next⟩, -, hmem⟩ := hmem
  · exact equals_not_mem_summand s.first hmem
  · obtain hmem | hmem := List.mem_cons.1 hmem
    · cases sign <;> exact Token.noConfusion hmem
    · exact equals_not_mem_summand next hmem

/-- Behind the four checks on the two sides stand an equals sign and the readers of the sides. -/
theorem recurrence_sides {stop : Place} {ls : List Lexeme} {r : Recurrence Float}
    (h : recurrence stop ls = .ok r) :
    ∃ left equals right start c ts, ls = left ++ equals :: right ∧ equals.token = .equals ∧
      signature start left = .ok c ∧ terms c stop false right = .ok ts ∧
      Recurrence.checked c (Term.collect ts) = .ok r := by
  have hsplit := List.takeWhile_append_dropWhile (p := fun l : Lexeme => l.token != .equals)
    (l := ls)
  have hhead := List.head?_dropWhile_not (fun l : Lexeme => l.token != .equals) ls
  simp only [recurrence] at h
  generalize ls.takeWhile (fun l : Lexeme => l.token != .equals) = left at h hsplit
  generalize ls.dropWhile (fun l : Lexeme => l.token != .equals) = fromEquals at h hsplit hhead
  split at h
  · exact absurd h (by simp)
  split at h
  · exact absurd h (by simp)
  split at h
  · exact absurd h (by simp)
  split at h
  · exact absurd h (by simp)
  next hright =>
    cases fromEquals with
    | nil => exact absurd rfl hright
    | cons equals right =>
        split at h
        · exact absurd h (by simp)
        · next c hc =>
          split at h
          · exact absurd h (by simp)
          · next ts hts =>
            split at h
            · exact absurd h (by simp)
            · next hr =>
              obtain rfl := Except.ok.inj h
              exact ⟨left, equals, right, _, c, ts, hsplit.symm, by simpa using hhead, hc, hts, hr⟩

theorem recurrence_sound {stop : Place} {ls : List Lexeme} {r : Recurrence Float}
    (hvalid : ∀ name, .name name ∈ ls.map Lexeme.token → Name.isValid name = true)
    (h : recurrence stop ls = .ok r) :
    ∃ e : Equation, ls.map Lexeme.token = e.tokens ∧ e.Scoped ∧ r = e.recurrence := by
  obtain ⟨left, equals, right, start, c, ts, rfl, hequals, hc, hts, hr⟩ := recurrence_sides h
  have hnames : ∀ name, .name name ∈ left.map Lexeme.token → Name.isValid name = true :=
    fun name hname => hvalid name (by simp [hname])
  obtain ⟨header, hheader, hdistinct, rfl⟩ := (signature_eq_ok_iff hnames).1 hc
  obtain ⟨s, htokens, hfits, rfl⟩ :=
    (terms_eq_ok_iff stop (valid_of_tokens hheader hnames)).1 hts
  have hscoped : (Equation.mk header s).Scoped := ⟨hdistinct, hfits⟩
  refine ⟨⟨header, s⟩, ?_, hscoped, ?_⟩
  · rw [List.map_append, List.map_cons, hheader, hequals, htokens]
    rfl
  · exact Except.ok.inj (hr.symm.trans (checked_recurrence hscoped))

/-- At its first equals sign a stretch falls into two sides. -/
theorem split_equals {left : List Lexeme} (hleft : ∀ l ∈ left, l.token ≠ .equals) {l : Lexeme}
    (hl : l.token = .equals) (right : List Lexeme) :
    (left ++ l :: right).takeWhile (fun l => l.token != .equals) = left ∧
      (left ++ l :: right).dropWhile (fun l => l.token != .equals) = l :: right := by
  constructor
  · rw [List.takeWhile_append_of_pos (by simpa using hleft),
      List.takeWhile_cons_of_neg (by simp [hl]), List.append_nil]
  · rw [List.dropWhile_append_of_pos (by simpa using hleft),
      List.dropWhile_cons_of_neg (by simp [hl])]

/-- Two sides without an equals sign, each of which is read, are read together. -/
theorem recurrence_of_sides {stop place : Place} {left right : List Lexeme} {c : Call Float}
    {ts : List (Term Float)} {r : Recurrence Float}
    (hleft : ∀ l ∈ left, l.token ≠ .equals) (hright : ∀ l ∈ right, l.token ≠ .equals)
    (hleft_ne : left ≠ []) (hright_ne : right ≠ []) (hc : ∀ start, signature start left = .ok c)
    (hts : terms c stop false right = .ok ts)
    (hr : Recurrence.checked c (Term.collect ts) = .ok r) :
    recurrence stop (left ++ ⟨.equals, place⟩ :: right) = .ok r := by
  obtain ⟨htake, hdrop⟩ := split_equals hleft (l := ⟨.equals, place⟩) rfl right
  have hcount : (left ++ (⟨.equals, place⟩ : Lexeme) :: right).countP
      (fun l => l.token == .equals) = 1 := by
    have hnone {side : List Lexeme} (h : ∀ l ∈ side, l.token ≠ .equals) :
        side.countP (fun l => l.token == .equals) = 0 :=
      List.countP_eq_zero.2 (by simpa using h)
    rw [List.countP_append, List.countP_cons, hnone hleft, hnone hright]
    rfl
  simp only [recurrence, htake, hdrop, hcount, List.drop_one, List.tail_cons, hleft_ne, hright_ne,
    hc, hts, hr, List.append_eq_nil_iff, reduceCtorEq, and_false, if_false, ne_eq,
    not_true_eq_false]

theorem recurrence_complete {stop : Place} {ls : List Lexeme} {e : Equation}
    (hvalid : ∀ name, .name name ∈ ls.map Lexeme.token → Name.isValid name = true)
    (htokens : ls.map Lexeme.token = e.tokens) (hscoped : e.Scoped) :
    recurrence stop ls = .ok e.recurrence := by
  obtain ⟨left, tail, rfl, hleft, htail⟩ := List.map_eq_append_iff.1 htokens
  obtain ⟨⟨_, place⟩, right, rfl, rfl, hright⟩ := List.map_eq_cons_iff.1 htail
  have hnames : ∀ name, .name name ∈ left.map Lexeme.token → Name.isValid name = true :=
    fun name hname => hvalid name (by simp [hname])
  have hleft_ne : left ≠ [] := by
    rintro rfl
    exact absurd hleft (by simp [Header.tokens])
  have hright_ne : right ≠ [] := by
    rintro rfl
    obtain ⟨t, ts, ho, -⟩ := operand_tokens e.right.first.operand
    exact absurd hright (by simp [Sum.tokens, Summand.tokens, ho])
  refine recurrence_of_sides (fun l hl h => ?_) (fun l hl h => ?_) hleft_ne hright_ne
    (fun start => ?_) ?_ (checked_recurrence hscoped)
  · exact equals_not_mem_header e.left (hleft ▸ h ▸ List.mem_map_of_mem hl)
  · exact equals_not_mem_sum e.right (hright ▸ h ▸ List.mem_map_of_mem hl)
  · exact (signature_eq_ok_iff hnames).2 ⟨e.left, hleft, hscoped.distinct, rfl⟩
  · exact (terms_eq_ok_iff stop (valid_of_tokens hleft hnames)).2
      ⟨e.right, hright, hscoped.fits, rfl⟩

/-- **A stretch of lexemes is read exactly if it is a scoped equation.** -/
theorem recurrence_eq_ok_iff {stop : Place} {ls : List Lexeme} {r : Recurrence Float}
    (hvalid : ∀ name, .name name ∈ ls.map Lexeme.token → Name.isValid name = true) :
    recurrence stop ls = .ok r ↔
      ∃ e : Equation, ls.map Lexeme.token = e.tokens ∧ e.Scoped ∧ r = e.recurrence := by
  constructor
  · exact recurrence_sound hvalid
  · rintro ⟨e, htokens, hscoped, rfl⟩
    exact recurrence_complete hvalid htokens hscoped

end Parser

/-- **A text is read exactly if its tokens are those of a scoped equation, and as the recurrence
that this equation denotes.**  The variables on the left are distinct, every call on the right is
one of the defined function at these variables in the same order, and nothing else is asked. -/
theorem Recurrence.parse_eq_ok_iff (text : String) (r : Recurrence Float) :
    Recurrence.parse text = .ok r ↔
      ∃ ls, Lexer.tokens (Glyph.scan text).1 = .ok ls ∧
        ∃ e : Grammar.Equation, ls.map Lexeme.token = e.tokens ∧ e.Scoped ∧ r = e.recurrence := by
  rw [Recurrence.parse]
  cases h : Lexer.tokens (Glyph.scan text).1 with
  | error e => simp
  | ok ls =>
      simp only [Parser.recurrence_eq_ok_iff (Lexer.isValid_of_tokens h), Except.ok.injEq,
        exists_eq_left']

/-- A text that is read is a scoped equation with valid names. -/
theorem Recurrence.exists_scoped_of_parse {text : String} {r : Recurrence Float}
    (h : parse text = .ok r) :
    ∃ ls, Lexer.tokens (Glyph.scan text).1 = .ok ls ∧
      ∃ e : Grammar.Equation, ls.map Lexeme.token = e.tokens ∧ e.Scoped ∧ r = e.recurrence ∧
        e.recurrence.IsChecked := by
  rw [parse] at h
  split at h
  · exact absurd h (by simp)
  · next ls hls =>
    have hvalid := Lexer.isValid_of_tokens hls
    obtain ⟨e, htokens, hscoped, hr⟩ := Parser.recurrence_sound hvalid h
    refine ⟨ls, hls, e, htokens, hscoped, hr, Parser.isChecked_recurrence hscoped ?_⟩
    intro name hname
    refine hvalid name ?_
    rw [htokens]
    exact List.mem_append_left _ (Parser.name_mem_tokens e.left hname)

theorem Recurrence.exists_ok (text : String) (h : (parse text).toOption.isSome = true) :
    ∃ r, parse text = .ok r := by
  cases hr : parse text with
  | ok r => exact ⟨r, rfl⟩
  | error e =>
      rw [hr] at h
      exact absurd h Bool.false_ne_true

end GrowthOrder
