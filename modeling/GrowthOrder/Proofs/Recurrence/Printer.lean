import GrowthOrder.Proofs.Recurrence.Parser
import GrowthOrder.Recurrence.Printer

/-!
# GrowthOrder.Proofs.Recurrence.Printer

What the canonical text of a recurrence says.  The text of every part is a tree of the grammar
written out, `Writes`, and the tree denotes the part up to the signs of zeros:

* `exists_argument`, `exists_factor`, `exists_operand` — for the parts of a sum;
* `exists_sum` — for a sum, up to its like terms.
-/

namespace GrowthOrder

open Grammar
open Binary64 (Same)

/-! ## Amounts -/

namespace Decimal

/-- The literal of an amount. -/
def amountLiteral (x : Float) : Literal :=
  absLiteral (x + 0.0)

/-- Whether an amount starts with a minus sign. -/
def amountNegative (x : Float) : Bool :=
  Binary64.isNegative (x + 0.0)

theorem amountNegative_iff {x : Float} (h : x.isFinite = true) :
    amountNegative x = true ↔ x < 0.0 :=
  Binary64.isNegative_add_zero_iff h

theorem same_add_zero (x : Float) : Same (x + 0.0) x :=
  Binary64.same_add_zero x Binary64.isZero_zero

end Decimal

/-- A minus sign that may be there. -/
def minusChars (negative : Bool) : List Char :=
  if negative then ['-'] else []

namespace Decimal

theorem amount_toList {x : Float} (h : x.isFinite = true) :
    (amount x).toList = minusChars (amountNegative x) ++ (amountLiteral x).spelling := by
  rw [amount, text_plain ((same_add_zero x).isFinite.trans h), String.toList_append,
    String.toList_ofList, ← amountNegative, ← amountLiteral]
  cases amountNegative x <;> rfl

/-- **An amount reads back to its number, up to the sign of zero.** -/
theorem same_amount {x : Float} (h : x.isFinite = true) :
    Same (Parser.signed (amountNegative x) (amountLiteral x).value) x := by
  have hfinite := (same_add_zero x).isFinite.trans h
  rw [amountLiteral, value_absLiteral hfinite]
  exact (Binary64.same_signed_abs hfinite).trans (same_add_zero x)

end Decimal

/-! ## Tokens written out -/

/-- Characters that are some tokens written out, perhaps with blanks. -/
structure Writes (cs : List Char) (ts : List Token) : Prop where
  spelling : (cs.filter fun c => !Text.isBlank c) = ts.flatMap Token.spelling
  written : ∀ t ∈ ts, t.IsWritten
  apart : ts.IsChain Token.Apart

namespace Writes

variable {cs ds : List Char} {ts us : List Token}

theorem filter_eq_self (h : ∀ c ∈ cs, Text.isBlank c = false) :
    (cs.filter fun c => !Text.isBlank c) = cs :=
  List.filter_eq_self.2 fun c hc => by rw [h c hc, Bool.not_false]

theorem number {l : Literal} (h : l.IsNumeral) : Writes l.spelling [.number l] where
  spelling := by
    refine (filter_eq_self fun c hc => ?_).trans (List.append_nil _).symm
    have hpoint : Text.isBlank '.' = false := by decide +kernel
    rw [Literal.spelling] at hc
    split at hc
    · exact Text.isBlank_of_isDigit (h.whole c hc)
    · obtain hc | hc := List.mem_append.1 hc
      · exact Text.isBlank_of_isDigit (h.whole c hc)
      · obtain rfl | hc := List.mem_cons.1 hc
        · exact hpoint
        · exact Text.isBlank_of_isDigit (h.fraction c hc)
  written := by simpa [Token.IsWritten] using h
  apart := .singleton _

theorem name {s : String} (h : Name.isValid s = true) : Writes s.toList [.name s] where
  spelling := (Name.strip_toList h).trans (List.append_nil _).symm
  written := by simpa [Token.IsWritten] using h
  apart := .singleton _

theorem nil : Writes [] [] :=
  ⟨rfl, by simp, .nil⟩

/-- A blank in front says nothing. -/
theorem blank (h : Writes cs ts) : Writes (' ' :: cs) ts where
  spelling := by rw [List.filter_cons_of_neg (by decide +kernel), h.spelling]
  written := h.written
  apart := h.apart

/-- A blank behind says nothing. -/
theorem trailing (h : Writes cs ts) : Writes (cs ++ [' ']) ts where
  spelling := by
    rw [List.filter_append, h.spelling, List.filter_cons_of_neg (by decide +kernel),
      List.filter_nil, List.append_nil]
  written := h.written
  apart := h.apart

/-- A sign may stand between anything. -/
theorem sign {t : Token} {c : Char} (h : Writes cs ts) (ht : Token.ofSign? c = some t)
    (h' : Writes ds us) : Writes (cs ++ c :: ds) (ts ++ t :: us) := by
  have hspelling : t.spelling = [c] ∧ t.isWord = false ∧ t.IsWritten ∧ Text.isBlank c = false := by
    unfold Token.ofSign? at ht
    split at ht
    case h_8 => exact absurd ht (by simp)
    all_goals
      obtain rfl := Option.some.inj ht
      exact ⟨rfl, rfl, trivial, by decide +kernel⟩
  obtain ⟨hc, hword, hwritten, hblank⟩ := hspelling
  refine ⟨?_, ?_, ?_⟩
  · rw [List.filter_append, List.filter_cons_of_pos (by rw [hblank]; rfl), h.spelling, h'.spelling,
      List.flatMap_append, List.flatMap_cons, hc]
    rfl
  · exact List.forall_mem_append.2 ⟨h.written, List.forall_mem_cons.2 ⟨hwritten, h'.written⟩⟩
  · rw [List.isChain_append]
    refine ⟨h.apart, ?_, ?_⟩
    · cases us with
      | nil => exact .singleton t
      | cons u us => exact .cons_cons (fun h => absurd h (by simp [hword])) h'.apart
    · intro u _ v hv _
      obtain rfl := Option.some.inj hv
      exact hword

/-- **What is written out in a text is read from it.** -/
theorem tokens {text : String} (h : Writes text.toList ts) :
    ∃ ls, Lexer.tokens (Glyph.scan text).1 = .ok ls ∧ ls.map Lexeme.token = ts :=
  Lexer.tokens_of_spelling h.written h.apart ((Glyph.chars_scan text).trans h.spelling)

end Writes

/-! ## Arguments -/

/-- Texts with commas between them are tokens with commas between them. -/
theorem writes_separated {texts : List String} {parts : List (List Token)}
    (h : List.Forall₂ (fun text part => Writes text.toList part) texts parts) :
    Writes (String.intercalate ", " texts).toList (separated parts) := by
  induction h with
  | nil => exact Writes.nil
  | cons h hs ih =>
      cases hs with
      | nil => simpa [separated_singleton] using h
      | cons h' hs =>
          rw [String.intercalate_cons_cons, String.toList_append, String.toList_append,
            List.append_assoc, separated_cons_cons]
          exact h.sign (c := ',') rfl ih.blank

/-- A variable with its shift is written as an argument that denotes it. -/
theorem exists_argument {name : String} {s : Float} (hname : Name.isValid name = true)
    (hs : s.isFinite = true) :
    ∃ a : Argument, Writes (Call.argumentText name s).toList a.tokens ∧ a.name = name ∧
      Same a.shift s := by
  unfold Call.argumentText
  split
  · next hzero =>
    exact ⟨⟨name, .none⟩, Writes.name hname, rfl, ((Binary64.beq_iff s 0.0).1 hzero).1.symm⟩
  · split
    · next hneg =>
      have hfinite : (-s).isFinite = true := (Binary64.isFinite_neg s).trans hs
      have hsign : Decimal.amountNegative (-s) = false := by
        rw [← Bool.not_eq_true, Decimal.amountNegative_iff hfinite]
        exact Binary64.not_neg_lt_zero hneg
      have hamount := Decimal.amount_toList hfinite
      have hsame := Decimal.same_amount hfinite
      rw [hsign] at hamount hsame
      refine ⟨⟨name, .minus (Decimal.amountLiteral (-s))⟩, ?_, rfl, ?_⟩
      · rw [String.toList_append, String.toList_append, hamount, List.append_assoc]
        exact (Writes.name hname).sign (c := '-') rfl
          (Writes.number (Decimal.isNumeral_absLiteral _))
      · have hshift := (Binary64.same_zero_sub _).trans (Same.neg hsame)
        rwa [Binary64.neg_neg] at hshift
    · next hneg =>
      have hsign : Decimal.amountNegative s = false := by
        rwa [← Bool.not_eq_true, Decimal.amountNegative_iff hs]
      have hamount := Decimal.amount_toList hs
      have hsame := Decimal.same_amount hs
      rw [hsign] at hamount hsame
      refine ⟨⟨name, .plus (Decimal.amountLiteral s)⟩, ?_, rfl, hsame⟩
      rw [String.toList_append, String.toList_append, hamount, List.append_assoc]
      exact (Writes.name hname).sign (c := '+') rfl
        (Writes.number (Decimal.isNumeral_absLiteral _))

/-- Variables with their shifts are written as arguments that denote them. -/
theorem exists_arguments {names : List String} {ss : List Float}
    (hlength : names.length = ss.length) (hnames : ∀ name ∈ names, Name.isValid name = true)
    (hss : ∀ s ∈ ss, s.isFinite = true) :
    ∃ as : List Argument,
      List.Forall₂ (fun text part => Writes text.toList part)
        (List.zipWith Call.argumentText names ss) (as.map Argument.tokens) ∧
      as.map Argument.name = names ∧ List.Forall₂ Same (as.map Argument.shift) ss := by
  induction names generalizing ss with
  | nil =>
      obtain rfl := List.length_eq_zero_iff.1 hlength.symm
      exact ⟨[], .nil, rfl, .nil⟩
  | cons name names ih =>
      obtain ⟨s, ss, rfl⟩ := List.exists_cons_of_length_eq_add_one hlength.symm
      rw [List.forall_mem_cons] at hnames hss
      obtain ⟨a, hwrites, rfl, hshift⟩ := exists_argument hnames.1 hss.1
      obtain ⟨as, hmore, rfl, hshifts⟩ := ih (Nat.succ.inj hlength) hnames.2 hss.2
      exact ⟨a :: as, .cons hwrites hmore, rfl, .cons hshift hshifts⟩

/-! ## Summands -/

/-- A coefficient is written as a sign and a factor that denote it. -/
theorem exists_factor {k : Float} (hk : k.isFinite = true) :
    ∃ negative, ∃ f : Factor, ∃ front, (Call.factorText k).toList = minusChars negative ++ front ∧
      Same (Parser.signed negative f.coefficient) k ∧
      (front = [] ∧ f = .none ∨ ∃ l : Literal, l.IsNumeral ∧ front = l.spelling ++ ['*'] ∧
        f = .starred l) := by
  unfold Call.factorText
  split
  · next hone =>
    exact ⟨false, .none, [], rfl, ((Binary64.beq_iff k 1.0).1 hone).1.symm, .inl ⟨rfl, rfl⟩⟩
  · split
    · next hone =>
      exact ⟨true, .none, [], rfl, ((Binary64.beq_iff k (-1.0)).1 hone).1.symm, .inl ⟨rfl, rfl⟩⟩
    · refine ⟨Decimal.amountNegative k, .starred (Decimal.amountLiteral k), _, ?_,
        Decimal.same_amount hk, .inr ⟨_, Decimal.isNumeral_absLiteral _, rfl, rfl⟩⟩
      rw [String.toList_append, Decimal.amount_toList hk, List.append_assoc]
      rfl

/-- No word starts with a minus sign. -/
theorem head?_word {t : Token} (h : t.IsWritten) (hword : t.isWord = true) (rest : List Char) :
    (t.spelling ++ rest).head? ≠ some '-' := by
  obtain ⟨c, cs, hc, hcontinue, -⟩ := Token.exists_head h hword
  rw [hc, List.cons_append, List.head?_cons]
  rintro ⟨⟩
  exact absurd hcontinue (by decide +kernel)

section

variable {function : String} {parameters : List String}

/-- No coefficient, constant or shift of a term is an infinity or a NaN. -/
def Term.IsFinite : Term Float → Prop
  | constant x => x.isFinite = true
  | call c => c.coefficient.isFinite = true ∧ ∀ s ∈ c.shifts, s.isFinite = true

/-- A finite summand of a recurrence for this function of these variables. -/
def Term.Writable (function : String) (parameters : List String) : Term Float → Prop
  | constant x => x.isFinite = true
  | call c => c.function = function ∧ c.parameters = parameters ∧
      c.parameters.length = c.shifts.length ∧ c.coefficient.isFinite = true ∧
      ∀ s ∈ c.shifts, s.isFinite = true

/-- A summand is written as a sign and an operand that denote it. -/
theorem exists_operand (hfunction : Name.isValid function = true)
    (hparameters : ∀ name ∈ parameters, Name.isValid name = true) (hne : parameters ≠ [])
    {t : Term Float} (ht : t.Writable function parameters) :
    ∃ negative body, ∃ o : Operand, t.text.toList = minusChars negative ++ body ∧
      Writes body o.tokens ∧ body.head? ≠ some '-' ∧ o.Fits function parameters ∧
      (o.term.signed negative).Same t := by
  cases t with
  | constant x =>
      have hnumeral := Decimal.isNumeral_absLiteral (x + 0.0)
      refine ⟨Decimal.amountNegative x, _, .number (Decimal.amountLiteral x),
        Decimal.amount_toList ht, Writes.number hnumeral, ?_, trivial, ?_⟩
      · rw [← List.append_nil (Literal.spelling _)]
        exact head?_word (t := .number _) hnumeral rfl []
      · rw [Operand.term, Term.signed_constant]
        exact .constant (Decimal.same_amount ht)
  | call c =>
      obtain ⟨rfl, rfl, hlength, hcoefficient, hshifts⟩ := ht
      obtain ⟨negative, f, front, hfront, hsame, hfactor⟩ := exists_factor hcoefficient
      obtain ⟨as, hwrites, hnames, hss⟩ := exists_arguments hlength hparameters hshifts
      obtain ⟨first, others, rfl⟩ : ∃ first others, as = first :: others := by
        refine List.exists_cons_of_ne_nil ?_
        rintro rfl
        exact hne hnames.symm
      have hcall := (Writes.name hfunction).sign (c := '(') rfl
        ((writes_separated hwrites).sign (c := ')') rfl Writes.nil)
      refine ⟨negative, front ++ (c.function.toList ++ '(' :: ((String.intercalate ", "
        (List.zipWith Call.argumentText c.parameters c.shifts)).toList ++ [')'])),
        .application ⟨f, c.function, first, others⟩, ?_, ?_, ?_, ⟨rfl, hnames⟩, ?_⟩
      · simp only [Term.text, Call.text, String.toList_append, hfront, List.append_assoc]
        rfl
      · obtain ⟨rfl, rfl⟩ | ⟨l, hl, rfl, rfl⟩ := hfactor
        · exact hcall
        · rw [List.append_assoc]
          exact (Writes.number hl).sign (c := '*') rfl hcall
      · obtain ⟨rfl, rfl⟩ | ⟨l, hl, rfl, rfl⟩ := hfactor
        · exact head?_word (t := .name _) hfunction rfl _
        · rw [List.append_assoc]
          exact head?_word (t := .number _) hl rfl _
      · rw [Operand.term, Term.signed_call]
        exact .call ⟨hsame, rfl, hnames, hss⟩

/-! ## Sums -/

/-- The sign that stands in front of a summand after another one. -/
def signOf (negative : Bool) : Sign :=
  if negative then .minus else .plus

/-- Between summands, a minus sign at the front of a text becomes the sign between. -/
theorem joined_toList {text : String} {negative : Bool} {body : List Char}
    (h : text.toList = minusChars negative ++ body) (hbody : body.head? ≠ some '-') :
    (Recurrence.joined text).toList = ' ' :: (if negative then '-' else '+') :: ' ' :: body := by
  rw [Recurrence.joined, h]
  cases negative with
  | true => simp [minusChars]
  | false =>
      have htext : text = String.ofList body := by
        rw [← String.toList_inj, h, String.toList_ofList]
        rfl
      cases body with
      | nil => simp [minusChars, htext]
      | cons c cs =>
          have hc : c ≠ '-' := fun hc => hbody (by rw [hc]; rfl)
          simp [minusChars, htext, hc]

/-- More summands are written behind whatever is there as signs and summands that denote them. -/
theorem exists_others (hfunction : Name.isValid function = true)
    (hparameters : ∀ name ∈ parameters, Name.isValid name = true) (hne : parameters ≠ [])
    {ts : List (Term Float)} (hts : ∀ t ∈ ts, t.Writable function parameters) :
    ∃ others : List (Sign × Summand),
      (∀ cs tokens, Writes cs tokens →
        Writes (cs ++ (ts.map fun t => Recurrence.joined t.text).flatMap String.toList)
          (tokens ++ others.flatMap fun next => next.1.token :: next.2.tokens)) ∧
      (∀ next ∈ others, next.2.operand.Fits function parameters) ∧
      List.Forall₂ Term.Same (others.map fun next => next.2.term.signed next.1.isMinus) ts := by
  induction ts with
  | nil => exact ⟨[], fun cs tokens h => by simpa using h, by simp, .nil⟩
  | cons t ts ih =>
      rw [List.forall_mem_cons] at hts
      obtain ⟨others, hwrites, hfits, hsame⟩ := ih hts.2
      obtain ⟨negative, body, o, htext, hbody, hhead, hfit, hterm⟩ :=
        exists_operand hfunction hparameters hne hts.1
      refine ⟨(signOf negative, ⟨false, o⟩) :: others, ?_, ?_, .cons ?_ hsame⟩
      · intro cs tokens h
        have hnext : Writes ((cs ++ [' ']) ++ (if negative then '-' else '+') :: ' ' :: body)
            (tokens ++ (signOf negative).token :: o.tokens) := by
          cases negative with
          | true => exact h.trailing.sign rfl hbody.blank
          | false => exact h.trailing.sign rfl hbody.blank
        have hall := hwrites _ _ hnext
        rw [List.map_cons, List.flatMap_cons, joined_toList htext hhead]
        simpa [Summand.tokens] using hall
      · exact List.forall_mem_cons.2 ⟨hfit, hfits⟩
      · cases negative with
        | true => exact hterm
        | false => exact hterm

/-- A sum is written as signs and summands that denote the same collected terms. -/
theorem exists_sum (hfunction : Name.isValid function = true)
    (hparameters : ∀ name ∈ parameters, Name.isValid name = true) (hne : parameters ≠ [])
    {ts : List (Term Float)} (hts : ∀ t ∈ ts, t.Writable function parameters) :
    ∃ s : Sum, Writes (Recurrence.sumText ts).toList s.tokens ∧
      (∀ o ∈ s.operands, o.Fits function parameters) ∧
      List.Forall₂ Term.Same (Term.collect s.terms) (Term.collect ts) := by
  cases ts with
  | nil =>
      -- the empty sum is written as the constant zero, which collecting drops
      have hnumeral : (Literal.mk ['0'] []).IsNumeral := ⟨by simp, by simp, by simp⟩
      have hcounts : Term.counts (Term.constantSum
          [Term.constant (Literal.mk ['0'] []).value]) = false := by decide +kernel
      have hempty : Term.counts (Term.constantSum ([] : List (Term Float))) = false := by
        decide +kernel
      refine ⟨⟨⟨false, .number ⟨['0'], []⟩⟩, []⟩, Writes.number hnumeral, ?_, ?_⟩
      · simp [Sum.operands, Operand.Fits]
      · have hterms : (Sum.mk ⟨false, .number ⟨['0'], []⟩⟩ []).terms =
            [Term.constant (Literal.mk ['0'] []).value] := rfl
        rw [hterms, Term.collect, Term.collect, hcounts, hempty]
        exact .nil
  | cons t ts =>
      rw [List.forall_mem_cons] at hts
      obtain ⟨negative, body, o, htext, hbody, -, hfit, hterm⟩ :=
        exists_operand hfunction hparameters hne hts.1
      obtain ⟨others, hwrites, hfits, hsame⟩ := exists_others hfunction hparameters hne hts.2
      have hfirst : Writes t.text.toList (Summand.mk negative o).tokens := by
        rw [htext]
        cases negative with
        | true => exact Writes.nil.sign (c := '-') rfl hbody
        | false => exact hbody
      refine ⟨⟨⟨negative, o⟩, others⟩, ?_, ?_, Term.Same.collect (.cons hterm hsame)⟩
      · have hall := hwrites _ _ hfirst
        rw [Recurrence.sumText, String.toList_append, String.toList_join]
        exact hall
      · refine List.forall_mem_cons.2 ⟨hfit, fun o' ho' => ?_⟩
        obtain ⟨next, hnext, rfl⟩ := List.mem_map.1 ho'
        exact hfits next hnext

end

end GrowthOrder
