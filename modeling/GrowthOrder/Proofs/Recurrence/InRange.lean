import GrowthOrder.Proofs.Recurrence.Cursor

/-!
# GrowthOrder.Proofs.Recurrence.InRange

Reading by positions never leaves its sequence of tokens and never stops short.  Each reader of
`Indexed` at a cursor does what the reader of `Parser` does with the lexemes that stand there:

* `Indexed.At.parameters`, `signature` on the left-hand side;
* `Indexed.At.arguments`, `shifts`, `application`, `call`, `term` for a summand, whose lexemes are
  cut off beforehand in `Parser` and only bounded by a position in `Indexed`;
* `Indexed.At.terms` for the sum, and `Indexed.At.recurrence` for the whole;
* `Indexed.parse_inRange`: no index is out of range, no loop uses up its rounds, and no fault is one
  of the model.
-/

namespace GrowthOrder

namespace Indexed

/-! ## Arguments -/

/-- What ends an argument here ends it in `Parser` too, an equals sign aside. -/
theorem endsArgument_eq {l : Lexeme} (h : l.token ≠ .equals) :
    Source.endsArgument (some l.token) = Parser.endsArgument l := by
  rw [Source.endsArgument, Parser.endsArgument]
  cases ht : l.token <;> simp_all

/-- The argument in front of `after` is the same whether or not one looks past its end. -/
theorem takeWhile_argument {part after : List Lexeme} (hpart : ∀ l ∈ part, l.token ≠ .equals)
    (hafter : Parser.afterArgument part = [] →
      ∀ l ∈ after.head?, Source.endsArgument (some l.token) = true) :
    ((part ++ after).takeWhile fun l => !Source.endsArgument (some l.token)) =
      Parser.argument part := by
  have hsplit := Parser.argument_append_afterArgument part
  have hopen : ∀ l ∈ Parser.argument part, (!Source.endsArgument (some l.token)) = true := by
    intro l hl
    have hends : (!Parser.endsArgument l) = true :=
      List.mem_takeWhile_imp (p := fun l => !Parser.endsArgument l) hl
    rwa [endsArgument_eq (hpart l (hsplit ▸ List.mem_append_left _ hl))]
  have hends : ∀ l ∈ (Parser.afterArgument part ++ after).head?,
      Source.endsArgument (some l.token) = true := by
    cases hrest : Parser.afterArgument part with
    | nil => exact hafter hrest
    | cons l rest =>
        intro l' hl'
        obtain rfl := Option.some.inj hl'
        obtain hl | hl := Parser.endsArgument_of_afterArgument hrest <;> rw [hl] <;> rfl
  conv_lhs => rw [← hsplit, List.append_assoc, List.takeWhile_append_of_pos hopen]
  cases hrest : Parser.afterArgument part ++ after with
  | nil => rw [List.takeWhile_nil, List.append_nil]
  | cons l rest =>
      rw [List.takeWhile_cons_of_neg (by simp [hends l (by rw [hrest]; rfl)]), List.append_nil]

namespace At

variable {text : String} {ls after : List Lexeme} {bound i : Nat}

/-- The index where an argument ends is that of what stands behind it. -/
theorem seek_argument {part : List Lexeme} (h : At text ls bound i (part ++ after))
    (hpart : ∀ l ∈ part, l.token ≠ .equals)
    (hafter : Parser.afterArgument part = [] →
      ∀ l ∈ after.head?, Source.endsArgument (some l.token) = true) :
    (Source.of text ls).seek Source.endsArgument bound i =
      .ok (i + (Parser.argument part).length) := by
  rw [h.seek rfl h.length_lt, takeWhile_argument hpart hafter]

/-- Behind an argument stands what follows it. -/
theorem afterArgument {part : List Lexeme} (h : At text ls bound i (part ++ after)) :
    At text ls bound (i + (Parser.argument part).length) (Parser.afterArgument part ++ after) := by
  rw [← Parser.argument_append_afterArgument part, List.append_assoc] at h
  exact h.append

theorem slice_argument {part : List Lexeme} (h : At text ls bound i (part ++ after)) :
    (Source.of text ls).slice i (i + (Parser.argument part).length) =
      .ok (Lexeme.spell (Parser.argument part)) := by
  rw [← Parser.argument_append_afterArgument part, List.append_assoc] at h
  exact h.slice

/-! ## The left-hand side -/

/-- The variables are the same, and reading goes on where they end. -/
theorem parameters {before : List String} {part : List Lexeme} {left : String} {rounds : Nat}
    (h : At text ls bound i (part ++ after)) (hpart : ∀ l ∈ part, l.token ≠ .equals)
    (hafter : ∀ l ∈ after.head?, l.token = .equals) (hrounds : part.length < rounds) :
    Agrees text ls bound after Eq ((Source.of text ls).parameters bound left rounds before i)
      (Parser.parameters (Lexeme.start (Glyph.scan text).2 after)
        (left, Lexeme.start (Glyph.scan text).2 ls) before part) := by
  -- each round that goes on to another one has read at least a comma
  induction rounds generalizing i before part with
  | zero => exact absurd hrounds (Nat.not_lt_zero _)
  | succ rounds ih =>
      have hends : ∀ l ∈ after.head?, Source.endsArgument (some l.token) = true := by
        intro l hl
        rw [hafter l hl]
        rfl
      have hstop := h.afterArgument
      have hsplit := Parser.argument_append_afterArgument part
      have hrest (l : Lexeme) (rest : List Lexeme) (hl : Parser.afterArgument part = l :: rest) :=
        Parser.endsArgument_of_afterArgument hl
      rw [Source.parameters, h.seek_argument hpart fun _ => hends, ok_bind, h.slice_argument,
        ok_bind, distance_add, ok_bind, h.near, ok_bind, Parser.parameters_eq]
      generalize Parser.argument part = word at *
      generalize Parser.afterArgument part = rest at *
      subst hsplit
      have hinvalid : Agrees text ls bound after Eq ((Source.of text ls).refuse i .invalidVariable
          (Lexeme.spell word)) (.error ⟨.invalidVariable, Lexeme.spell word,
            Lexeme.start (Lexeme.start (Glyph.scan text).2 after) (word ++ rest)⟩ :
            Except ParseError (List String × List Lexeme)) := by
        rw [← Lexeme.start_append]
        exact h.refuse _ _
      obtain _ | ⟨⟨t, place⟩, _ | ⟨l, more⟩⟩ := word
      · exact hinvalid
      · cases t with
        | name name =>
            simp only [List.cons_append, Entry.token_first_cons, List.length_singleton] at hstop ⊢
            by_cases hmem : name ∈ before
            · rw [if_pos hmem, if_pos hmem]
              exact h.refuse _ _
            rw [if_neg hmem, if_neg hmem]
            cases rest with
            | nil =>
                rw [hstop.breakAt_missing fun l hl => by simp [hafter l hl], ok_bind]
                exact h.origin.refuse _ _
            | cons l rest =>
                obtain hl | hl := hrest l rest rfl
                · rw [hstop.breakAt_comma hl, ok_bind]
                  simp only [hl, if_true]
                  exact ih hstop.cons (fun l' hl' => hpart l' (by simp [hl'])) (by
                    simp only [List.length_append, List.length_cons, List.length_nil] at hrounds
                    omega)
                · rw [hstop.breakAt_closing hl, ok_bind]
                  simp only [hl, reduceCtorEq, if_false]
                  exact ⟨_, _, rfl, rfl, hstop.cons⟩
        | _ => exact hinvalid
      · cases t <;> exact hinvalid

/-- The word at the start of the left-hand side ends where its first words do. -/
theorem seek_word {left : List Lexeme} (h : At text ls bound i (left ++ after))
    (hafter : ∀ l ∈ after.head?, l.token = .equals) :
    (Source.of text ls).seek Source.endsWord bound i =
      .ok (i + (left.takeWhile fun l => l.token.isWord).length) := by
  have htest : (fun l : Lexeme => !Source.endsWord (some l.token)) = fun l => l.token.isWord := by
    funext l
    simp [Source.endsWord]
  have hnone : (after.takeWhile fun l => l.token.isWord) = [] := by
    cases after with
    | nil => rfl
    | cons l after => rw [List.takeWhile_cons_of_neg (by simp [hafter l rfl, Token.isWord])]
  rw [h.seek rfl h.length_lt, htest, List.takeWhile_append, hnone, List.append_nil]
  split
  · next hlength => rw [hlength]
  · rfl

/-- A fault of the left-hand side as a whole is the same. -/
theorem refuse_left {left : List Lexeme} (h : At text ls bound 0 (left ++ after)) {α : Type}
    (fault : ParseFault) (fragment : String) :
    ((Source.of text ls).refuse 0 fault fragment : Read α) = .error (.refused
      ⟨fault, fragment, Lexeme.start (Lexeme.start (Glyph.scan text).2 after) left⟩) := by
  rw [h.refuse, Lexeme.start_append]

/-- Behind a parenthesis, the signature is the same. -/
theorem signatureFrom {left inner : List Lexeme} {function : String} {place place' : Place}
    (h : At text ls bound 0 (left ++ after)) (hleft : ∀ l ∈ left, l.token ≠ .equals)
    (hafter : ∀ l ∈ after.head?, l.token = .equals)
    (hwords : (left.takeWhile fun l => l.token.isWord) = [⟨.name function, place⟩])
    (hrest : (left.dropWhile fun l => l.token.isWord) = ⟨.opening, place'⟩ :: inner)
    (hinner : At text ls bound 2 (inner ++ after)) :
    (Source.of text ls).signatureFrom bound (Lexeme.spell left) left.length function 2 =
      (Parser.signature (Lexeme.start (Glyph.scan text).2 after) left).mapError .refused := by
  have hend := h.append
  have hsplit := List.takeWhile_append_dropWhile (p := fun l : Lexeme => l.token.isWord) (l := left)
  have hclosing : (Entry.first (Glyph.scan text).2 (inner ++ after)).token = some .closing ↔
      (inner.head?.any fun l => decide (l.token = .closing)) = true := by
    cases inner with
    | nil =>
        cases after with
        | nil => simp
        | cons l after => simp [hafter l rfl]
    | cons l inner => simp
  have hpart : ∀ l ∈ inner, l.token ≠ .equals := by
    intro l hl
    refine hleft l ?_
    rw [← hsplit, hrest]
    simp [hl]
  have hagree : Agrees text ls bound after Eq
      ((Source.of text ls).parameters bound (Lexeme.spell left) bound [] 2)
      (Parser.parameters (Lexeme.start (Glyph.scan text).2 after)
        (Lexeme.spell left, Lexeme.start (Glyph.scan text).2 ls) [] inner) :=
    hinner.parameters hpart hafter (Nat.lt_of_le_of_lt (by simp) hinner.length_lt)
  rw [h.eq_of_zero, Lexeme.start_append, ← h.eq_of_zero] at hagree
  rw [Nat.zero_add] at hend
  simp only [Parser.signature, hwords, hrest]
  rw [Source.signatureFrom, hinner.entry, ok_bind]
  simp only [hclosing]
  split
  · exact h.refuse_left _ _
  revert hagree
  generalize Parser.parameters _ _ [] inner = found
  obtain e | ⟨names, rest⟩ := found
  · intro hagree
    rw [hagree.eq_error]
    rfl
  rintro ⟨_, i, hnames, rfl, hat⟩
  rw [hnames, ok_bind]
  cases rest with
  | nil =>
      obtain rfl : _ = i := hat.eq_add hend
      rw [if_neg (not_not.2 rfl)]
      dsimp only
      cases (Call.signature function names : Except (ModelFault Float) (Call Float)) with
      | error fault => exact h.refuse_left _ _
      | ok call => rfl
  | cons l rest =>
      rw [if_pos (hat.ne_of_cons hend)]
      exact h.refuse_left _ _

/-- The signature is the same. -/
theorem signature {left : List Lexeme} (h : At text ls bound 0 (left ++ after))
    (hleft : ∀ l ∈ left, l.token ≠ .equals) (hafter : ∀ l ∈ after.head?, l.token = .equals) :
    (Source.of text ls).signature bound left.length =
      (Parser.signature (Lexeme.start (Glyph.scan text).2 after) left).mapError .refused := by
  have hslice := h.slice
  have hsplit := List.takeWhile_append_dropWhile (p := fun l : Lexeme => l.token.isWord) (l := left)
  rw [Nat.zero_add] at hslice
  rw [Source.signature, hslice, ok_bind, h.seek_word hafter, ok_bind, h.near, ok_bind, Nat.zero_add]
  cases hwords : left.takeWhile (fun l => l.token.isWord) with
  | nil =>
      simp only [Parser.signature, hwords]
      exact h.refuse_left _ _
  | cons l more =>
      obtain ⟨t, place⟩ := l
      rw [hwords] at hsplit
      have hword : At text ls bound 0 (⟨t, place⟩ :: (more ++
          (left.dropWhile (fun l => l.token.isWord) ++ after))) := by
        rw [← hsplit] at h
        simpa using h
      have hinvalid : (do
          let word ← (Source.of text ls).slice 0 (more.length + 1)
          (Source.of text ls).refuse 0 .invalidFunction word : Read (Call Float)) =
          .error (.refused ⟨.invalidFunction, Lexeme.spell (⟨t, place⟩ :: more),
            Lexeme.start (Lexeme.start (Glyph.scan text).2 after) left⟩) := by
        have hpart : (Source.of text ls).slice 0 (0 + (⟨t, place⟩ :: more).length) = _ :=
          hword.slice
        rw [Nat.zero_add, List.length_cons] at hpart
        rw [hpart, ok_bind, h.refuse_left]
      have hfirst : (Entry.first (Glyph.scan text).2 (left ++ after)).token = some t := by
        rw [← hsplit]
        rfl
      rw [hfirst]
      cases more with
      | cons l more => cases t <;> simp only [Parser.signature, hwords] <;> exact hinvalid
      | nil =>
          have hnext : At text ls bound 1 (left.dropWhile (fun l => l.token.isWord) ++ after) :=
            hword.cons
          cases t with
          | name function =>
              simp only [List.length_singleton]
              cases hrest : left.dropWhile (fun l => l.token.isWord) with
              | nil =>
                  rw [hrest] at hnext
                  simp only [Parser.signature, hwords, hrest]
                  rw [hnext.accept_of_ne fun l hl => by simp [hafter l hl], ok_bind]
                  exact h.refuse_left _ _
              | cons l inner =>
                  obtain ⟨t, place'⟩ := l
                  rw [hrest] at hnext
                  cases t with
                  | opening =>
                      rw [hnext.accept, ok_bind]
                      exact h.signatureFrom hleft hafter hwords hrest hnext.cons
                  | _ =>
                      simp only [Parser.signature, hwords, hrest]
                      rw [hnext.accept_of_ne (by simp), ok_bind]
                      exact h.refuse_left _ _
          | _ =>
              simp only [Parser.signature, hwords]
              exact hinvalid

end At

/-! ## Arguments of calls -/

/-- Inside of parentheses, `inner` is the rest of a summand in front of `after`. -/
def Inside (inner after : List Lexeme) : Prop :=
  ∃ depth, Parser.splitSummand (depth + 1) (inner ++ after) = (inner, after)

namespace Inside

variable {inner after : List Lexeme}

/-- Only a closing parenthesis leads out. -/
theorem cons {l : Lexeme} (h : Inside (l :: inner) after) (hl : l.token ≠ .closing) :
    Inside inner after := by
  obtain ⟨depth, hsplit⟩ := h
  have htail (depth : Nat) (h : (Parser.splitSummand (depth + 1) (inner ++ after)).map (l :: ·) id =
      (l :: inner, after)) : Inside inner after := by
    obtain ⟨hfst, hsnd⟩ := Prod.mk.inj h
    exact ⟨depth, Prod.ext (List.cons.inj hfst).2 hsnd⟩
  rw [List.cons_append, Parser.splitSummand] at hsplit
  cases ht : l.token with
  | closing => exact absurd ht hl
  | opening =>
      rw [ht] at hsplit
      exact htail (depth + 1) hsplit
  | plus =>
      rw [ht] at hsplit
      exact htail depth hsplit
  | minus =>
      rw [ht] at hsplit
      exact htail depth hsplit
  | _ =>
      rw [ht] at hsplit
      exact htail depth hsplit

theorem append {front : List Lexeme} (h : Inside (front ++ inner) after)
    (hfront : ∀ l ∈ front, l.token ≠ .closing) : Inside inner after := by
  induction front with
  | nil => exact h
  | cons l front ih =>
      rw [List.forall_mem_cons] at hfront
      exact ih (h.cons hfront.1) hfront.2

/-- Where no parenthesis closes, a summand goes on up to the end. -/
theorem eq_nil (h : Inside [] after) : after = [] := by
  cases after with
  | nil => rfl
  | cons l after =>
      obtain ⟨depth, hsplit⟩ := h
      rw [List.nil_append, Parser.splitSummand] at hsplit
      cases ht : l.token <;> rw [ht] at hsplit <;> simp [Prod.map] at hsplit

/-- What ends an argument stands in the summand, or there is nothing behind it. -/
theorem afterArgument (h : Inside inner after) (hnone : Parser.afterArgument inner = []) :
    after = [] := by
  have hargument : Parser.argument inner ++ [] = inner := by
    rw [← hnone, Parser.argument_append_afterArgument]
  rw [← hargument] at h
  exact (h.append (Parser.not_closing_of_mem_argument inner)).eq_nil

end Inside

/-- A part of a call, with the place where it starts, stands between two positions. -/
def Spans (text : String) (ls : List Lexeme) (bound : Nat) (part : Place × List Lexeme)
    (span : Nat × Nat) : Prop :=
  ∃ after, At text ls bound span.1 (part.2 ++ after) ∧ span.2 = span.1 + part.2.length ∧
    part.1 = Lexeme.start (Glyph.scan text).2 (part.2 ++ after)

namespace At

variable {text : String} {ls after : List Lexeme} {bound i : Nat}

/-- The parts are the same, and reading goes on where they end. -/
theorem arguments {start rounds : Nat} {all inner : List Lexeme} {summand : String}
    (hstart : At text ls bound start all) (h : At text ls bound i (inner ++ after))
    (hinside : Inside inner after) (hinner : ∀ l ∈ inner, l.token ≠ .equals)
    (hrounds : inner.length < rounds) (stop : Place) :
    Agrees text ls bound after (List.Forall₂ (Spans text ls bound))
      ((Source.of text ls).arguments bound start summand rounds i)
      ((Parser.arguments? stop inner).elim
        (.error ⟨.unclosedCall, summand, Lexeme.start (Glyph.scan text).2 all⟩) .ok) := by
  induction rounds generalizing i inner with
  | zero => exact absurd hrounds (Nat.not_lt_zero _)
  | succ rounds ih =>
      -- no argument runs on into the next summand: it would have to be the last one
      have hnone (hnil : Parser.afterArgument inner = []) :
          ∀ l ∈ after.head?, Source.endsArgument (some l.token) = true := by
        simp [hinside.afterArgument hnil]
      have hbehind := h.afterArgument
      rw [Source.arguments, h.seek_argument hinner hnone, ok_bind, Parser.arguments?_eq]
      cases hrest : Parser.afterArgument inner with
      | nil =>
          rw [hrest, hinside.afterArgument hrest, List.nil_append] at hbehind
          rw [hbehind.breakAt_missing (by simp), ok_bind]
          exact hstart.refuse _ _
      | cons l rest =>
          rw [hrest] at hbehind
          have hsplit := Parser.argument_append_afterArgument inner
          rw [hrest] at hsplit
          have hspan : Spans text ls bound (Lexeme.start stop inner, Parser.argument inner)
              (i, i + (Parser.argument inner).length) := by
            refine ⟨l :: rest ++ after, ?_, rfl, ?_⟩
            · rwa [← List.append_assoc, hsplit]
            · rw [← List.append_assoc, hsplit]
              exact Lexeme.start_eq_of_ne_nil (by rw [← hsplit]; simp) _ _ _
          obtain hl | hl := Parser.endsArgument_of_afterArgument hrest
          · rw [hbehind.breakAt_comma hl, ok_bind]
            simp only [hl, if_true]
            have hinside' : Inside rest after := by
              rw [← hsplit] at hinside
              exact (hinside.append (Parser.not_closing_of_mem_argument inner)).cons (by simp [hl])
            have hlength := congrArg List.length hsplit
            rw [List.length_append, List.length_cons] at hlength
            have hmore := ih hbehind.cons hinside' (fun l' hl' => hinner l' (hsplit ▸
              List.mem_append_right _ (List.mem_cons_of_mem _ hl'))) (by omega)
            revert hmore
            cases Parser.arguments? stop rest with
            | none =>
                intro hmore
                rw [hmore.eq_error]
                rfl
            | some found =>
                rintro ⟨spans, j, hj, hspans, hat⟩
                rw [hj]
                exact ⟨_, j, rfl, .cons hspan hspans, hat⟩
          · rw [hbehind.breakAt_closing hl, ok_bind]
            simp only [hl, reduceCtorEq, if_false]
            exact ⟨_, _, rfl, .cons hspan .nil, hbehind.cons⟩

/-- What comes of an argument that is, or is not, a shift of its variable. -/
def shiftResult (refusal : ParseError) : Option Float → Read Float
  | none => .error (.refused refusal)
  | some s => .ok s

/-- The shift of an argument is the same. -/
theorem shift {part : List Lexeme} (h : At text ls bound i (part ++ after)) (summand name : String) :
    (Source.of text ls).shift summand name i (i + part.length) =
      shiftResult ⟨.invalidArgument summand, Lexeme.spell part,
        Lexeme.start (Glyph.scan text).2 (part ++ after)⟩ (Parser.shift? name part) := by
  have hinvalid := h.refuse (α := Float) (.invalidArgument summand) (Lexeme.spell part)
  rw [Source.shift, h.slice, ok_bind, h.near, ok_bind]
  by_cases hname : (Entry.first (Glyph.scan text).2 (part ++ after)).token = some (.name name)
  · rw [if_neg (not_not.2 hname), distance_add, ok_bind]
    obtain _ | ⟨⟨t, place⟩, more⟩ := part
    · exact hinvalid
    obtain rfl : t = .name name := Option.some.inj hname
    obtain _ | ⟨⟨t, _⟩, _ | ⟨⟨t', _⟩, _ | ⟨l, more⟩⟩⟩ := more
    · rw [Parser.shift?, if_pos rfl]
      rfl
    · cases t <;> exact hinvalid
    · have hsign := h.cons.near
      have hnumber := h.cons.cons.near
      simp only [List.length_cons, List.length_nil, Nat.reduceAdd]
      rw [hsign, ok_bind, hnumber, ok_bind]
      cases t with
      | plus =>
          cases t' with
          | number l =>
              rw [Parser.shift?, if_pos rfl]
              rfl
          | _ => exact hinvalid
      | minus =>
          cases t' with
          | number l =>
              rw [Parser.shift?, if_pos rfl]
              rfl
          | _ => exact hinvalid
      | _ => exact hinvalid
    · cases t <;> cases t' <;> exact hinvalid
  · rw [if_pos hname, hinvalid]
    cases hs : Parser.shift? name part with
    | none => rfl
    | some s =>
        obtain ⟨a, htokens, rfl, -⟩ := Parser.shift?_eq_some_iff.1 hs
        obtain ⟨l, more, rfl, hl, -⟩ := List.map_eq_cons_iff.1 htokens
        exact absurd (congrArg some hl) hname

/-- The shifts of the parts of a call are the same. -/
theorem shifts {summand : String} {names : List String} {parts : List (Place × List Lexeme)}
    {spans : List (Nat × Nat)} (h : List.Forall₂ (Spans text ls bound) parts spans) :
    (Source.of text ls).shifts summand names spans =
      (Parser.shifts summand names parts).mapError .refused := by
  induction names generalizing parts spans with
  | nil => rfl
  | cons name names ih =>
      cases h with
      | nil => rfl
      | @cons part span parts spans hspan hspans =>
          obtain ⟨place, part⟩ := part
          obtain ⟨first, last⟩ := span
          obtain ⟨after, hat, hlast, hplace⟩ := hspan
          dsimp only at hat hlast hplace
          subst hlast hplace
          rw [Source.shifts, hat.shift, Parser.shifts]
          cases Parser.shift? name part with
          | none => rfl
          | some s =>
              rw [shiftResult, ok_bind, ih hspans]
              cases Parser.shifts summand names parts <;> rfl

end At

/-! ## Summands -/

namespace At

variable {text : String} {ls after : List Lexeme} {bound i : Nat}

section

variable {header : Call Float} {start : Nat} {all : List Lexeme} {spelled : String}
  {negative : Bool}

/-- Behind a parenthesis, a call is the same. -/
theorem application {summand inner : List Lexeme} {coefficient : Float} {function : String}
    {place place' : Place} {stop : Nat} (hstart : At text ls bound start all)
    (hfactor : Parser.factor summand =
      (coefficient, ⟨.name function, place⟩ :: ⟨.opening, place'⟩ :: inner))
    (h : At text ls bound i (⟨.name function, place⟩ :: ⟨.opening, place'⟩ :: inner ++ after))
    (hend : At text ls bound stop after) (hinside : Inside inner after)
    (hinner : ∀ l ∈ inner, l.token ≠ .equals) :
    (Source.of text ls).application bound header start stop spelled
        (Parser.signed negative coefficient) function i (i + 1 + 1) =
      ((Parser.call header (spelled, Lexeme.start (Glyph.scan text).2 all) negative summand).map
        fun c => (Term.call c, stop)).mapError .refused := by
  simp only [Parser.call, hfactor]
  rw [Source.application]
  by_cases hfunction : function = header.function
  case neg =>
    rw [if_pos hfunction, if_pos hfunction]
    exact h.refuse _ _
  rw [if_neg (not_not.2 hfunction), if_neg (not_not.2 hfunction)]
  have hat : At text ls bound (i + 1 + 1) (inner ++ after) := h.cons.cons
  have hagree : Agrees text ls bound after (List.Forall₂ (Spans text ls bound))
      ((Source.of text ls).arguments bound start spelled bound (i + 1 + 1)) _ :=
    hstart.arguments hat hinside hinner (Nat.lt_of_le_of_lt (by simp) hat.length_lt)
      (Lexeme.start (Glyph.scan text).2 all)
  revert hagree
  cases Parser.arguments? (Lexeme.start (Glyph.scan text).2 all) inner with
  | none =>
      intro hagree
      rw [hagree.eq_error]
      rfl
  | some found =>
      obtain ⟨parts, behind⟩ := found
      rintro ⟨spans, j, hj, hspans, hat⟩
      rw [hj, ok_bind]
      cases behind with
      | cons l behind =>
          dsimp only
          rw [if_pos (hat.ne_of_cons hend)]
          exact hstart.refuse _ _
      | nil =>
          obtain rfl : stop = j := hat.eq_add hend
          dsimp only
          rw [if_neg (not_not.2 rfl), ← hspans.length_eq]
          by_cases hcount : parts.length = header.parameters.length
          case neg =>
            rw [if_pos hcount, if_pos hcount]
            exact hstart.refuse _ _
          rw [if_neg (not_not.2 hcount), if_neg (not_not.2 hcount), shifts hspans]
          cases Parser.shifts spelled header.parameters parts with
          | error e => rfl
          | ok ss =>
              simp only [Except.mapError, ok_bind]
              cases Call.checked (Parser.signed negative coefficient) function
                header.parameters ss with
              | error fault => exact hstart.refuse _ _
              | ok c => rfl

/-- A call is the same, from its function on. -/
theorem call {summand rest : List Lexeme} {coefficient : Float}
    (hstart : At text ls bound start all) (h : At text ls bound i (rest ++ after))
    (hsplit : Parser.splitSummand 0 (rest ++ after) = (rest, after))
    (hrest : ∀ l ∈ rest, l.token ≠ .equals) (hfactor : Parser.factor summand = (coefficient, rest)) :
    (Source.of text ls).call bound header start (i + rest.length) spelled
        (Parser.signed negative coefficient) i =
      ((Parser.call header (spelled, Lexeme.start (Glyph.scan text).2 all) negative summand).map
        fun c => (Term.call c, i + rest.length)).mapError .refused := by
  have hend := h.append
  have hafter := Parser.sign_of_splitSummand hsplit
  have hinvalid := hstart.refuse (α := Term Float × Nat) .invalidTerm spelled
  rw [Source.call, h.entry, ok_bind]
  obtain _ | ⟨⟨t, place⟩, rest⟩ := rest
  · simp only [Parser.call, hfactor]
    cases after with
    | nil => exact hinvalid
    | cons l after =>
        obtain hl | hl := hafter l rfl <;>
          simp only [List.nil_append, Entry.token_first_cons, hl] <;>
          exact hinvalid
  cases t with
  | name function =>
      have hnext : At text ls bound (i + 1) (rest ++ after) := h.cons
      simp only [List.cons_append, Entry.token_first_cons]
      rw [h.advance, ok_bind]
      obtain _ | ⟨⟨t, place'⟩, inner⟩ := rest
      · simp only [Parser.call, hfactor]
        rw [hnext.accept_of_ne fun l hl => by obtain hl | hl := hafter l hl <;> simp [hl], ok_bind]
        exact hinvalid
      cases t with
      | opening =>
          have hinside : Inside inner after := by
            refine ⟨0, ?_⟩
            simp only [List.cons_append, Parser.splitSummand, Prod.map, id, Prod.mk.injEq,
              List.cons.injEq, true_and] at hsplit
            exact Prod.ext hsplit.1 hsplit.2
          rw [hnext.accept, ok_bind]
          exact hstart.application hfactor h hend hinside fun l hl => hrest l (by simp [hl])
      | _ =>
          simp only [Parser.call, hfactor]
          rw [hnext.accept_of_ne (by simp), ok_bind]
          exact hinvalid
  | _ =>
      simp only [Parser.call, hfactor]
      exact hinvalid

/-- A term is the same. -/
theorem term {summand : List Lexeme} (hstart : At text ls bound start all)
    (h : At text ls bound i (summand ++ after))
    (hsplit : Parser.splitSummand 0 (summand ++ after) = (summand, after))
    (hsummand : ∀ l ∈ summand, l.token ≠ .equals) (hne : summand ≠ []) :
    (Source.of text ls).term bound header start (i + summand.length) spelled negative i =
      ((Parser.term header (spelled, Lexeme.start (Glyph.scan text).2 all) negative summand).map
        fun t => (t, i + summand.length)).mapError .refused := by
  -- what is read when it is no number
  have hcall {rest : List Lexeme} {coefficient : Float} {j : Nat}
      (hnumber : ∀ l place, summand ≠ [⟨.number l, place⟩])
      (hfactor : Parser.factor summand = (coefficient, rest))
      (hj : At text ls bound j (rest ++ after)) (hrest : rest <:+ summand)
      (hlength : j + rest.length = i + summand.length)
      (hfront : Parser.splitSummand 0 (rest ++ after) = (rest, after)) :
      (Source.of text ls).call bound header start (i + summand.length) spelled
          (Parser.signed negative coefficient) j =
        ((Parser.term header (spelled, Lexeme.start (Glyph.scan text).2 all) negative summand).map
          fun t => (t, i + summand.length)).mapError .refused := by
    rw [Parser.term_of_ne_number hnumber, ← hlength,
      hstart.call hj hfront (fun l hl => hsummand l (hrest.subset hl)) hfactor]
    cases Parser.call header _ negative summand <;> rfl
  obtain _ | ⟨⟨t, place⟩, more⟩ := summand
  · exact absurd rfl hne
  rw [Source.term, h.entry, ok_bind]
  cases t with
  | number l =>
      have hnext : At text ls bound (i + 1) (more ++ after) := h.cons
      simp only [List.cons_append, Entry.token_first_cons]
      rw [h.advance, ok_bind]
      obtain _ | ⟨⟨t, place'⟩, rest⟩ := more
      · rw [List.length_singleton, if_pos rfl, Parser.term]
        rfl
      have hmore := Parser.splitSummand_of_cons (by simp [Parser.Passes]) hsplit
      have hnumber : ∀ l' place'',
          (⟨.number l, place⟩ :: ⟨t, place'⟩ :: rest : List Lexeme) ≠ [⟨.number l', place''⟩] := by
        simp
      rw [if_neg (by simp)]
      cases t with
      | star =>
          rw [hnext.accept, ok_bind]
          exact hcall hnumber rfl hnext.cons ⟨[_, _], rfl⟩ (by simp; omega)
            (Parser.splitSummand_of_cons (by simp [Parser.Passes]) hmore)
      | _ =>
          rw [hnext.accept_of_ne (by simp), ok_bind]
          exact hcall hnumber rfl hnext ⟨[_], rfl⟩ (by simp; omega) hmore
  | _ => exact hcall (by simp) rfl h List.suffix_rfl rfl hsplit

/-! ## Sums -/

/-- A minus sign in front of a summand is accepted where it is split off. -/
theorem accept_minus {part : List Lexeme} (h : At text ls bound i part) :
    ∃ sign, (Source.of text ls).accept i .minus = .ok sign ∧
      sign.getD i = i + (Parser.splitSign part).1.length ∧
      sign.isSome = !(Parser.splitSign part).1.isEmpty := by
  unfold Parser.splitSign
  split
  · exact ⟨_, h.accept, rfl, rfl⟩
  · next hne =>
    refine ⟨none, h.accept_of_ne fun l hl hminus => ?_, rfl, rfl⟩
    obtain ⟨more, rfl⟩ := List.head?_eq_some_iff.1 hl
    obtain ⟨t, place⟩ := l
    obtain rfl : t = .minus := hminus
    exact hne place more rfl

theorem signAt_nil (h : At text ls bound i []) : (Source.of text ls).signAt i = .ok none := by
  rw [Source.signAt, h.accept_of_ne (by simp), ok_bind]
  dsimp only
  rw [h.accept_of_ne (by simp)]
  rfl

theorem signAt_cons {l : Lexeme} (h : At text ls bound i (l :: after))
    (hl : l.token = .plus ∨ l.token = .minus) :
    (Source.of text ls).signAt i = .ok (some (l.token == .minus, i + 1)) := by
  have haccept := h.accept
  obtain hl | hl := hl
  · rw [hl] at haccept
    rw [Source.signAt, haccept, hl]
    rfl
  · rw [hl] at haccept
    rw [Source.signAt, h.accept_of_ne (by simp [hl]), ok_bind]
    dsimp only
    rw [haccept, hl]
    rfl

/-- A sum is the same. -/
theorem terms {part : List Lexeme} {rounds : Nat} (h : At text ls bound i part)
    (hpart : ∀ l ∈ part, l.token ≠ .equals) (hrounds : part.length < rounds) :
    (Source.of text ls).terms bound header rounds negative i =
      (Parser.terms header (Glyph.scan text).2 negative part).mapError .refused := by
  induction rounds generalizing i negative part with
  | zero => exact absurd hrounds (Nat.not_lt_zero _)
  | succ rounds ih =>
      -- the part is `front`, a sign or nothing, then `summand`, then `after` from the next sign on
      obtain ⟨sign, hsign, hfirst, hsome⟩ := h.accept_minus
      have hbody := Parser.append_splitSign part
      have hsplit := Parser.append_splitSummand 0 (Parser.splitSign part).2
      rw [Source.terms, hsign, ok_bind, hfirst, hsome, Parser.terms_eq]
      dsimp only
      generalize (Parser.splitSign part).1 = front at *
      generalize (Parser.splitSign part).2 = body at *
      subst hbody
      have hat := h.append
      rw [hat.summandEnd 0 hat.length_lt, ok_bind]
      generalize hs : Parser.splitSummand 0 body = split at *
      obtain ⟨summand, after⟩ := split
      dsimp only at hsplit ⊢
      subst hsplit
      have hwhole : At text ls bound i ((front ++ summand) ++ after) := by rwa [List.append_assoc]
      have hslice := hwhole.slice
      rw [List.length_append, ← Nat.add_assoc] at hslice
      rw [hslice, ok_bind]
      by_cases hnil : summand = []
      · subst hnil
        rw [if_pos (by simp), if_pos rfl, hat.entry, ok_bind]
        exact h.refuse _ _
      · have hpos := List.length_pos_of_ne_nil hnil
        have hsummand : ∀ l ∈ summand, l.token ≠ .equals := fun l hl => hpart l (by simp [hl])
        rw [if_neg (by omega), if_neg hnil, term h hat hs hsummand hnil]
        cases Parser.term header _ (negative != !front.isEmpty) summand with
        | error e => rfl
        | ok t =>
            have hend := hat.append
            simp only [Except.map, Except.mapError, ok_bind, Except.bind]
            cases after with
            | nil =>
                rw [hend.signAt_nil]
                rfl
            | cons l rest =>
                rw [List.length_append, List.length_append, List.length_cons] at hrounds
                rw [hend.signAt_cons (Parser.sign_of_splitSummand hs l rfl), ok_bind]
                dsimp only
                rw [ih hend.cons (fun l' hl' => hpart l' (by simp [hl'])) (by omega)]
                cases Parser.terms header (Glyph.scan text).2 (l.token == .minus) rest <;> rfl

end

end At

/-! ## Recurrences -/

/-- There are as many indices of equals signs as there are equals signs. -/
theorem length_equals (text : String) (ls : List Lexeme) :
    (Source.of text ls).equals.length = ls.countP fun l => l.token == .equals := by
  have hcount := List.countP_map (p := fun e : Entry => e.token == some .equals)
    (f := Prod.fst) (l := (Source.of text ls).entries.zipIdx)
  rw [List.zipIdx_map_fst] at hcount
  rw [Source.equals, List.length_map, ← List.countP_eq_length_filter]
  refine hcount.symm.trans ?_
  rw [Source.of, List.countP_append, List.countP_map, List.countP_singleton]
  rfl

/-- Entries without an equals sign have no index of one. -/
theorem filter_zipIdx_eq_nil {es : List Entry} (h : ∀ e ∈ es, e.token ≠ some .equals) (n : Nat) :
    ((es.zipIdx n).filter fun e => e.1.token == some .equals) = [] := by
  rw [List.filter_eq_nil_iff]
  intro e he
  simpa using h e.1 (List.fst_mem_of_mem_zipIdx he)

/-- The index of the only equals sign. -/
theorem equals_eq {text : String} {left right : List Lexeme} {l : Lexeme}
    (hleft : ∀ l ∈ left, l.token ≠ .equals) (hl : l.token = .equals)
    (hright : ∀ l ∈ right, l.token ≠ .equals) :
    (Source.of text (left ++ l :: right)).equals = [left.length] := by
  have hnone {side : List Lexeme} (h : ∀ l ∈ side, l.token ≠ .equals) :
      ∀ e ∈ side.map (fun l => (⟨some l.token, l.place⟩ : Entry)), e.token ≠ some .equals := by
    intro e he hequals
    obtain ⟨l, hl, rfl⟩ := List.mem_map.1 he
    exact h l hl (Option.some.inj hequals)
  rw [Source.equals, Source.of]
  simp only [List.map_append, List.map_cons, List.append_assoc, List.cons_append,
    List.zipIdx_append, List.zipIdx_cons, List.filter_append, List.filter_cons, hl,
    filter_zipIdx_eq_nil (hnone hleft), filter_zipIdx_eq_nil (hnone hright)]
  simp

/-- One equals sign has two sides without one. -/
theorem exists_sides {ls : List Lexeme} (h : (ls.countP fun l => l.token == .equals) = 1) :
    ∃ left l right, ls = left ++ l :: right ∧ l.token = .equals ∧
      (∀ l ∈ left, l.token ≠ .equals) ∧ ∀ l ∈ right, l.token ≠ .equals := by
  have hsplit := List.takeWhile_append_dropWhile (p := fun l : Lexeme => l.token != .equals)
    (l := ls)
  have hhead := List.head?_dropWhile_not (fun l : Lexeme => l.token != .equals) ls
  have hleft : ∀ l ∈ ls.takeWhile (fun l : Lexeme => l.token != .equals), l.token ≠ .equals := by
    intro l hl
    simpa using List.mem_takeWhile_imp hl
  generalize ls.takeWhile (fun l : Lexeme => l.token != .equals) = left at *
  generalize ls.dropWhile (fun l : Lexeme => l.token != .equals) = behind at *
  subst hsplit
  have hnone : (left.countP fun l => l.token == .equals) = 0 :=
    List.countP_eq_zero.2 (by simpa using hleft)
  rw [List.countP_append, hnone, Nat.zero_add] at h
  cases behind with
  | nil => exact absurd h (by simp)
  | cons l right =>
      have hl : l.token = .equals := by simpa using hhead
      rw [List.countP_cons_of_pos (by simp [hl]), Nat.add_eq_right] at h
      exact ⟨left, l, right, rfl, hl, hleft, by simpa using List.countP_eq_zero.1 h⟩

namespace At

variable {text : String} {ls : List Lexeme} {bound : Nat}

/-- A fault of the whole text is the same. -/
theorem refuse_whole (h : At text ls bound 0 ls) {α : Type} (fault : ParseFault) :
    (do
      let whole ← (Source.of text ls).slice 0 (← (Source.of text ls).last)
      (Source.of text ls).refuse 0 fault whole : Read α) =
      .error (.refused ⟨fault, Lexeme.spell ls, Lexeme.start (Glyph.scan text).2 ls⟩) := by
  have hwhole : (Source.of text ls).slice 0 ls.length = .ok (Lexeme.spell ls) := by
    have hall : At text ls bound 0 (ls ++ []) := by rwa [List.append_nil]
    simpa using hall.slice
  rw [last_of, ok_bind, hwhole, ok_bind, h.refuse]

/-- Two sides with an equals sign between them are the same recurrence. -/
theorem recurrence_of_sides {left right : List Lexeme} {l : Lexeme}
    (h : At text (left ++ l :: right) bound 0 (left ++ l :: right)) (hl : l.token = .equals)
    (hleft : ∀ l ∈ left, l.token ≠ .equals) (hright : ∀ l ∈ right, l.token ≠ .equals) :
    (Source.of text (left ++ l :: right)).recurrence bound =
      (Parser.recurrence (Glyph.scan text).2 (left ++ l :: right)).mapError .refused := by
  obtain ⟨htake, hdrop⟩ := Parser.split_equals hleft hl right
  have hcount : ((left ++ l :: right).countP fun l => l.token == .equals) = 1 := by
    rw [← length_equals text, equals_eq hleft hl hright]
    rfl
  have hbehind : At text (left ++ l :: right) bound (left.length + 1) right := by
    have hat := h.append
    rw [Nat.zero_add] at hat
    exact hat.cons
  have hnext : ∀ l' ∈ (l :: right).head?, l'.token = .equals := by simpa using hl
  have hne : left ++ l :: right ≠ [] := by simp
  rw [Source.recurrence, h.entry, ok_bind, equals_eq hleft hl hright]
  simp only [Parser.recurrence, Entry.isNone_token_first, htake, hdrop, hcount, List.drop_one,
    List.tail_cons, List.length_eq_zero_iff]
  rw [if_neg hne, if_neg hne, if_neg (not_not.2 rfl)]
  by_cases hleft_nil : left = []
  · rw [if_pos hleft_nil, if_pos hleft_nil]
    exact h.refuse _ _
  rw [if_neg hleft_nil, if_neg hleft_nil, hbehind.entry, ok_bind]
  simp only [Entry.isNone_token_first]
  by_cases hright_nil : right = []
  · subst hright_nil
    rw [if_pos rfl, if_pos rfl]
    exact hbehind.refuse _ _
  rw [if_neg hright_nil, if_neg hright_nil, h.signature hleft hnext]
  cases Parser.signature (Lexeme.start (Glyph.scan text).2 (l :: right)) left with
  | error e => rfl
  | ok header =>
      simp only [Except.mapError, ok_bind]
      rw [hbehind.terms hright (Nat.lt_of_le_of_lt (by simp) hbehind.length_lt)]
      cases Parser.terms header (Glyph.scan text).2 false right with
      | error e => rfl
      | ok ts =>
          simp only [Except.mapError, ok_bind]
          cases Recurrence.checked header (Term.collect ts) with
          | error fault => exact h.refuse_whole _
          | ok r => rfl

/-- The recurrence is the same. -/
theorem recurrence (h : At text ls bound 0 ls) :
    (Source.of text ls).recurrence bound =
      (Parser.recurrence (Glyph.scan text).2 ls).mapError .refused := by
  by_cases hcount : (ls.countP fun l => l.token == .equals) = 1
  · obtain ⟨left, l, right, rfl, hl, hleft, hright⟩ := exists_sides hcount
    exact h.recurrence_of_sides hl hleft hright
  rw [Source.recurrence, h.entry, ok_bind]
  simp only [Parser.recurrence, Entry.isNone_token_first]
  by_cases hnil : ls = []
  · subst hnil
    rw [if_pos rfl, if_pos rfl]
    exact h.refuse _ _
  rw [if_neg hnil, if_neg hnil, if_pos hcount]
  rw [← length_equals text] at hcount
  split
  · next heq =>
    rw [heq] at hcount
    exact absurd rfl hcount
  · exact h.refuse_whole _

end At

/-- **Reading by positions stays in range and comes to an end, whatever the text.**  With more rounds
than the text has characters, each loop ends before they are used up.  What is read is what
`Recurrence.parse` reads; where nothing is read, the error is that of `Recurrence.parse`, and it is
one of the reader's own: no rule of the model is left to be broken. -/
theorem parse_inRange (text : String) (extra : Nat) :
    (∃ r, parse ((Text.strip text.toList).length + 1 + extra) text = .ok r ∧
      Recurrence.parse text = .ok r) ∨
    ∃ e, parse ((Text.strip text.toList).length + 1 + extra) text = .error (.refused e) ∧
      Recurrence.parse text = .error e ∧ ∀ fault, e.fault ≠ .model fault := by
  rw [parse, Recurrence.parse]
  cases htokens : Lexer.tokens (Glyph.scan text).1 with
  | error e => exact .inr ⟨_, rfl, rfl, fun _ => ParseFault.noConfusion⟩
  | ok ls =>
      have htiled := Lexer.tokens_eq_ok_iff.1 htokens
      have hlength := htiled.length_le
      rw [← Glyph.length_chars, Glyph.chars_scan] at hlength
      dsimp only
      rw [(At.zero htiled (by omega)).recurrence]
      cases hread : Parser.recurrence (Glyph.scan text).2 ls with
      | ok r => exact .inl ⟨r, rfl, rfl⟩
      | error e =>
          have hown := (Parser.refusal_recurrence (Lexer.isValid_of_tokens htokens) hread).own
          exact .inr ⟨e, rfl, rfl, hown⟩

end Indexed

end GrowthOrder
