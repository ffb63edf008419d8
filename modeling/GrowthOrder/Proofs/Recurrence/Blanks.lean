import GrowthOrder.Proofs.Recurrence.Parser

/-!
# GrowthOrder.Proofs.Recurrence.Blanks

Blanks carry no meaning.  Reading never looks at a place: every function from `Lexer.token` to
`Parser.recurrence` commutes with a map `f` of places, so that what it reads stays the same and a
fault moves along with the text.  Blanks only change lines and columns, which a map can forget.

* `tokens_move`, `recurrence_move` — the two halves of reading commute with a map of places.
* `parse_agree_of_filter_eq` — texts with the same glyphs are read alike.
-/

namespace GrowthOrder

/-! ## Moving things to other places -/

/-- The glyph at another place. -/
def Glyph.move (f : Place → Place) (g : Glyph) : Glyph :=
  { g with place := f g.place }

/-- The lexeme at another place. -/
def Lexeme.move (f : Place → Place) (l : Lexeme) : Lexeme :=
  { l with place := f l.place }

namespace Located

variable {ε α : Type}

/-- The fault at another place. -/
def move (f : Place → Place) (e : Located ε) : Located ε :=
  { e with place := f e.place }

/-- A result whose fault, if there is one, is at another place. -/
def moveIn (f : Place → Place) (r : Except (Located ε) α) : Except (Located ε) α :=
  r.mapError (move f)

@[simp] theorem moveIn_ok (f : Place → Place) (x : α) :
    moveIn f (.ok x : Except (Located ε) α) = .ok x := rfl

@[simp] theorem moveIn_error (f : Place → Place) (fault : ε) (fragment : String) (p : Place) :
    moveIn f (.error ⟨fault, fragment, p⟩ : Except (Located ε) α) =
      .error ⟨fault, fragment, f p⟩ := rfl

/-- Results that agree up to places are the same value, or the same fault up to places. -/
theorem moveIn_eq_moveIn {f : Place → Place} {r r' : Except (Located ε) α}
    (h : moveIn f r = moveIn f r') :
    (∃ x, r = .ok x ∧ r' = .ok x) ∨
      ∃ e e', r = .error e ∧ r' = .error e' ∧ e.move f = e'.move f := by
  cases r <;> cases r' <;> simp_all [moveIn, Except.mapError]

end Located

open Located (moveIn)

section

variable (f : Place → Place)

@[simp] theorem Glyph.char_move (g : Glyph) : (g.move f).char = g.char := rfl

@[simp] theorem Glyph.place_move (g : Glyph) : (g.move f).place = f g.place := rfl

@[simp] theorem Lexeme.token_move (l : Lexeme) : (l.move f).token = l.token := rfl

@[simp] theorem Lexeme.place_move (l : Lexeme) : (l.move f).place = f l.place := rfl

@[simp] theorem Lexeme.move_mk (t : Token) (p : Place) : Lexeme.move f ⟨t, p⟩ = ⟨t, f p⟩ :=
  rfl

@[simp] theorem Lexeme.spell_move (ls : List Lexeme) :
    Lexeme.spell (ls.map (Lexeme.move f)) = Lexeme.spell ls := by
  simp [Lexeme.spell, List.flatMap_map]

@[simp] theorem Lexeme.start_move (stop : Place) (ls : List Lexeme) :
    Lexeme.start (f stop) (ls.map (Lexeme.move f)) = f (Lexeme.start stop ls) := by
  cases ls <;> rfl

/-! ## Tokens -/

namespace Lexer

@[simp] theorem run_move (p : Char → Bool) (gs : List Glyph) :
    run p (gs.map (Glyph.move f)) = ((run p gs).1, (run p gs).2.map (Glyph.move f)) := by
  simp [run, Glyph.chars, List.takeWhile_map, List.dropWhile_map, Function.comp_def]

theorem number_move (g : Glyph) (rest : List Glyph) :
    number (g.move f) (rest.map (Glyph.move f)) =
      moveIn f ((number g rest).map (Prod.map id (List.map (Glyph.move f)))) := by
  simp only [number, run_move, Glyph.char_move, Glyph.place_move]
  cases (run Char.isDigit rest).2 with
  | nil => rfl
  | cons point after =>
      simp only [List.map_cons, run_move, Glyph.char_move]
      split_ifs <;> rfl

theorem token_move (g : Glyph) (rest : List Glyph) :
    token (g.move f) (rest.map (Glyph.move f)) =
      moveIn f ((token g rest).map (Prod.map id (List.map (Glyph.move f)))) := by
  simp only [token, run_move, number_move, Glyph.char_move, Glyph.place_move]
  by_cases hdigit : g.char.isDigit = true
  · simp only [hdigit, if_true]
  · cases Token.ofSign? g.char <;> simp only [hdigit] <;> split_ifs <;> rfl

/-- **Reading tokens commutes with a map of places.** -/
theorem tokens_move (gs : List Glyph) :
    tokens (gs.map (Glyph.move f)) = moveIn f ((tokens gs).map (List.map (Lexeme.move f))) := by
  induction hn : gs.length using Nat.strong_induction_on generalizing gs with
  | _ n ih =>
  subst hn
  cases gs with
  | nil => rw [List.map_nil, tokens]; rfl
  | cons g rest =>
      rw [List.map_cons, tokens_cons, tokens_cons, token_move]
      cases h : token g rest with
      | error e => rfl
      | ok t =>
          have hlength : t.2.length < (g :: rest).length :=
            Nat.lt_succ_of_le (length_token_le (t := t.1) h)
          have ht := ih _ hlength t.2 rfl
          simp only [Except.map, Except.bind, Located.moveIn_ok, Prod.map, id, ht]
          cases tokens t.2 <;> rfl

end Lexer

/-! ## Parts of a recurrence -/

namespace Parser

@[simp] theorem argument_move (ls : List Lexeme) :
    argument (ls.map (Lexeme.move f)) = (argument ls).map (Lexeme.move f) := by
  simp [argument, endsArgument, List.takeWhile_map, Function.comp_def]

@[simp] theorem afterArgument_move (ls : List Lexeme) :
    afterArgument (ls.map (Lexeme.move f)) = (afterArgument ls).map (Lexeme.move f) := by
  simp [afterArgument, endsArgument, List.dropWhile_map, Function.comp_def]

theorem parameters_move (stop : Place) (whole : String × Place) (before : List String)
    (ls : List Lexeme) :
    parameters (f stop) (whole.map id f) before (ls.map (Lexeme.move f)) =
      moveIn f
        ((parameters stop whole before ls).map (Prod.map id (List.map (Lexeme.move f)))) := by
  fun_induction parameters stop whole before ls with
  | case1 before ls name place hpart hmem =>
      simp [parameters_eq, hpart, hmem, Except.map]
  | case2 before ls name place hpart hmem hafter =>
      simp [parameters_eq, hpart, hmem, hafter, Except.map]
  | case3 before ls name place hpart hmem l rest hafter _ hcomma ih =>
      simp [parameters_eq (f stop) _ _ (ls.map _), hpart, hmem, hafter, hcomma, ih]
  | case4 before ls name place hpart hmem l rest hafter _ hcomma =>
      simp [parameters_eq, hpart, hmem, hafter, hcomma, Except.map]
  | case5 before ls hpart =>
      rw [parameters_eq, argument_move]
      split
      · next name place h =>
        obtain ⟨⟨_, place⟩, h, hmove⟩ := List.map_eq_singleton_iff.1 h
        obtain ⟨rfl, -⟩ := Lexeme.mk.inj hmove
        exact absurd h (hpart _ _)
      · simp [Except.map]

theorem signature_move (stop : Place) (left : List Lexeme) :
    signature (f stop) (left.map (Lexeme.move f)) = moveIn f (signature stop left) := by
  have hparameters := parameters_move f stop (Lexeme.spell left, Lexeme.start stop left) []
  simp only [Prod.map, id] at hparameters
  simp only [signature, List.takeWhile_map, List.dropWhile_map, Function.comp_def,
    Lexeme.token_move, Lexeme.spell_move, Lexeme.start_move]
  generalize left.takeWhile (fun l => l.token.isWord) = words
  generalize left.dropWhile (fun l => l.token.isWord) = rest
  obtain _ | ⟨⟨t, _⟩, _ | ⟨_, _⟩⟩ := words
  · rfl
  · cases t with
    | name function =>
        obtain _ | ⟨⟨u, _⟩, inner⟩ := rest
        · rfl
        · cases u with
          | opening =>
              have hclosing : ((inner.map (Lexeme.move f)).head?.any fun l =>
                  decide (l.token = .closing)) =
                    inner.head?.any fun l => decide (l.token = .closing) := by
                cases inner <;> rfl
              simp only [List.map_cons, Lexeme.move_mk, List.map_nil, hclosing, hparameters]
              cases inner.head?.any fun l => decide (l.token = .closing) with
              | true => rfl
              | false =>
                  generalize parameters stop (Lexeme.spell left, Lexeme.start stop left) [] inner
                    = result
                  obtain _ | ⟨names, _ | ⟨_, _⟩⟩ := result
                  · rfl
                  · simp only [Except.map, Located.moveIn_ok, Prod.map, List.map_nil, id]
                    cases Call.signature (α := Float) function names <;> rfl
                  · rfl
          | _ => rfl
    | _ => simp
  · cases t <;> simp

/-! ## Summands -/

/-- An argument at other places. -/
def movePart (part : Place × List Lexeme) : Place × List Lexeme :=
  (f part.1, part.2.map (Lexeme.move f))

theorem arguments?_move (stop : Place) (ls : List Lexeme) :
    arguments? (f stop) (ls.map (Lexeme.move f)) =
      (arguments? stop ls).map (Prod.map (List.map (movePart f)) (List.map (Lexeme.move f))) := by
  fun_induction arguments? stop ls with
  | case1 ls hafter => simp [arguments?_eq, hafter]
  | case2 ls l rest hafter _ first hcomma ih =>
      simp [arguments?_eq _ (ls.map _), hafter, hcomma, ih, first, movePart, Function.comp_def]
  | case3 ls l rest hafter _ first hcomma =>
      simp [arguments?_eq, hafter, hcomma, first, movePart]

/-- A shift is read off the tokens alone. -/
@[simp] theorem shift?_move (name : String) (part : List Lexeme) :
    shift? name (part.map (Lexeme.move f)) = shift? name part := by
  ext s
  simp [shift?_eq_some_iff, Function.comp_def]

theorem shifts_move (term : String) (names : List String) (parts : List (Place × List Lexeme)) :
    shifts term names (parts.map (movePart f)) = moveIn f (shifts term names parts) := by
  induction names generalizing parts with
  | nil => cases parts <;> rfl
  | cons name names ih =>
      cases parts with
      | nil => rfl
      | cons part parts =>
          simp only [List.map_cons, movePart, shifts, shift?_move, Lexeme.spell_move, ih]
          cases shift? name part.2 with
          | none => rfl
          | some s => cases shifts term names parts <;> rfl

@[simp] theorem factor_move (ls : List Lexeme) :
    factor (ls.map (Lexeme.move f)) = ((factor ls).1, (factor ls).2.map (Lexeme.move f)) := by
  match ls with
  | [] => rfl
  | [⟨t, _⟩] => cases t <;> rfl
  | ⟨t, _⟩ :: ⟨u, _⟩ :: _ => cases t <;> cases u <;> rfl

section

variable (header : Call Float) (whole : String × Place) (negative : Bool)

theorem call_move (summand : List Lexeme) :
    call header (whole.map id f) negative (summand.map (Lexeme.move f)) =
      moveIn f (call header whole negative summand) := by
  simp only [call, factor_move, Prod.map, id]
  generalize (factor summand).2 = rest
  obtain _ | ⟨⟨t, _⟩, _ | ⟨⟨u, _⟩, inner⟩⟩ := rest
  · rfl
  · cases t <;> rfl
  · cases t with
    | name function =>
        cases u with
        | opening =>
            simp only [List.map_cons, Lexeme.move_mk, arguments?_move]
            by_cases hfunction : function = header.function
            · simp only [hfunction, ne_eq, not_true_eq_false, if_false]
              generalize arguments? whole.2 inner = result
              obtain _ | ⟨parts, _ | ⟨_, _⟩⟩ := result
              · rfl
              · simp only [Option.map_some, Prod.map, List.map_nil, List.length_map, shifts_move]
                by_cases hlength : parts.length = header.parameters.length
                · simp only [hlength, not_true_eq_false, if_false]
                  cases shifts whole.1 header.parameters parts with
                  | error _ => rfl
                  | ok ss =>
                      simp only [Located.moveIn_ok]
                      split <;> rfl
                · simp [hlength]
              · rfl
            · simp [hfunction]
        | _ => rfl
    | _ => rfl

theorem term_move (summand : List Lexeme) :
    term header (whole.map id f) negative (summand.map (Lexeme.move f)) =
      moveIn f (term header whole negative summand) := by
  by_cases h : ∃ l p, summand = [⟨.number l, p⟩]
  · obtain ⟨l, p, rfl⟩ := h
    rfl
  · push Not at h
    have hmoved : ∀ l p, summand.map (Lexeme.move f) ≠ [⟨.number l, p⟩] := by
      intro l p hnumber
      obtain ⟨⟨_, place⟩, rfl, hmove⟩ := List.map_eq_singleton_iff.1 hnumber
      obtain ⟨rfl, -⟩ := Lexeme.mk.inj hmove
      exact h l place rfl
    rw [term_of_ne_number h, term_of_ne_number hmoved, call_move]
    cases call header whole negative summand <;> rfl

end

/-! ## Sums -/

@[simp] theorem splitSummand_move (depth : Nat) (ls : List Lexeme) :
    splitSummand depth (ls.map (Lexeme.move f)) =
      (splitSummand depth ls).map (List.map (Lexeme.move f)) (List.map (Lexeme.move f)) := by
  fun_induction splitSummand depth ls <;> simp_all [splitSummand, Prod.map]

@[simp] theorem splitSign_move (ls : List Lexeme) :
    splitSign (ls.map (Lexeme.move f)) =
      (splitSign ls).map (List.map (Lexeme.move f)) (List.map (Lexeme.move f)) := by
  match ls with
  | [] => rfl
  | ⟨t, _⟩ :: _ => cases t <;> rfl

theorem terms_move (header : Call Float) (stop : Place) (negative : Bool) (ls : List Lexeme) :
    terms header (f stop) negative (ls.map (Lexeme.move f)) =
      moveIn f (terms header stop negative ls) := by
  induction hn : ls.length using Nat.strong_induction_on generalizing negative ls with
  | _ n ih =>
  subst hn
  have hterm := fun whole => term_move f header (Lexeme.spell whole, Lexeme.start stop ls)
  simp only [Prod.map, id] at hterm
  rw [terms_eq, terms_eq]
  simp only [splitSign_move, Prod.map, splitSummand_move, List.map_eq_nil_iff,
    ← List.map_append, List.head?_map, Option.map_map, Function.comp_def, Lexeme.token_move,
    Lexeme.spell_move, Lexeme.start_move, List.isEmpty_map, hterm]
  split_ifs
  · rfl
  · cases term header _ _ _ with
    | error _ => rfl
    | ok t =>
        simp only [Located.moveIn_ok, Except.bind]
        cases hrest : (splitSummand 0 (splitSign ls).2).2 with
        | nil => rfl
        | cons separator rest =>
            have hlength : rest.length < ls.length := by
              have h₁ := length_splitSummand_le 0 (splitSign ls).2
              have h₂ := length_splitSign_le ls
              rw [hrest, List.length_cons] at h₁
              omega
            simp only [List.map_cons, Lexeme.token_move, ih _ hlength _ _ rfl]
            cases terms header stop (separator.token == .minus) rest <;> rfl

/-- **Reading a recurrence commutes with a map of places.** -/
theorem recurrence_move (stop : Place) (ls : List Lexeme) :
    recurrence (f stop) (ls.map (Lexeme.move f)) = moveIn f (recurrence stop ls) := by
  simp only [recurrence, List.takeWhile_map, List.dropWhile_map, Function.comp_def,
    Lexeme.token_move, Lexeme.spell_move, Lexeme.start_move, List.countP_map, List.map_eq_nil_iff,
    ← List.map_drop, signature_move, terms_move]
  split_ifs
  · rfl
  · rfl
  · rfl
  · rfl
  · cases signature _ _ with
    | error _ => rfl
    | ok c =>
        simp only [Located.moveIn_ok]
        cases terms c stop false _ with
        | error _ => rfl
        | ok ts =>
            simp only [Located.moveIn_ok]
            cases Recurrence.checked c (Term.collect ts) <;> rfl

end Parser

/-! ## Texts -/

namespace Place

/-- The place with its offset alone. -/
def forget (p : Place) : Place :=
  ⟨0, 0, p.offset⟩

end Place

end

namespace Glyph

/-- The blanks of a text decide about nothing but lines and columns. -/
theorem scanFrom_filter {p q : Place} (h : p.offset = q.offset) (cs : List Char) :
    (scanFrom p cs).1.map (move Place.forget) =
        (scanFrom q (cs.filter fun c => !Text.isBlank c)).1.map (move Place.forget) ∧
      (scanFrom p cs).2.forget = (scanFrom q (cs.filter fun c => !Text.isBlank c)).2.forget := by
  fun_induction scanFrom p cs generalizing q with
  | case1 p => simp [scanFrom, Place.forget, h]
  | case2 p cs ih => rw [List.filter_cons_of_neg (by decide +kernel)]; exact ih h
  | case3 p c cs _ hblank ih => rw [List.filter_cons_of_neg (by simp [hblank])]; exact ih h
  | case4 p c cs hline hblank rest =>
      rename_i ih
      rw [List.filter_cons_of_pos (by simpa using hblank), scanFrom, if_neg hline, if_neg hblank]
      obtain ⟨hglyphs, hend⟩ := @ih ⟨q.line, q.column + 1, q.offset + 1⟩ (by simp [h])
      refine ⟨?_, hend⟩
      rw [List.map_cons, List.map_cons, hglyphs]
      simp [move, Place.forget, h]

end Glyph

namespace Recurrence

/-- What a text is read as, but for the lines and columns of a fault, is read from its glyphs
without lines and columns. -/
theorem moveIn_parse (text : String) :
    moveIn Place.forget (parse text) =
      match Lexer.tokens ((Glyph.scan text).1.map (Glyph.move Place.forget)) with
      | .error e => .error ⟨.lexical e.fault, e.fragment, e.place⟩
      | .ok ls => Parser.recurrence (Glyph.scan text).2.forget ls := by
  rw [parse, Lexer.tokens_move]
  cases Lexer.tokens (Glyph.scan text).1 with
  | error e => rfl
  | ok ls => exact (Parser.recurrence_move Place.forget (Glyph.scan text).2 ls).symm

/-- Texts with the same glyphs are read alike, but for the lines and columns of a fault. -/
theorem moveIn_parse_eq {text text' : String}
    (h : (text.toList.filter fun c => !Text.isBlank c) =
      text'.toList.filter fun c => !Text.isBlank c) :
    moveIn Place.forget (parse text) = moveIn Place.forget (parse text') := by
  have hscan := Glyph.scanFrom_filter (p := ⟨1, 1, 0⟩) (q := ⟨1, 1, 0⟩) rfl text.toList
  have hscan' := Glyph.scanFrom_filter (p := ⟨1, 1, 0⟩) (q := ⟨1, 1, 0⟩) rfl text'.toList
  rw [h] at hscan
  simp only [moveIn_parse, Glyph.scan, hscan, hscan']

/-- Texts with the same glyphs are read as the same recurrence, if at all. -/
theorem toOption_parse_eq {text text' : String}
    (h : (text.toList.filter fun c => !Text.isBlank c) =
      text'.toList.filter fun c => !Text.isBlank c) :
    (parse text).toOption = (parse text').toOption := by
  obtain ⟨r, hr, hr'⟩ | ⟨e, e', he, he', -⟩ := Located.moveIn_eq_moveIn (moveIn_parse_eq h)
  · rw [hr, hr']
  · rw [he, he']
    rfl

/-- **Blanks carry no meaning.**  Texts with the same characters, blanks left out, are both read as
the same recurrence, or both refused with the same message, fragment and offset. -/
theorem parse_agree_of_filter_eq {text text' : String}
    (h : (text.toList.filter fun c => !Text.isBlank c) =
      text'.toList.filter fun c => !Text.isBlank c) :
    (∃ r, parse text = .ok r ∧ parse text' = .ok r) ∨
      ∃ e e', parse text = .error e ∧ parse text' = .error e' ∧ e.message = e'.message ∧
        e.fragment = e'.fragment ∧ e.place.offset = e'.place.offset := by
  refine (Located.moveIn_eq_moveIn (moveIn_parse_eq h)).imp_right ?_
  rintro ⟨⟨fault, fragment, place⟩, ⟨fault', fragment', place'⟩, he, he', hmove⟩
  obtain ⟨rfl, rfl, hplace⟩ := Located.mk.inj hmove
  exact ⟨_, _, he, he', rfl, rfl, (Place.mk.inj hplace).2.2⟩

/-- A text broken up within a number and a name is still the same recurrence. -/
theorem parse_agree_of_broken_words :
    let text := "T(n) = 10*T(na-1) + T(n-2)"
    let text' := "T( n )\n= 1 0 *T(n\ta - 1)\n+\tT(n - 2)\r\n"
    ((text.toList.filter fun c => !Text.isBlank c) =
        text'.toList.filter fun c => !Text.isBlank c) ∧
      ((∃ r, parse text = .ok r ∧ parse text' = .ok r) ∨
        ∃ e e', parse text = .error e ∧ parse text' = .error e' ∧ e.message = e'.message ∧
          e.fragment = e'.fragment ∧ e.place.offset = e'.place.offset) :=
  ⟨by decide +kernel, parse_agree_of_filter_eq (by decide +kernel)⟩

end Recurrence

end GrowthOrder
