import GrowthOrder.Proofs.Recurrence.Parser
import GrowthOrder.Proofs.Token.Tiling

/-!
# GrowthOrder.Proofs.Recurrence.Refusals

What a parse error says about the text.  An error quotes a stretch of the lexemes and stands at one
of them, or at the end; `Quotes` says so for one stretch, and each reader has a lemma that says so
for all of its faults.

* `Refusal` — an error quotes the lexemes it is about, and no rule of the model is broken: the
  readers check more than the model does.
* `Recurrence.pointsInto_of_parse_eq_error` — the place and the fragment of an error in terms of the
  characters of the text.
-/

namespace GrowthOrder

namespace Lexeme

theorem spell_singleton_name (name : String) (place : Place) :
    spell [⟨.name name, place⟩] = name := by
  simp [spell, Token.spelling]

theorem toList_spell (ls : List Lexeme) : (spell ls).toList = chars ls :=
  String.toList_ofList

theorem start_append (stop : Place) (ls ms : List Lexeme) :
    start stop (ls ++ ms) = start (start stop ms) ls := by
  cases ls <;> rfl

/-- Where lexemes start does not depend on what is behind them, if there are any. -/
theorem start_eq_of_ne_nil {ls : List Lexeme} (h : ls ≠ []) (stop stop' : Place)
    (after : List Lexeme) : start stop' ls = start stop (ls ++ after) := by
  cases ls with
  | nil => exact absurd rfl h
  | cons l ls => rfl

end Lexeme

namespace Parser

open Grammar

/-! ## Quoting a stretch of lexemes -/

/-- Some lexemes hold a stretch `inner ++ outer` that reads `fragment`, and `outer` starts at
`place`; a stretch that holds anything holds the lexeme at this place. -/
def Quotes (stop : Place) (ls : List Lexeme) (fragment : String) (place : Place) : Prop :=
  ∃ before inner outer after, ls = before ++ (inner ++ outer) ++ after ∧
    fragment = Lexeme.spell (inner ++ outer) ∧ place = Lexeme.start stop (outer ++ after) ∧
    (outer = [] → inner = [])

namespace Quotes

variable {stop : Place} {ls : List Lexeme} {fragment : String} {place : Place}

/-- A stretch at its own start. -/
theorem stretch (stop : Place) (before part after : List Lexeme) :
    Quotes stop (before ++ part ++ after) (Lexeme.spell part)
      (Lexeme.start stop (part ++ after)) :=
  ⟨before, [], part, after, by simp, by simp, rfl, fun _ => rfl⟩

/-- Lexemes as a whole. -/
theorem whole (stop : Place) (ls : List Lexeme) :
    Quotes stop ls (Lexeme.spell ls) (Lexeme.start stop ls) := by
  simpa using stretch stop [] ls []

/-- What is quoted stays quoted with more lexemes around. -/
theorem within {after : List Lexeme} (h : Quotes (Lexeme.start stop after) ls fragment place)
    (before : List Lexeme) : Quotes stop (before ++ ls ++ after) fragment place := by
  obtain ⟨first, inner, outer, last, rfl, rfl, rfl, houter⟩ := h
  refine ⟨before ++ first, inner, outer, last ++ after, by simp, rfl, ?_, houter⟩
  rw [← List.append_assoc, Lexeme.start_append stop]

end Quotes

/-- An error about some lexemes: it quotes a stretch of them, and the model has no part in it. -/
structure Refusal (stop : Place) (ls : List Lexeme) (e : ParseError) : Prop where
  quotes : Quotes stop ls e.fragment e.place
  own : ∀ fault, e.fault ≠ .model fault

/-- The one error of a branch is a refusal if it quotes something and is no fault of the model. -/
theorem Refusal.of_error {stop : Place} {ls : List Lexeme} {α : Type} {found e : ParseError}
    (h : (.error found : Except ParseError α) = .error e)
    (hquotes : Quotes stop ls found.fragment found.place)
    (hown : ∀ fault, found.fault ≠ .model fault) : Refusal stop ls e := by
  obtain rfl := Except.error.inj h
  exact ⟨hquotes, hown⟩

theorem Refusal.within {stop : Place} {ls after : List Lexeme} {e : ParseError}
    (h : Refusal (Lexeme.start stop after) ls e) (before : List Lexeme) :
    Refusal stop (before ++ ls ++ after) e :=
  ⟨h.quotes.within before, h.own⟩

/-! ## Arguments -/

/-- An argument is quoted where it starts. -/
theorem Quotes.argument (stop : Place) (before ls after : List Lexeme) :
    Quotes stop (before ++ ls ++ after) (Lexeme.spell (argument ls))
      (Lexeme.start stop (ls ++ after)) := by
  have h := Quotes.stretch stop before (Parser.argument ls) (afterArgument ls ++ after)
  rwa [List.append_assoc, ← List.append_assoc (Parser.argument ls),
    argument_append_afterArgument, ← List.append_assoc] at h

/-- The parts of a call are quoted where they start.  A comma or a parenthesis stands behind each of
them, so `stop'`, where the readers think that the text ends, does not matter. -/
theorem quotes_of_arguments? {stop' : Place} {ls rest : List Lexeme}
    {parts : List (Place × List Lexeme)} (h : arguments? stop' ls = some (parts, rest))
    (stop : Place) (before after : List Lexeme) :
    ∀ part ∈ parts, Quotes stop (before ++ ls ++ after) (Lexeme.spell part.2) part.1 := by
  induction hn : ls.length using Nat.strong_induction_on generalizing before ls parts with
  | _ n ih =>
  subst hn
  rw [arguments?_eq] at h
  cases hafter : afterArgument ls with
  | nil => simp [hafter] at h
  | cons l tail =>
      have hls : ls = argument ls ++ [l] ++ tail := by
        rw [List.append_assoc, List.singleton_append, ← hafter, argument_append_afterArgument]
      have hstart : Lexeme.start stop' ls = Lexeme.start stop (ls ++ after) :=
        Lexeme.start_eq_of_ne_nil (by rw [hls]; simp) _ _ _
      have hfirst := Quotes.argument stop before ls after
      rw [← hstart] at hfirst
      simp only [hafter] at h
      split at h
      · obtain ⟨⟨more, rest'⟩, hmore, hparts⟩ := Option.map_eq_some_iff.1 h
        obtain ⟨rfl, rfl⟩ := Prod.mk.inj hparts
        have hlength := congrArg List.length hls
        rw [List.length_append, List.length_append, List.length_singleton] at hlength
        have htail := ih tail.length (by omega) hmore (before ++ (argument ls ++ [l])) rfl
        rw [List.append_assoc before, ← hls] at htail
        exact List.forall_mem_cons.2 ⟨hfirst, htail⟩
      · obtain ⟨rfl, rfl⟩ := Prod.mk.inj (Option.some.inj h)
        exact List.forall_mem_singleton.2 hfirst

section

variable {stop : Place} {whole : String × Place} {all : List Lexeme} {e : ParseError}

/-- A fault of an argument quotes it. -/
theorem refusal_shifts {term : String} {names : List String} {parts : List (Place × List Lexeme)}
    (hparts : ∀ part ∈ parts, Quotes stop all (Lexeme.spell part.2) part.1)
    (h : shifts term names parts = .error e) : Refusal stop all e := by
  fun_induction shifts term names parts with
  | case1 =>
      exact .of_error h (hparts _ List.mem_cons_self) fun _ => ParseFault.noConfusion
  | case2 =>
      rename_i herror ih
      exact ih (fun part hpart => hparts part (List.mem_cons_of_mem _ hpart)) (herror.trans h)
  | case3 => exact absurd h (by simp)
  | case4 => exact absurd h (by simp)

/-! ## Summands -/

/-- What is left behind a factor is the end of the summand. -/
theorem factor_suffix (summand : List Lexeme) : (factor summand).2 <:+ summand := by
  unfold factor
  split
  · exact ⟨[_, _], rfl⟩
  · exact ⟨[_], rfl⟩
  · exact List.suffix_rfl

/-- A fault of a call quotes the summand or an argument. -/
theorem refusal_call {header : Call Float} (hvalid : ∀ name ∈ header.function :: header.parameters,
      Name.isValid name = true) {before sign summand after : List Lexeme} {negative : Bool}
    (h : call header (Lexeme.spell (sign ++ summand), Lexeme.start stop (sign ++ summand ++ after))
      negative summand = .error e) :
    Refusal stop (before ++ (sign ++ summand) ++ after) e := by
  have hwhole := Quotes.stretch stop before (sign ++ summand) after
  obtain ⟨front, hfront⟩ := factor_suffix summand
  simp only [call] at h
  split at h
  · next function place place' inner hrest =>
    rw [hrest] at hfront
    split at h
    · obtain rfl := Except.error.inj h
      refine ⟨⟨before, sign ++ front, ⟨.name function, place⟩ :: ⟨.opening, place'⟩ :: inner, after,
        ?_, ?_, rfl, ?_⟩, fun _ => ParseFault.noConfusion⟩
      · simp [← hfront]
      · simp [← hfront]
      · exact fun hnil => absurd hnil (List.cons_ne_nil _ _)
    · next hfunction =>
      split at h
      · exact .of_error h hwhole fun _ => ParseFault.noConfusion
      · exact .of_error h hwhole fun _ => ParseFault.noConfusion
      · next parts hparts =>
        split at h
        · exact .of_error h hwhole fun _ => ParseFault.noConfusion
        · next hlength =>
          split at h
          · next e' hshifts =>
            obtain rfl := Except.error.inj h
            refine refusal_shifts ?_ hshifts
            have hquotes := quotes_of_arguments? hparts stop
              (before ++ sign ++ front ++ [⟨.name function, place⟩, ⟨.opening, place'⟩]) after
            simpa [← hfront] using hquotes
          · next ss hss =>
            obtain ⟨as, -, hnames, rfl⟩ := (shifts_eq_ok_iff _ (not_not.1 hlength)).1 hss
            rw [not_not.1 hfunction, Call.checked_eq_ok_iff.2
              ⟨by rw [← hnames, List.length_map, List.length_map], hvalid, rfl⟩] at h
            exact absurd h (by simp)
  · exact .of_error h hwhole fun _ => ParseFault.noConfusion

theorem refusal_term {header : Call Float} (hvalid : ∀ name ∈ header.function :: header.parameters,
      Name.isValid name = true) {before sign summand after : List Lexeme} {negative : Bool}
    (h : term header (Lexeme.spell (sign ++ summand), Lexeme.start stop (sign ++ summand ++ after))
      negative summand = .error e) :
    Refusal stop (before ++ (sign ++ summand) ++ after) e := by
  unfold term at h
  split at h
  · exact absurd h (by simp)
  · split at h
    · next hcall =>
      obtain rfl := Except.error.inj h
      exact refusal_call hvalid hcall
    · exact absurd h (by simp)

/-! ## Sums -/

theorem append_splitSign (ls : List Lexeme) : (splitSign ls).1 ++ (splitSign ls).2 = ls := by
  unfold splitSign
  split <;> rfl

/-- A fault of a sum quotes one of its summands, or something in one. -/
theorem refusal_terms {header : Call Float} (hvalid : ∀ name ∈ header.function :: header.parameters,
      Name.isValid name = true) {negative : Bool} {ls : List Lexeme} (before : List Lexeme)
    (h : terms header stop negative ls = .error e) : Refusal stop (before ++ ls) e := by
  induction hn : ls.length using Nat.strong_induction_on generalizing before negative ls with
  | _ n ih =>
  subst hn
  have hls : (splitSign ls).1 ++ (splitSummand 0 (splitSign ls).2).1 ++
      (splitSummand 0 (splitSign ls).2).2 = ls := by
    rw [List.append_assoc, append_splitSummand, append_splitSign]
  rw [terms_eq] at h
  dsimp only at h
  generalize (splitSign ls).1 = sign at h hls
  generalize (splitSummand 0 (splitSign ls).2).1 = summand at h hls
  generalize (splitSummand 0 (splitSign ls).2).2 = after at h hls
  have hquotes := Quotes.stretch stop before (sign ++ summand) after
  have hterm {negative : Bool} {e : ParseError}
      (h : term header (Lexeme.spell (sign ++ summand), Lexeme.start stop ls) negative summand =
        .error e) : Refusal stop (before ++ ls) e := by
    rw [← hls] at h ⊢
    rw [← List.append_assoc]
    exact refusal_term hvalid h
  rw [hls, List.append_assoc, hls] at hquotes
  split at h
  · exact .of_error h hquotes fun _ => ParseFault.noConfusion
  · generalize hfound : term header _ _ summand = found at h
    cases found with
    | error e' =>
        obtain rfl := Except.error.inj h
        exact hterm hfound
    | ok t =>
        cases after with
        | nil => exact absurd h (by simp [Except.bind])
        | cons separator rest =>
            have hlength := congrArg List.length hls
            rw [List.length_append, List.length_cons] at hlength
            have hmore : (terms header stop (separator.token == .minus) rest).map (t :: ·) =
                .error e := h
            cases hrest : terms header stop (separator.token == .minus) rest with
            | ok ts => exact absurd (hrest ▸ hmore) (by simp [Except.map])
            | error e' =>
                obtain rfl : e' = e := Except.error.inj (hrest ▸ hmore)
                have htail := ih rest.length (by omega) (before ++ (sign ++ summand) ++ [separator])
                  hrest rfl
                simpa [← hls] using htail

/-! ## The left-hand side -/

/-- A fault behind the parenthesis quotes a variable, or the left-hand side as a whole. -/
theorem refusal_parameters (hwhole : Quotes stop all whole.1 whole.2) {before : List String}
    {front ls : List Lexeme} (hall : front ++ ls = all)
    (h : parameters stop whole before ls = .error e) : Refusal stop all e := by
  have hquotes (ls front : List Lexeme) (hall : front ++ ls = all) :
      Quotes stop all (Lexeme.spell (argument ls)) (Lexeme.start stop ls) := by
    simpa [hall] using Quotes.argument stop front ls []
  fun_induction parameters stop whole before ls generalizing front with
  | case1 before ls name place hargument =>
      obtain rfl := Except.error.inj h
      have hplace : Lexeme.start stop ls = place := by
        rw [← argument_append_afterArgument ls, hargument]
        rfl
      have hpart := hquotes ls front hall
      rw [hargument, hplace, Lexeme.spell_singleton_name] at hpart
      exact ⟨hpart, fun _ => ParseFault.noConfusion⟩
  | case2 =>
      exact .of_error h hwhole fun _ => ParseFault.noConfusion
  | case3 before ls name place hargument hnew l rest hafter =>
      rename_i hcomma ih
      have hls := argument_append_afterArgument ls
      rw [hafter] at hls
      have hrest : front ++ (argument ls ++ [l]) ++ rest = all := by
        rw [← hall, List.append_assoc, List.append_assoc, List.singleton_append, hls]
      exact ih hrest h
  | case4 => exact absurd h (by simp)
  | case5 before ls hargument =>
      exact .of_error h (hquotes ls front hall) fun _ => ParseFault.noConfusion

/-- A fault of the left-hand side quotes it, its first words, or a variable. -/
theorem refusal_signature {left : List Lexeme}
    (hvalid : ∀ name, .name name ∈ left.map Lexeme.token → Name.isValid name = true)
    (h : signature stop left = .error e) : Refusal stop left e := by
  have hleft := List.takeWhile_append_dropWhile (p := fun l : Lexeme => l.token.isWord) (l := left)
  have hwhole := Quotes.whole stop left
  simp only [signature] at h
  split at h
  · exact .of_error h hwhole fun _ => ParseFault.noConfusion
  · next function place place' inner hwords hrest =>
    split at h
    · exact .of_error h hwhole fun _ => ParseFault.noConfusion
    · split at h
      · next hparameters =>
        obtain rfl := Except.error.inj h
        have hinner : [⟨.name function, place⟩, ⟨.opening, place'⟩] ++ inner = left := by
          rw [← hleft, hwords, hrest]
          rfl
        exact refusal_parameters hwhole hinner hparameters
      · next names hnames =>
        obtain ⟨header, htokens, rfl, rfl, -⟩ := exists_header hwords hrest hnames
        rw [signature_call header (valid_of_tokens htokens hvalid)] at h
        exact absurd h (by simp)
      · exact .of_error h hwhole fun _ => ParseFault.noConfusion
  · exact .of_error h hwhole fun _ => ParseFault.noConfusion
  · obtain rfl := Except.error.inj h
    have hwords := Quotes.stretch stop [] (left.takeWhile fun l => l.token.isWord)
      (left.dropWhile fun l => l.token.isWord)
    rw [hleft, List.nil_append, hleft] at hwords
    exact ⟨hwords, fun _ => ParseFault.noConfusion⟩

/-! ## Recurrences -/

/-- **An error quotes the lexemes it is about, and no rule of the model is broken.** -/
theorem refusal_recurrence {ls : List Lexeme}
    (hvalid : ∀ name, .name name ∈ ls.map Lexeme.token → Name.isValid name = true)
    (h : recurrence stop ls = .error e) : Refusal stop ls e := by
  have hsplit := List.takeWhile_append_dropWhile (p := fun l : Lexeme => l.token != .equals)
    (l := ls)
  simp only [recurrence] at h
  generalize ls.takeWhile (fun l : Lexeme => l.token != .equals) = left at h hsplit
  generalize ls.dropWhile (fun l : Lexeme => l.token != .equals) = fromEquals at h hsplit
  have hnames : ∀ name, .name name ∈ left.map Lexeme.token → Name.isValid name = true :=
    fun name hname => hvalid name (by simp [← hsplit, hname])
  split at h
  · next hnil =>
    exact .of_error h (hnil ▸ Quotes.whole stop []) fun _ => ParseFault.noConfusion
  split at h
  · exact .of_error h (Quotes.whole stop ls) fun _ => ParseFault.noConfusion
  split at h
  · exact .of_error h (Quotes.stretch stop [] [] ls) fun _ => ParseFault.noConfusion
  split at h
  · obtain rfl := Except.error.inj h
    have hend : Quotes stop (ls ++ [] ++ []) "" stop := Quotes.stretch stop ls [] []
    rw [List.append_nil, List.append_nil] at hend
    exact ⟨hend, fun _ => ParseFault.noConfusion⟩
  split at h
  · next hsignature =>
    obtain rfl := Except.error.inj h
    have hleft := (refusal_signature hnames hsignature).within []
    rwa [List.nil_append, hsplit] at hleft
  · next c hsignature =>
    obtain ⟨header, hheader, hdistinct, rfl⟩ := (signature_eq_ok_iff hnames).1 hsignature
    have hvalid' := valid_of_tokens hheader hnames
    split at h
    · next hterms =>
      obtain rfl := Except.error.inj h
      have hright := refusal_terms hvalid' (left ++ fromEquals.take 1) hterms
      rwa [List.append_assoc, List.take_append_drop, hsplit] at hright
    · next ts hterms =>
      obtain ⟨s, -, hfits, rfl⟩ := (terms_eq_ok_iff stop hvalid').1 hterms
      have hscoped : (Equation.mk header s).Scoped := ⟨hdistinct, hfits⟩
      have hchecked : Recurrence.checked header.call (Term.collect s.terms) = .ok _ :=
        checked_recurrence hscoped
      rw [hchecked] at h
      exact absurd h (by simp)

end

end Parser

/-! ## Errors and the text -/

/-- Whether an error fits the characters of a text, without blanks `s`.  Its offset is one of a
character of `s` or of the end; line and column are those that the text has there; and the fragment
is a stretch of `s` around the offset. -/
structure Located.PointsInto {ε : Type} (text : String) (e : Located ε) : Prop where
  offset : e.place.offset ≤ (Text.strip text.toList).length
  place : ∃ front back, text.toList = front ++ back ∧
    Text.strip front = (Text.strip text.toList).take e.place.offset ∧
    back.head? = (Text.strip text.toList)[e.place.offset]? ∧ e.place = Place.behind front
  fragment : ∃ first last, first ≤ e.place.offset ∧ e.place.offset ≤ last ∧
    last ≤ (Text.strip text.toList).length ∧
    e.fragment.toList = (Text.strip text.toList).extract first last ∧
    (e.fragment ≠ "" → e.place.offset < last)

/-- What quotes a stretch of the glyphs of a text points into the text. -/
theorem Located.pointsInto_of_scan {ε : Type} {text : String} {e : Located ε}
    {before inner outer after : List Glyph}
    (hscan : (Glyph.scan text).1 = before ++ inner ++ (outer ++ after))
    (hfragment : e.fragment.toList = Glyph.chars (inner ++ outer))
    (hplace : e.place = Glyph.start (Glyph.scan text).2 (outer ++ after))
    (houter : outer = [] → inner = []) : e.PointsInto text := by
  obtain ⟨front, back, htext, hfront, hback, hhead, hstart⟩ := Glyph.scan_split hscan
  have hoffset : e.place.offset = (before ++ inner).length := by
    rw [hplace, hstart, Place.behind, hfront, Glyph.length_chars]
  have hstrip : Text.strip text.toList = Text.strip front ++ Text.strip back := by
    rw [htext, Text.strip, List.filter_append]
    rfl
  have hlength : (Text.strip front).length = e.place.offset := by
    rw [hoffset, hfront, Glyph.length_chars]
  have hall : Text.strip text.toList =
      Glyph.chars before ++ Glyph.chars (inner ++ outer) ++ Glyph.chars after := by
    rw [← Glyph.chars_scan, hscan]
    simp
  have hcount := congrArg List.length hall
  rw [List.length_append, List.length_append, Glyph.length_chars, Glyph.length_chars,
    Glyph.length_chars, List.length_append] at hcount
  rw [List.length_append] at hoffset
  refine ⟨by omega, ⟨front, back, htext, ?_, ?_, hplace.trans hstart⟩,
    before.length, before.length + (inner ++ outer).length, by omega, ?_, ?_, ?_, fun hne => ?_⟩
  · rw [hstrip, List.take_left' hlength]
  · rw [hstrip, ← hlength, List.getElem?_append_right (Nat.le_refl _), Nat.sub_self,
      ← List.head?_eq_getElem?, Text.head?_strip hhead]
  · rw [List.length_append]
    omega
  · rw [List.length_append]
    omega
  · rw [hfragment, hall, ← Glyph.length_chars before, ← Glyph.length_chars (inner ++ outer),
      Text.extract_middle]
  · have houter_ne : outer ≠ [] := by
      rintro rfl
      rw [houter rfl] at hfragment
      exact hne (String.toList_eq_nil_iff.1 hfragment)
    have hpos := List.length_pos_of_ne_nil houter_ne
    rw [List.length_append]
    omega

/-- A text that cannot be read points at the place where no token starts. -/
theorem Lexer.pointsInto_of_tokens_eq_error {text : String} {e : Located LexicalFault}
    (h : tokens (Glyph.scan text).1 = .error e) : e.PointsInto text := by
  obtain ⟨before, g, gs, -, hscan, -, hfault⟩ := exists_of_tokens_eq_error h
  obtain ⟨hplace, more, after, rfl, hfragment⟩ := exists_of_token_eq_error hfault
  have hscan' : (Glyph.scan text).1 = before ++ [] ++ (g :: more ++ after) := by simpa using hscan
  exact Located.pointsInto_of_scan hscan' (by rw [hfragment, String.toList_ofList]; rfl) hplace
    (by simp)

/-- What quotes the lexemes of a text points into the text. -/
theorem Lexer.Tiled.pointsInto {text : String} {ls : List Lexeme} {e : ParseError}
    (htiled : Tiled (Glyph.scan text).1 ls)
    (h : Parser.Quotes (Glyph.scan text).2 ls e.fragment e.place) : e.PointsInto text := by
  obtain ⟨before, inner, outer, after, rfl, hfragment, hplace, houter⟩ := h
  rw [List.append_assoc, List.append_assoc] at htiled
  obtain ⟨before', rest, hscan, -, hrest⟩ := htiled.split
  obtain ⟨inner', rest, rfl, hinner, hrest⟩ := hrest.split
  obtain ⟨outer', after', rfl, houter', hafter⟩ := hrest.split
  have hscan' : (Glyph.scan text).1 = before' ++ inner' ++ (outer' ++ after') := by
    rw [hscan, List.append_assoc]
  refine Located.pointsInto_of_scan hscan' ?_ (hplace.trans (hrest.start_eq _)) ?_
  · rw [hfragment, Lexeme.toList_spell, Lexeme.chars_append, Glyph.chars_append, hinner, houter']
  · rintro rfl
    rw [houter (hrest.eq_nil_of_chars houter'.symm)] at hinner
    exact List.map_eq_nil_iff.1 hinner

/-- **Every error points into the text.** -/
theorem Recurrence.pointsInto_of_parse_eq_error {text : String} {e : ParseError}
    (h : Recurrence.parse text = .error e) : e.PointsInto text := by
  rw [Recurrence.parse] at h
  cases htokens : Lexer.tokens (Glyph.scan text).1 with
  | error fault =>
      rw [htokens] at h
      obtain rfl := Except.error.inj h
      have hpoints := Lexer.pointsInto_of_tokens_eq_error htokens
      exact ⟨hpoints.offset, hpoints.place, hpoints.fragment⟩
  | ok ls =>
      rw [htokens] at h
      exact (Lexer.tokens_eq_ok_iff.1 htokens).pointsInto
        (Parser.refusal_recurrence (Lexer.isValid_of_tokens htokens) h).quotes

/-- In the second line of a text, inside of the summand that it quotes. -/
theorem Recurrence.pointsInto_in_second_line :
    ∃ e, Recurrence.parse "D(m, n) = D(m-1, n)\n  + 2*E(m, n-1)" = .error e ∧
      e.fragment = "2*E(m,n-1)" ∧ e.place = ⟨2, 7, 18⟩ ∧
      e.PointsInto "D(m, n) = D(m-1, n)\n  + 2*E(m, n-1)" := by
  have hplace : ((parse "D(m, n) = D(m-1, n)\n  + 2*E(m, n-1)").map fun _ => ()).mapError
      (fun e => (e.fragment, e.place)) = .error ("2*E(m,n-1)", ⟨2, 7, 18⟩) := by decide +kernel
  generalize hread : parse _ = result at hplace ⊢
  cases result with
  | error e =>
      obtain ⟨hfragment, hplace⟩ := Prod.mk.inj (Except.error.inj hplace)
      exact ⟨e, rfl, hfragment, hplace, pointsInto_of_parse_eq_error hread⟩
  | ok r => cases hplace

end GrowthOrder
