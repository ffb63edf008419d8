import GrowthOrder.Proofs.Token.Lexer

/-!
# GrowthOrder.Proofs.Token.Tiling

The tokens of a text tile it.  `Tiled gs ls` cuts glyphs into lexemes: each token is written with
the glyphs from its place on and ends in front of the rest.

* `tokens_eq_ok_iff` — glyphs are read as exactly the lexemes that they can be cut into.
* `exists_of_tokens_eq_error` — a fault shows behind glyphs that are read on their own.
* `tokens_tile` — what both mean for the characters of a text.
* `tokens_of_mayPrecede` — tokens that may follow each other are read from the text they write.
* `isValid_iff_tokens` — a text is a name exactly if it is read as that name and nothing else.
-/

namespace GrowthOrder

namespace Lexeme

/-- The characters that some lexemes are written with. -/
def chars (ls : List Lexeme) : List Char :=
  ls.flatMap fun l => l.token.spelling

@[simp] theorem chars_nil : chars [] = [] := rfl

@[simp] theorem chars_cons (l : Lexeme) (ls : List Lexeme) :
    chars (l :: ls) = l.token.spelling ++ chars ls :=
  List.flatMap_cons

@[simp] theorem chars_append (ls ms : List Lexeme) : chars (ls ++ ms) = chars ls ++ chars ms :=
  List.flatMap_append

end Lexeme

namespace Lexer

/-! ## Single tokens -/

/-- A run goes on up to where its test fails. -/
theorem exists_run (p : Char → Bool) (gs : List Glyph) :
    ∃ front, gs = front ++ (run p gs).2 ∧ Glyph.chars front = (run p gs).1 ∧
      ∀ c ∈ (Glyph.chars (run p gs).2).head?, p c = false := by
  refine ⟨gs.takeWhile fun g => p g.char, List.takeWhile_append_dropWhile.symm, rfl, ?_⟩
  have hhead := List.head?_dropWhile_not (fun g : Glyph => p g.char) gs
  intro c hc
  rw [run, Glyph.chars, List.head?_map, Option.mem_map] at hc
  obtain ⟨g, hg, rfl⟩ := hc
  rw [Option.mem_def.1 hg] at hhead
  exact hhead

/-- The glyphs `g :: more` are a token written out, and it ends in front of `after`. -/
structure Spells (g : Glyph) (more after : List Glyph) (t : Token) : Prop where
  written : t.IsWritten
  spelling : Glyph.chars (g :: more) = t.spelling
  ends : t.EndsBefore (Glyph.chars after)

theorem spells_of_number {g : Glyph} (hg : g.char.isDigit = true) {gs after : List Glyph}
    {t : Token} (h : number g gs = .ok (t, after)) :
    ∃ more, gs = more ++ after ∧ Spells g more after t := by
  obtain ⟨more, hgs, hwhole, hends⟩ := exists_run Char.isDigit gs
  have hdigits : ∀ c ∈ g.char :: (run Char.isDigit gs).1, c.isDigit = true :=
    List.forall_mem_cons.2 ⟨hg, List.all_eq_true.1 (all_run Char.isDigit gs)⟩
  have hspelling : Glyph.chars (g :: more) = g.char :: (run Char.isDigit gs).1 := by
    rw [← hwhole]
    rfl
  unfold number at h
  dsimp only at h
  split at h
  · next hnil =>
    obtain ⟨rfl, rfl⟩ := Prod.mk.inj (Except.ok.inj h)
    rw [hnil] at hgs
    exact ⟨more, hgs, ⟨List.cons_ne_nil _ _, hdigits, by simp⟩, hspelling,
      Token.endsBefore_nil _⟩
  · next point tail hpoint =>
    rw [hpoint] at hgs hends
    have hpointDigit : point.char.isDigit = false := hends point.char rfl
    split at h
    · next hdot =>
      obtain ⟨behind, htail, hfraction, hends'⟩ := exists_run Char.isDigit tail
      split at h
      · exact absurd h (by simp)
      · next hne =>
        obtain ⟨rfl, rfl⟩ := Prod.mk.inj (Except.ok.inj h)
        refine ⟨more ++ point :: behind, ?_, ⟨List.cons_ne_nil _ _, hdigits, ?_⟩, ?_, ?_⟩
        · rw [List.append_assoc, List.cons_append, ← htail]
          exact hgs
        · exact List.all_eq_true.1 (all_run Char.isDigit tail)
        · rw [Token.spelling, Literal.spelling, if_neg hne, ← hfraction, ← hspelling, ← hdot]
          simp
        · exact fun c hc => ⟨hends' c hc, fun hnil => absurd hnil hne⟩
    · next hdot =>
      obtain ⟨rfl, rfl⟩ := Prod.mk.inj (Except.ok.inj h)
      refine ⟨more, hgs, ⟨List.cons_ne_nil _ _, hdigits, by simp⟩, hspelling, fun c hc => ?_⟩
      obtain rfl := Option.some.inj hc
      exact ⟨hpointDigit, fun _ => hdot⟩

theorem spells_of_token {g : Glyph} {gs after : List Glyph} {t : Token}
    (h : token g gs = .ok (t, after)) : ∃ more, gs = more ++ after ∧ Spells g more after t := by
  have hname (s : String) (hs : t = .name s) : Name.isValid s = true :=
    isValid_of_token (hs ▸ h)
  unfold token at h
  split at h
  · next hdigit => exact spells_of_number hdigit h
  · split at h
    · next u hsign =>
      obtain ⟨rfl, rfl⟩ := Prod.mk.inj (Except.ok.inj h)
      refine ⟨[], rfl, ?_⟩
      unfold Token.ofSign? at hsign
      split at hsign
      case h_8 => exact absurd hsign (by simp)
      all_goals
        next hg =>
        obtain rfl := Option.some.inj hsign
        exact ⟨trivial, congrArg (fun c => [c]) hg, trivial⟩
    · split at h
      · obtain ⟨rfl, rfl⟩ := Prod.mk.inj (Except.ok.inj h)
        obtain ⟨more, hgs, hword, hends⟩ := exists_run Name.isContinue gs
        refine ⟨more, hgs, hname _ rfl, ?_, hends⟩
        rw [Token.spelling, String.toList_ofList, ← hword]
        rfl
      · split at h <;> exact absurd h (by simp)

/-- **A token is read exactly from the glyphs that it is written with, if it ends behind them.** -/
theorem token_eq_ok_iff {g : Glyph} {gs after : List Glyph} {t : Token} :
    token g gs = .ok (t, after) ↔ ∃ more, gs = more ++ after ∧ Spells g more after t := by
  constructor
  · exact spells_of_token
  · rintro ⟨more, rfl, hspells⟩
    have hchars : Glyph.chars (g :: (more ++ after)) = t.spelling ++ Glyph.chars after := by
      rw [← hspells.spelling]
      simp
    obtain ⟨after', htoken, -⟩ := token_of_spelling hspells.written hchars hspells.ends
    obtain ⟨more', hsplit, hspells'⟩ := spells_of_token htoken
    have hlength : more.length = more'.length := by
      have h := congrArg List.length (hspells.spelling.trans hspells'.spelling.symm)
      simpa using h
    rw [htoken, (List.append_inj hsplit hlength).2]

/-- A fault shows at the glyph where no token starts, and quotes glyphs from there on. -/
theorem exists_of_token_eq_error {g : Glyph} {gs : List Glyph} {e : Located LexicalFault}
    (h : token g gs = .error e) :
    e.place = g.place ∧ ∃ more after, gs = more ++ after ∧
      e.fragment = String.ofList (Glyph.chars (g :: more)) := by
  unfold token at h
  split at h
  · unfold number at h
    dsimp only at h
    split at h
    · exact absurd h (by simp)
    · next point tail hpoint =>
      obtain ⟨more, hgs, hwhole, -⟩ := exists_run Char.isDigit gs
      split at h
      · next hdot =>
        split at h
        · obtain rfl := Except.error.inj h
          refine ⟨rfl, more ++ [point], tail, ?_, ?_⟩
          · rw [List.append_assoc, List.singleton_append, ← hpoint]
            exact hgs
          · rw [← hwhole, ← hdot]
            simp [Glyph.chars]
        · exact absurd h (by simp)
      · exact absurd h (by simp)
  · split at h
    · exact absurd h (by simp)
    · split at h
      · exact absurd h (by simp)
      · split at h
        · obtain rfl := Except.error.inj h
          obtain ⟨more, hgs, hword, -⟩ := exists_run Name.isContinue gs
          refine ⟨rfl, more, _, hgs, ?_⟩
          rw [← hword]
          rfl
        · obtain rfl := Except.error.inj h
          exact ⟨rfl, [], gs, rfl, rfl⟩

/-! ## Cutting glyphs into lexemes -/

/-- Glyphs cut into lexemes, each of which ends in front of the rest. -/
inductive Tiled : List Glyph → List Lexeme → Prop
  | nil : Tiled [] []
  | cons {g : Glyph} {more rest : List Glyph} {t : Token} {ls : List Lexeme}
      (spells : Spells g more rest t) (tail : Tiled rest ls) :
      Tiled (g :: (more ++ rest)) (⟨t, g.place⟩ :: ls)

/-- **Glyphs are read as exactly the lexemes that they can be cut into.** -/
theorem tokens_eq_ok_iff {gs : List Glyph} {ls : List Lexeme} :
    tokens gs = .ok ls ↔ Tiled gs ls := by
  constructor
  · intro h
    fun_induction tokens gs generalizing ls with
    | case1 =>
        obtain rfl := Except.ok.inj h
        exact .nil
    | case2 => exact absurd h (by simp)
    | case3 => exact absurd h (by simp)
    | case4 g rest t after htoken _ ls' hls ih =>
        obtain rfl := Except.ok.inj h
        obtain ⟨more, rfl, hspells⟩ := spells_of_token htoken
        exact .cons hspells (ih hls)
  · intro h
    induction h with
    | nil => rw [tokens]
    | cons spells tail ih =>
        rw [tokens_cons, token_eq_ok_iff.2 ⟨_, rfl, spells⟩, Except.bind, ih]
        rfl

/-- **A fault shows behind glyphs that are read on their own.** -/
theorem exists_of_tokens_eq_error {gs : List Glyph} {e : Located LexicalFault}
    (h : tokens gs = .error e) :
    ∃ before g after ls, gs = before ++ g :: after ∧ Tiled before ls ∧
      token g after = .error e := by
  fun_induction tokens gs with
  | case1 => exact absurd h (by simp)
  | case2 g rest e' htoken =>
      obtain rfl := Except.error.inj h
      exact ⟨[], g, rest, [], rfl, .nil, htoken⟩
  | case3 g rest t after htoken _ e' he ih =>
      obtain rfl := Except.error.inj h
      obtain ⟨more, rfl, hspells⟩ := spells_of_token htoken
      obtain ⟨before, g', behind, ls, rfl, htiled, hfault⟩ := ih he
      -- the token read first ends where it did, with less behind it
      have hends : t.EndsBefore (Glyph.chars before) := by
        have hends := hspells.ends
        rw [Glyph.chars, List.map_append] at hends
        exact hends.of_append
      exact ⟨g :: (more ++ before), g', behind, _, by simp,
        .cons ⟨hspells.written, hspells.spelling, hends⟩ htiled, hfault⟩
  | case4 => exact absurd h (by simp)

namespace Tiled

variable {gs : List Glyph} {before after ls : List Lexeme}

theorem written (h : Tiled gs ls) : ∀ l ∈ ls, l.token.IsWritten := by
  induction h with
  | nil => simp
  | cons spells _ ih => exact List.forall_mem_cons.2 ⟨spells.written, ih⟩

/-- There are no more lexemes than glyphs. -/
theorem length_le (h : Tiled gs ls) : ls.length ≤ gs.length := by
  induction h with
  | nil => exact Nat.le_refl _
  | cons _ _ ih =>
      rw [List.length_cons, List.length_cons, List.length_append]
      omega

/-- Cutting looks at characters only. -/
theorem of_chars (h : Tiled gs ls) {gs' : List Glyph} (hchars : Glyph.chars gs' = Glyph.chars gs) :
    ∃ ls', Tiled gs' ls' := by
  induction h generalizing gs' with
  | nil =>
      obtain rfl := List.map_eq_nil_iff.1 hchars
      exact ⟨[], .nil⟩
  | @cons g more rest t ls spells _ ih =>
      rw [← List.cons_append, Glyph.chars, Glyph.chars, List.map_append] at hchars
      obtain ⟨front, rest', rfl, hfront, hrest⟩ := List.map_eq_append_iff.1 hchars
      obtain ⟨g', more', rfl, hg, hmore⟩ := List.map_eq_cons_iff.1 hfront
      obtain ⟨ls', htail⟩ := ih hrest
      refine ⟨_, .cons ⟨spells.written, ?_, ?_⟩ htail⟩
      · rw [← spells.spelling]
        exact hfront
      · rw [Glyph.chars, hrest]
        exact spells.ends

/-- Between two lexemes the glyphs are cut too. -/
theorem split (h : Tiled gs (before ++ after)) :
    ∃ front back, gs = front ++ back ∧ Glyph.chars front = Lexeme.chars before ∧
      Tiled back after := by
  induction before generalizing gs with
  | nil => exact ⟨[], gs, rfl, rfl, h⟩
  | cons l before ih =>
      cases h with
      | @cons g more rest t _ spells tail =>
          obtain ⟨front, back, rfl, hfront, hback⟩ := ih tail
          refine ⟨g :: (more ++ front), back, by simp, ?_, hback⟩
          rw [Lexeme.chars_cons, ← spells.spelling, ← hfront]
          simp

theorem chars_eq (h : Tiled gs ls) : Glyph.chars gs = Lexeme.chars ls := by
  rw [← List.append_nil ls] at h
  obtain ⟨front, back, rfl, hfront, hback⟩ := h.split
  cases hback
  rw [List.append_nil, hfront]

/-- Lexemes without characters are none. -/
theorem eq_nil_of_chars (h : Tiled gs (before ++ after)) (hnil : Lexeme.chars before = []) :
    before = [] := by
  cases before with
  | nil => rfl
  | cons l before =>
      rw [Lexeme.chars_cons, List.append_eq_nil_iff] at hnil
      exact absurd hnil.1 (spelling_ne_nil (h.written l List.mem_cons_self))

theorem start_eq (h : Tiled gs ls) (stop : Place) :
    Lexeme.start stop ls = Glyph.start stop gs := by
  cases h <;> rfl

/-- **Every lexeme of a text stands at the place behind the characters in front of it.** -/
theorem exists_place {text : String} (h : Tiled (Glyph.scan text).1 (before ++ after)) :
    ∃ first last, text.toList = first ++ last ∧ Text.strip first = Lexeme.chars before ∧
      Text.strip last = Lexeme.chars after ∧ (∀ c ∈ last.head?, Text.isBlank c = false) ∧
      Lexeme.start (Glyph.scan text).2 after = Place.behind first := by
  obtain ⟨front, back, hscan, hfront, hback⟩ := h.split
  obtain ⟨first, last, htext, hfirst, hlast, hhead, hstart⟩ := Glyph.scan_split hscan
  exact ⟨first, last, htext, hfirst.trans hfront, hlast.trans hback.chars_eq, hhead,
    (hback.start_eq _).trans hstart⟩

end Tiled

end Lexer

/-! ## The tokens of a text -/

namespace Token

/-- Whether some characters are this token written out: a valid name, digits with perhaps a point
and more digits, whose value the number is, or a sign. -/
def IsSpelled (cs : List Char) : Token → Prop
  | number l => l.IsNumeral ∧ cs = l.spelling ∧ l.value = Binary64.ofRational l.rational
  | name s => Name.isValid s = true ∧ cs = s.toList
  | t => ∃ c, cs = [c] ∧ ofSign? c = some t

/-- Whether some characters start with this token, which ends in front of the others. -/
def Heads (t : Token) (cs : List Char) : Prop :=
  t.IsWritten ∧ ∃ rest, cs = t.spelling ++ rest ∧ t.EndsBefore rest

/-- Whether two tokens may follow each other: no word behind a name, no number behind a number. -/
def MayPrecede : Token → Token → Prop
  | name _, u => u.isWord = false
  | number _, number _ => False
  | _, _ => True

end Token

/-- Lexemes that tile the characters `s`, at whose end `stop` is: each stretch from one lexeme to
the next is the token of the first written out. -/
structure Tiles (s : List Char) (stop : Place) (ls : List Lexeme) : Prop where
  first : (Lexeme.start stop ls).offset = 0
  last : stop.offset = s.length
  increasing : (ls.map (fun l => l.place.offset) ++ [stop.offset]).Pairwise (· < ·)
  slices : ∀ before l after, ls = before ++ l :: after →
    l.token.IsSpelled (s.extract l.place.offset (Lexeme.start stop after).offset)
  whole : s = Lexeme.chars ls
  maximal : (ls.map Lexeme.token).IsChain Token.MayPrecede

namespace Token

theorem isSpelled_spelling {t : Token} (h : t.IsWritten) : t.IsSpelled t.spelling := by
  cases t with
  | number l => exact ⟨h, rfl, l.value_eq⟩
  | name s => exact ⟨h, rfl⟩
  | _ => exact ⟨_, rfl, rfl⟩

/-- A token that ends in front of another one may precede it. -/
theorem EndsBefore.mayPrecede {t u : Token} {rest : List Char}
    (h : t.EndsBefore (u.spelling ++ rest)) (hu : u.IsWritten) : t.MayPrecede u := by
  cases t with
  | name s =>
      refine (Bool.not_eq_true _).mp fun hword => ?_
      obtain ⟨c, cs, hc, hcontinue, -⟩ := exists_head hu hword
      have hends : Name.isContinue c = false := h c (by rw [hc]; rfl)
      exact absurd hcontinue (by simp [hends])
  | number l =>
      cases u with
      | number l' =>
          obtain ⟨c, cs, hc, -, hdigit⟩ := exists_head hu rfl
          have hends : c.isDigit = false := (h c (by rw [hc]; rfl)).1
          exact absurd (hdigit l' rfl) (by simp [hends])
      | _ => trivial
  | _ => trivial

/-- What may follow a token ends it. -/
theorem MayPrecede.endsBefore {t u : Token} (h : t.MayPrecede u) (hu : u.IsWritten)
    (rest : List Char) : t.EndsBefore (u.spelling ++ rest) := by
  by_cases hword : u.isWord = true
  · cases t with
    | name s => exact absurd hword (by simp [show u.isWord = false from h])
    | number l =>
        cases u with
        | number l' => exact h.elim
        | name s =>
            -- a name starts with a letter, which is neither a digit nor a point
            rw [IsWritten, Name.isValid] at hu
            split at hu
            · exact absurd hu (by decide)
            · next c cs hs =>
              rw [Bool.and_eq_true] at hu
              intro x hx
              rw [spelling, hs] at hx
              obtain rfl := Option.some.inj hx
              refine ⟨Name.isDigit_of_isStart hu.1, fun _ hpoint => ?_⟩
              rw [hpoint] at hu
              exact absurd hu.1 (by decide +kernel)
        | _ => exact absurd hword Bool.false_ne_true
    | _ => trivial
  · exact Apart.endsBefore (fun _ => (Bool.not_eq_true _).mp hword) rest

end Token

namespace Lexer

/-- **Tokens that may follow each other are read from any text that they are written in.** -/
theorem tokens_of_mayPrecede {ts : List Token} (hts : ∀ t ∈ ts, t.IsWritten)
    (hchain : ts.IsChain Token.MayPrecede) {text : String}
    (h : Text.strip text.toList = ts.flatMap Token.spelling) :
    ∃ ls, tokens (Glyph.scan text).1 = .ok ls ∧ ls.map Lexeme.token = ts :=
  tokens_of_chain (fun _ _ rest hu hmay => hmay.endsBefore hu rest) hts hchain
    ((Glyph.chars_scan text).trans h)

theorem Tiled.maximal {gs : List Glyph} {ls : List Lexeme} (h : Tiled gs ls) :
    (ls.map Lexeme.token).IsChain Token.MayPrecede := by
  induction h with
  | nil => exact .nil
  | @cons g more rest t ls spells tail ih =>
      cases ls with
      | nil => exact .singleton t
      | cons l ls =>
          refine .cons_cons ?_ ih
          have hends := spells.ends
          rw [tail.chars_eq, Lexeme.chars_cons] at hends
          exact hends.mayPrecede (tail.written l List.mem_cons_self)

variable {text : String}

theorem Tiled.offset {before after : List Lexeme}
    (h : Tiled (Glyph.scan text).1 (before ++ after)) :
    (Lexeme.start (Glyph.scan text).2 after).offset = (Lexeme.chars before).length := by
  obtain ⟨first, last, -, hfirst, -, -, hplace⟩ := h.exists_place
  rw [hplace, Place.behind, hfirst]

/-- The places of the lexemes behind some others increase. -/
theorem Tiled.isChain {before after : List Lexeme}
    (h : Tiled (Glyph.scan text).1 (before ++ after)) :
    (after.map (fun l => l.place.offset) ++ [(Glyph.scan text).2.offset]).IsChain (· < ·) := by
  induction after generalizing before with
  | nil => exact .singleton _
  | cons l after ih =>
      have hnext : Tiled (Glyph.scan text).1 ((before ++ [l]) ++ after) := by simpa using h
      have hne := List.length_pos_of_ne_nil
        (spelling_ne_nil (h.written l (List.mem_append_right _ List.mem_cons_self)))
      have hlt : l.place.offset < (Lexeme.start (Glyph.scan text).2 after).offset := by
        have hl : l.place.offset = (Lexeme.chars before).length := h.offset
        rw [hl, hnext.offset, Lexeme.chars_append, List.length_append, Lexeme.chars_cons]
        simpa using hne
      have htail := ih hnext
      cases after with
      | nil => exact .cons_cons hlt htail
      | cons l' after => exact .cons_cons hlt htail

theorem Tiled.tiles {ls : List Lexeme} (h : Tiled (Glyph.scan text).1 ls) :
    Tiles (Text.strip text.toList) (Glyph.scan text).2 ls where
  first := by
    have hall : Tiled (Glyph.scan text).1 ([] ++ ls) := h
    exact hall.offset
  last := by
    have hall : Tiled (Glyph.scan text).1 (ls ++ []) := by rwa [List.append_nil]
    rw [← Glyph.chars_scan, h.chars_eq]
    exact hall.offset
  increasing := by
    have hall : Tiled (Glyph.scan text).1 ([] ++ ls) := h
    exact List.isChain_iff_pairwise.1 hall.isChain
  slices before l after hls := by
    subst hls
    have hnext : Tiled (Glyph.scan text).1 ((before ++ [l]) ++ after) := by simpa using h
    have hl : l.place.offset = (Lexeme.chars before).length := h.offset
    have hwritten := h.written l (List.mem_append_right _ List.mem_cons_self)
    have hslice : (Text.strip text.toList).extract l.place.offset
        (Lexeme.start (Glyph.scan text).2 after).offset = l.token.spelling := by
      rw [← Glyph.chars_scan, h.chars_eq, hl, hnext.offset]
      simp [List.extract_eq_take_drop]
    rw [hslice]
    exact Token.isSpelled_spelling hwritten
  whole := by rw [← Glyph.chars_scan, h.chars_eq]
  maximal := h.maximal

/-- **The tokens of a text tile it.**  Where a text has no tokens, the characters in front of the
fault have some, and no token starts at the fault. -/
theorem tokens_tile (text : String) :
    (∃ ls, tokens (Glyph.scan text).1 = .ok ls ∧
      Tiles (Text.strip text.toList) (Glyph.scan text).2 ls) ∨
    ∃ e, tokens (Glyph.scan text).1 = .error e ∧
      e.place.offset < (Text.strip text.toList).length ∧
      (∃ ls, tokens
        (Glyph.scan (String.ofList ((Text.strip text.toList).take e.place.offset))).1 = .ok ls) ∧
      ∀ t : Token, ¬ t.Heads ((Text.strip text.toList).drop e.place.offset) := by
  cases h : tokens (Glyph.scan text).1 with
  | ok ls => exact .inl ⟨ls, rfl, (tokens_eq_ok_iff.1 h).tiles⟩
  | error e =>
      refine .inr ⟨e, rfl, ?_⟩
      obtain ⟨before, g, after, ls, hscan, htiled, hfault⟩ := exists_of_tokens_eq_error h
      obtain ⟨first, last, htext, hfirst, hlast, -, hstart⟩ := Glyph.scan_split hscan
      have hoffset : e.place.offset = (Glyph.chars before).length := by
        rw [(exists_of_token_eq_error hfault).1, ← hfirst]
        exact congrArg Place.offset hstart
      have hstrip : Text.strip text.toList = Glyph.chars before ++ Glyph.chars (g :: after) := by
        rw [htext, Text.strip, List.filter_append, ← Text.strip, ← Text.strip, hfirst, hlast]
      rw [hoffset, hstrip, List.take_left, List.drop_left]
      refine ⟨?_, ?_, ?_⟩
      · simp
      · have hchars : Glyph.chars (Glyph.scan (String.ofList (Glyph.chars before))).1 =
            Glyph.chars before := by
          rw [Glyph.chars_scan, String.toList_ofList, ← hfirst, Text.strip, Text.strip,
            List.filter_filter]
          simp
        obtain ⟨ls', htiled'⟩ := htiled.of_chars hchars
        exact ⟨ls', tokens_eq_ok_iff.2 htiled'⟩
      · rintro t ⟨hwritten, rest, hchars, hends⟩
        obtain ⟨after', htoken, -⟩ := token_of_spelling hwritten hchars hends
        rw [hfault] at htoken
        exact absurd htoken (by simp)

/-! ## Names -/

/-- A text is read as one name exactly if it is that name, blanks left out, and the name is valid.
-/
theorem tokens_eq_name_iff (text name : String) :
    (∃ place, tokens (Glyph.scan text).1 = .ok [⟨.name name, place⟩]) ↔
      Name.isValid name = true ∧ Text.strip text.toList = name.toList := by
  constructor
  · rintro ⟨place, h⟩
    refine ⟨isValid_of_mem_tokens h List.mem_cons_self rfl, ?_⟩
    rw [← Glyph.chars_scan, (tokens_eq_ok_iff.1 h).chars_eq]
    exact List.append_nil _
  · rintro ⟨hvalid, hstrip⟩
    have hwritten : ∀ t ∈ [Token.name name], t.IsWritten := List.forall_mem_singleton.2 hvalid
    obtain ⟨ls, hls, htokens⟩ :=
      tokens_of_mayPrecede hwritten (.singleton _) (hstrip.trans (List.append_nil _).symm)
    obtain ⟨⟨_, place⟩, rfl, rfl⟩ := List.map_eq_singleton_iff.1 htokens
    exact ⟨place, hls⟩

/-- **A text is a valid name exactly if it is read as that name and nothing else.**  So a text with
a blank is none, though it is read as the name that is left without its blanks. -/
theorem isValid_iff_tokens (name : String) :
    Name.isValid name = true ↔
      ∃ place, tokens (Glyph.scan name).1 = .ok [⟨.name name, place⟩] := by
  rw [tokens_eq_name_iff]
  exact ⟨fun hvalid => ⟨hvalid, Name.strip_toList hvalid⟩, And.left⟩

end Lexer

end GrowthOrder
