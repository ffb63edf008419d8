import GrowthOrder.Proofs.Decimal.Shortest
import GrowthOrder.Proofs.Place
import GrowthOrder.Token.Lexer

/-!
# GrowthOrder.Proofs.Token.Lexer

What the lexer reads.

* `isValid_of_mem_tokens` — a name token always holds a valid name.
* `tokens_of_spelling` — tokens that are written out are read back, as long as no two words touch.
-/

namespace GrowthOrder

/-! ## Characters -/

namespace Text

/-- Ranges that do not overlap have no character in common. -/
theorem inRanges_disjoint {a b : List (Nat × Nat)}
    (h : ∀ r ∈ a, ∀ s ∈ b, r.2 < s.1 ∨ s.2 < r.1) {c : Char} (hc : inRanges a c = true) :
    inRanges b c = false := by
  simp only [inRanges, List.any_eq_true, Bool.and_eq_true, decide_eq_true_eq] at hc
  obtain ⟨r, hr, hlow, hhigh⟩ := hc
  rw [inRanges, List.any_eq_false]
  intro s hs
  have := h r hr s hs
  simp only [Bool.and_eq_true, decide_eq_true_eq]
  omega

theorem isDigit_eq_inRanges (c : Char) : c.isDigit = inRanges [(0x30, 0x39)] c := by
  rw [Bool.eq_iff_iff]
  simp [Char.isDigit, inRanges, UInt32.le_iff_toNat_le]

theorem isBlank_of_isDigit {c : Char} (h : c.isDigit = true) : isBlank c = false := by
  rw [isDigit_eq_inRanges] at h
  exact inRanges_disjoint (by decide +kernel) h

end Text

namespace Name

/-- No blank belongs to a name. -/
theorem isBlank_of_isContinue {c : Char} (h : isContinue c = true) : Text.isBlank c = false := by
  simp only [isContinue, Bool.or_eq_true, beq_iff_eq] at h
  obtain (((h | h) | rfl) | rfl) | rfl := h
  · exact Text.inRanges_disjoint (by decide +kernel) h
  · exact Text.inRanges_disjoint (by decide +kernel) h
  · decide +kernel
  · decide +kernel
  · decide +kernel

theorem isDigit_of_isStart {c : Char} (h : isStart c = true) : c.isDigit = false := by
  rw [Text.isDigit_eq_inRanges]
  exact Text.inRanges_disjoint (by decide +kernel) h

theorem isContinue_of_isDigit {c : Char} (h : c.isDigit = true) : isContinue c = true := by
  have hnumeral : Text.isNumeral c = true := by
    rw [Text.isDigit_eq_inRanges, Text.inRanges, List.any_cons, List.any_nil, Bool.or_false] at h
    exact List.any_eq_true.2 ⟨(0x30, 0x39), by decide +kernel, h⟩
  simp [isContinue, hnumeral]

theorem isContinue_of_isStart {c : Char} (h : isStart c = true) : isContinue c = true := by
  rw [isStart] at h
  simp [isContinue, h]

/-- A valid name holds no blanks. -/
theorem strip_toList {s : String} (h : isValid s = true) : Text.strip s.toList = s.toList := by
  refine List.filter_eq_self.2 fun c hc => ?_
  rw [isValid] at h
  split at h
  · exact absurd h (by decide)
  · next first rest hs =>
    rw [Bool.and_eq_true, List.all_eq_true] at h
    have hall : ∀ c ∈ first :: rest, isContinue c = true :=
      List.forall_mem_cons.2 ⟨isContinue_of_isStart h.1, h.2⟩
    rw [isBlank_of_isContinue (hall c (hs ▸ hc)), Bool.not_false]

end Name

namespace Token

/-- The characters of signs. -/
def signRanges : List (Nat × Nat) :=
  [(0x28, 0x2D), (0x3D, 0x3D)]

/-- Every sign is read from a character in these ranges. -/
theorem inRanges_of_ofSign? {c : Char} {t : Token} (h : ofSign? c = some t) :
    Text.inRanges signRanges c = true := by
  unfold ofSign? at h
  split at h
  case h_8 => simp at h
  all_goals decide

theorem ofSign?_of_isStart {c : Char} (h : Name.isStart c = true) : ofSign? c = none := by
  cases hsign : ofSign? c with
  | none => rfl
  | some t =>
      have hdisjoint := Text.inRanges_disjoint (b := Text.letterRanges) (by decide +kernel)
        (inRanges_of_ofSign? hsign)
      exact absurd h (by rw [Name.isStart, Text.isLetter, hdisjoint]; decide)

end Token

namespace Lexer

/-! ## Names -/

/-- A run satisfies the test that it is a run of. -/
theorem all_run (p : Char → Bool) (gs : List Glyph) : (run p gs).1.all p = true := by
  have h := (List.all_takeWhile : ((gs.takeWhile fun g => p g.char).all fun g => p g.char) = true)
  rw [run, Glyph.chars, List.all_map]
  exact h

/-- A number is no name. -/
theorem number_ne_name {g : Glyph} {rest after : List Glyph} {t : Token}
    (h : number g rest = .ok (t, after)) (s : String) : t ≠ .name s := by
  unfold number at h
  rintro rfl
  repeat' split at h
  all_goals simp at h

/-- A name that is read is valid. -/
theorem isValid_of_token {g : Glyph} {rest after : List Glyph} {s : String}
    (h : token g rest = .ok (.name s, after)) : Name.isValid s = true := by
  unfold token at h
  split at h
  · exact absurd rfl (number_ne_name h s)
  · split at h
    · next t hsign =>
      simp only [Except.ok.injEq, Prod.mk.injEq] at h
      obtain ⟨rfl, rfl⟩ := h
      unfold Token.ofSign? at hsign
      repeat' split at hsign
      all_goals simp at hsign
    · split at h
      · next hstart =>
        simp only [Except.ok.injEq, Prod.mk.injEq, Token.name.injEq] at h
        obtain ⟨rfl, -⟩ := h
        simp only [Name.isValid, String.toList_ofList, hstart, all_run, Bool.and_self]
      · split at h <;> simp at h

/-- **Every name among the tokens of a text is valid.** -/
theorem isValid_of_mem_tokens {gs : List Glyph} {ls : List Lexeme} (h : tokens gs = .ok ls)
    {l : Lexeme} (hl : l ∈ ls) {s : String} (hs : l.token = .name s) : Name.isValid s = true := by
  fun_induction tokens gs generalizing ls with
  | case1 =>
      obtain rfl := Except.ok.inj h
      exact absurd hl List.not_mem_nil
  | case2 => simp at h
  | case3 => simp at h
  | case4 g rest t after htoken _ ls' hls ih =>
      obtain rfl := Except.ok.inj h
      obtain rfl | hl := List.mem_cons.1 hl
      · subst hs
        exact isValid_of_token htoken
      · exact ih hls hl

/-- The same for the names among some tokens. -/
theorem isValid_of_tokens {gs : List Glyph} {ls : List Lexeme} (h : tokens gs = .ok ls) :
    ∀ s, .name s ∈ ls.map Lexeme.token → Name.isValid s = true := by
  intro s hs
  obtain ⟨l, hl, hs⟩ := List.mem_map.1 hs
  exact isValid_of_mem_tokens h hl hs

end Lexer

/-! ## Reading what is written -/

namespace Token

/-- A token that can be written: a number of digits, or a valid name. -/
def IsWritten : Token → Prop
  | number l => l.IsNumeral
  | name s => Name.isValid s = true
  | _ => True

instance : DecidablePred IsWritten
  | number l => inferInstanceAs (Decidable l.IsNumeral)
  | name s => inferInstanceAs (Decidable (Name.isValid s = true))
  | plus | minus | star | comma | equals | opening | closing => .isTrue trivial

/-- A word starts with a character that a name goes on with, a number with a digit. -/
theorem exists_head {t : Token} (h : t.IsWritten) (hword : t.isWord = true) :
    ∃ c cs, t.spelling = c :: cs ∧ Name.isContinue c = true ∧
      ∀ l, t = .number l → c.isDigit = true := by
  cases t with
  | number l =>
      obtain ⟨c, cs, hwhole⟩ := List.exists_cons_of_ne_nil h.ne_nil
      have hc : c.isDigit = true := h.whole c (by rw [hwhole]; exact List.mem_cons_self)
      have hspelling : ∃ more, l.spelling = c :: more := by
        rw [Literal.spelling, hwhole]
        split
        · exact ⟨cs, rfl⟩
        · exact ⟨_, rfl⟩
      obtain ⟨more, hmore⟩ := hspelling
      exact ⟨c, more, hmore, Name.isContinue_of_isDigit hc, fun _ _ => hc⟩
  | name s =>
      rw [IsWritten, Name.isValid] at h
      split at h
      · exact absurd h (by decide)
      · next c cs hs =>
        rw [Bool.and_eq_true] at h
        exact ⟨c, cs, hs, Name.isContinue_of_isStart h.1, by simp⟩
  | _ => exact absurd hword Bool.false_ne_true

/-- Not two words. -/
def Apart (t u : Token) : Prop :=
  t.isWord = true → u.isWord = false

/-- Whether a token ends in front of `rest`: nothing follows that it would go on with. -/
def EndsBefore (rest : List Char) : Token → Prop
  | number l => ∀ c ∈ rest.head?, c.isDigit = false ∧ (l.fraction = [] → c ≠ '.')
  | name _ => ∀ c ∈ rest.head?, Name.isContinue c = false
  | _ => True

/-- Every token ends at the end of a text. -/
theorem endsBefore_nil (t : Token) : t.EndsBefore [] := by
  cases t <;> simp [EndsBefore]

/-- A token that ends in front of some characters ends in front of the first of them. -/
theorem EndsBefore.of_append {t : Token} {front rest : List Char}
    (h : t.EndsBefore (front ++ rest)) : t.EndsBefore front := by
  cases front with
  | nil => exact endsBefore_nil t
  | cons c cs => cases t <;> exact h

/-- A token that is not a word ends every token in front of it. -/
theorem Apart.endsBefore {t u : Token} (h : t.Apart u) (rest : List Char) :
    t.EndsBefore (u.spelling ++ rest) := by
  have hsign (hu : u.isWord = false) : ∀ c ∈ (u.spelling ++ rest).head?,
      c.isDigit = false ∧ c ≠ '.' ∧ Name.isContinue c = false := by
    cases u with
    | number l => exact absurd hu (by simp [isWord])
    | name s => exact absurd hu (by simp [isWord])
    | _ =>
        intro c hc
        obtain rfl := Option.some.inj hc
        exact ⟨by decide, by decide, by decide +kernel⟩
  cases t with
  | number l =>
      intro c hc
      obtain ⟨hdigit, hpoint, -⟩ := hsign (h rfl) c hc
      exact ⟨hdigit, fun _ => hpoint⟩
  | name s => exact fun c hc => (hsign (h rfl) c hc).2.2
  | _ => trivial

end Token

namespace Lexer

/-- A run is read up to where its test fails. -/
theorem run_of_chars {p : Char → Bool} {gs : List Glyph} {front rest : List Char}
    (h : Glyph.chars gs = front ++ rest) (hfront : ∀ c ∈ front, p c = true)
    (hrest : ∀ c ∈ rest.head?, p c = false) :
    ∃ after, run p gs = (front, after) ∧ Glyph.chars after = rest := by
  obtain ⟨first, after, rfl, rfl, rfl⟩ := List.map_eq_append_iff.1 h
  have hp : ∀ g ∈ first, p g.char = true := fun g hg => hfront _ (List.mem_map_of_mem hg)
  refine ⟨after, ?_, rfl⟩
  have htake : after.takeWhile (fun g => p g.char) = [] ∧
      after.dropWhile (fun g => p g.char) = after := by
    cases after with
    | nil => exact ⟨rfl, rfl⟩
    | cons g after =>
        have hg : p g.char = false := hrest g.char rfl
        exact ⟨List.takeWhile_cons_of_neg (by simp [hg]), List.dropWhile_cons_of_neg (by simp [hg])⟩
  rw [run, List.takeWhile_append_of_pos hp, List.dropWhile_append_of_pos hp, htake.1, htake.2,
    List.append_nil]
  rfl

theorem number_of_spelling {l : Literal} (hl : l.IsNumeral) {g : Glyph} {gs : List Glyph}
    {rest : List Char} (h : Glyph.chars (g :: gs) = l.spelling ++ rest)
    (hrest : (Token.number l).EndsBefore rest) :
    ∃ after, token g gs = .ok (.number l, after) ∧ Glyph.chars after = rest := by
  obtain ⟨⟨c, cs, hwhole⟩, hdigits, hfraction⟩ :
      (∃ c cs, l.whole = c :: cs) ∧ (∀ c ∈ l.whole, c.isDigit = true) ∧
        ∀ c ∈ l.fraction, c.isDigit = true :=
    ⟨List.exists_cons_of_ne_nil hl.ne_nil, hl.whole, hl.fraction⟩
  obtain ⟨whole, fraction⟩ := l
  subst hwhole
  rw [List.forall_mem_cons] at hdigits
  by_cases hnil : fraction = []
  · subst hnil
    rw [Literal.spelling, if_pos rfl, List.cons_append] at h
    obtain ⟨rfl, htail⟩ := List.cons.inj h
    obtain ⟨after, hrun, hafter⟩ :=
      run_of_chars htail hdigits.2 fun c hc => (hrest c hc).1
    refine ⟨after, ?_, hafter⟩
    rw [token, if_pos hdigits.1, number]
    simp only [hrun]
    cases after with
    | nil => rfl
    | cons point after =>
        have hpoint : point.char ≠ '.' := (hrest point.char (by rw [← hafter]; rfl)).2 rfl
        simp only [if_neg hpoint]
  · rw [Literal.spelling, if_neg hnil, List.cons_append, List.cons_append, List.append_assoc] at h
    obtain ⟨rfl, htail⟩ := List.cons.inj h
    obtain ⟨after, hrun, hafter⟩ :=
      run_of_chars htail hdigits.2 fun c hc => Option.some.inj hc ▸ rfl
    obtain ⟨point, after, rfl, hpoint, hmore⟩ := List.map_eq_cons_iff.1 hafter
    obtain ⟨last, hrun', hlast⟩ := run_of_chars hmore hfraction fun c hc => (hrest c hc).1
    refine ⟨last, ?_, hlast⟩
    rw [token, if_pos hdigits.1, number]
    simp only [hrun, hrun', if_pos hpoint, if_neg hnil]

theorem name_of_spelling {s : String} (hs : Name.isValid s = true) {g : Glyph} {gs : List Glyph}
    {rest : List Char} (h : Glyph.chars (g :: gs) = s.toList ++ rest)
    (hrest : (Token.name s).EndsBefore rest) :
    ∃ after, token g gs = .ok (.name s, after) ∧ Glyph.chars after = rest := by
  rw [Name.isValid] at hs
  split at hs
  · exact absurd hs (by decide)
  · next c cs hcs =>
    rw [Bool.and_eq_true, List.all_eq_true] at hs
    rw [hcs, List.cons_append] at h
    obtain ⟨rfl, htail⟩ := List.cons.inj h
    obtain ⟨after, hrun, hafter⟩ := run_of_chars htail hs.2 hrest
    refine ⟨after, ?_, hafter⟩
    have hdigit := Name.isDigit_of_isStart hs.1
    rw [token, if_neg (by simp [hdigit]), Token.ofSign?_of_isStart hs.1]
    simp only [hrun, if_pos hs.1, ← hcs, String.ofList_toList]

/-- **A token that is written out is read back, if it ends in front of what follows.** -/
theorem token_of_spelling {t : Token} (ht : t.IsWritten) {g : Glyph} {gs : List Glyph}
    {rest : List Char} (h : Glyph.chars (g :: gs) = t.spelling ++ rest)
    (hrest : t.EndsBefore rest) :
    ∃ after, token g gs = .ok (t, after) ∧ Glyph.chars after = rest := by
  cases t with
  | number l => exact number_of_spelling ht h hrest
  | name s => exact name_of_spelling ht h hrest
  | _ =>
      obtain ⟨hg, htail⟩ := List.cons.inj h
      refine ⟨gs, ?_, htail⟩
      rw [token, hg]
      rfl

theorem spelling_ne_nil {t : Token} (ht : t.IsWritten) : t.spelling ≠ [] := by
  cases t with
  | number l =>
      rw [Token.spelling, Literal.spelling]
      split
      · exact ht.ne_nil
      · simp
  | name s =>
      intro h
      rw [Token.spelling] at h
      rw [Token.IsWritten, Name.isValid, h] at ht
      exact absurd ht (by decide)
  | _ => exact List.cons_ne_nil _ _

/-- The equation of `tokens`, without the proof that it ends. -/
theorem tokens_cons (g : Glyph) (rest : List Glyph) :
    tokens (g :: rest) = (token g rest).bind fun t =>
      (tokens t.2).map fun ls => ⟨t.1, g.place⟩ :: ls := by
  rw [tokens]
  split
  · next e h => simp only [h, Except.bind]
  · next t after h => simp only [h, Except.bind]; cases tokens after <;> rfl

/-- Tokens that are written out are read back, if each ends in front of the next. -/
theorem tokens_of_chain {R : Token → Token → Prop}
    (hR : ∀ t u rest, u.IsWritten → R t u → t.EndsBefore (u.spelling ++ rest)) {ts : List Token}
    (hts : ∀ t ∈ ts, t.IsWritten) (hchain : ts.IsChain R) {gs : List Glyph}
    (h : Glyph.chars gs = ts.flatMap Token.spelling) :
    ∃ ls, tokens gs = .ok ls ∧ ls.map Lexeme.token = ts := by
  induction ts generalizing gs with
  | nil =>
      obtain rfl := List.map_eq_nil_iff.1 h
      exact ⟨[], by rw [tokens], rfl⟩
  | cons t ts ih =>
      obtain ⟨ht, hts⟩ := List.forall_mem_cons.1 hts
      cases gs with
      | nil =>
          rw [List.flatMap_cons] at h
          exact absurd (List.append_eq_nil_iff.1 h.symm).1 (spelling_ne_nil ht)
      | cons g gs =>
          have hrest : t.EndsBefore (ts.flatMap Token.spelling) := by
            cases ts with
            | nil => exact t.endsBefore_nil
            | cons u us => exact hR t u _ (hts u List.mem_cons_self) hchain.rel
          obtain ⟨after, hafter, hchars⟩ := token_of_spelling ht h hrest
          obtain ⟨ls, hls, rfl⟩ := ih hts hchain.tail hchars
          refine ⟨⟨t, g.place⟩ :: ls, ?_, rfl⟩
          rw [tokens_cons, hafter, Except.bind, hls]
          rfl

/-- **Tokens that are written out are read back, as long as no two words touch.** -/
theorem tokens_of_spelling {ts : List Token} (hts : ∀ t ∈ ts, t.IsWritten)
    (hapart : ts.IsChain Token.Apart) {gs : List Glyph}
    (h : Glyph.chars gs = ts.flatMap Token.spelling) :
    ∃ ls, tokens gs = .ok ls ∧ ls.map Lexeme.token = ts :=
  tokens_of_chain (fun _ _ rest _ hapart => hapart.endsBefore rest) hts hapart h

end Lexer

end GrowthOrder
