import GrowthOrder.Analysis
import GrowthOrder.Proofs.Decimal.Interchange

/-!
# GrowthOrder.Proofs.Report

Reports for programs, and what can be read off their texts.  A report is written in one of two
layouts, without any blanks or with each field on its own line.  Either way a string ends where its
quotes end, a number where something separates it from the next value, and a field that is left out
is missed, since no other field has its key; so that the text tells the report.

* `quoted_cancel` — a string can be told from what is behind it.
* `optional_cancel` — so can a field that may be left out.
* `Report.sameReading_of_isWritten` — reports with the same text tell the same about the outcome.
-/

namespace GrowthOrder

namespace JsonValue

/-! ## Strings -/

/-- The value of a hexadecimal digit. -/
def digitValue (c : Char) : Nat :=
  if c.isDigit then c.toNat - '0'.toNat else c.toNat - 'a'.toNat + 10

/-- The character that is meant behind a backslash, and the text behind it. -/
def escaped? : List Char → Option (Char × List Char)
  | '"' :: cs => some ('"', cs)
  | '\\' :: cs => some ('\\', cs)
  | 'n' :: cs => some ('\n', cs)
  | 'r' :: cs => some ('\r', cs)
  | 't' :: cs => some ('\t', cs)
  | 'b' :: cs => some ('\x08', cs)
  | 'f' :: cs => some ('\x0c', cs)
  | 'u' :: '0' :: '0' :: c :: d :: cs =>
    some (Char.ofNat (16 * digitValue c + digitValue d), cs)
  | _ => none

/-- The character that some text in quotes starts with, and the text behind it. -/
def unescape? : List Char → Option (Char × List Char)
  | [] => none
  | c :: cs => if c = '\\' then escaped? cs else some (c, cs)

theorem digitValue_hexDigit {n : Nat} (h : n < 16) : digitValue (hexDigit n) = n := by
  have hall : ∀ n < 16, digitValue (hexDigit n) = n := by decide
  exact hall n h

/-- An escaped character is read back. -/
theorem unescape?_escape (c : Char) (rest : List Char) :
    unescape? (escape c ++ rest) = some (c, rest) := by
  unfold escape
  split
  · rfl
  · rfl
  · rfl
  · rfl
  · rfl
  · rfl
  · rfl
  · next hbackslash _ _ _ _ _ =>
    split
    · next hcontrol =>
      have hchar : Char.ofNat (16 * (c.toNat / 16) + c.toNat % 16) = c := by
        rw [Nat.div_add_mod, Char.ofNat_toNat]
      simp only [List.cons_append, List.nil_append, unescape?, if_true, escaped?,
        digitValue_hexDigit (show c.toNat / 16 < 16 by omega),
        digitValue_hexDigit (Nat.mod_lt c.toNat (by decide)), hchar]
    · exact if_neg hbackslash

/-- The quotes of a string do not stand in it. -/
theorem escape_append_ne (c : Char) (rest cs : List Char) : escape c ++ rest ≠ '"' :: cs := by
  intro h
  have hread := unescape?_escape c rest
  have hquote : unescape? ('"' :: cs) = some ('"', cs) := by simp [unescape?]
  rw [h, hquote] at hread
  simp only [Option.some.injEq, Prod.mk.injEq] at hread
  obtain ⟨rfl, -⟩ := hread
  simp [escape] at h

theorem flatMap_escape_cancel {as bs s t : List Char}
    (h : as.flatMap escape ++ '"' :: s = bs.flatMap escape ++ '"' :: t) : as = bs ∧ s = t := by
  induction as generalizing bs with
  | nil => cases bs with
    | nil => simpa using h
    | cons b bs =>
        rw [List.flatMap_cons, List.append_assoc] at h
        exact absurd h.symm (escape_append_ne b _ _)
  | cons a as ih => cases bs with
    | nil =>
        rw [List.flatMap_cons, List.append_assoc] at h
        exact absurd h (escape_append_ne a _ _)
    | cons b bs =>
        rw [List.flatMap_cons, List.flatMap_cons, List.append_assoc, List.append_assoc] at h
        have hread := congrArg unescape? h
        rw [unescape?_escape, unescape?_escape, Option.some.injEq, Prod.mk.injEq] at hread
        obtain ⟨rfl, hrest⟩ := hread
        obtain ⟨rfl, rfl⟩ := ih hrest
        exact ⟨rfl, rfl⟩

/-- **A string can be told from what is behind it.** -/
theorem quoted_cancel {a b : String} {s t : List Char}
    (h : (quoted a).toList ++ s = (quoted b).toList ++ t) : a = b ∧ s = t := by
  simp only [quoted, String.toList_ofList, List.cons_append, List.append_assoc, List.cons.injEq,
    true_and, List.nil_append] at h
  obtain ⟨hchars, hrest⟩ := flatMap_escape_cancel h
  exact ⟨String.ext hchars, hrest⟩

/-! ## Numbers -/

/-- A text that ends the number in front of it. -/
def Separates (s : List Char) : Prop :=
  ∃ c ∈ s.head?, c = ',' ∨ c = '\n' ∨ c = '\x7d'

/-- A number can be told from what separates it from the next value. -/
theorem number_cancel {x y : Float} {s t : List Char} (hs : Separates s) (ht : Separates t)
    (h : (Decimal.text Decimal.interchange x).toList ++ s =
      (Decimal.text Decimal.interchange y).toList ++ t) :
    Decimal.legible x = Decimal.legible y ∧ s = t := by
  let inNumber (c : Char) : Bool := decide (c ≠ ',' ∧ c ≠ '\n' ∧ c ≠ '\x7d')
  have htake (x : Float) {s : List Char} (hs : Separates s) :
      ((Decimal.text Decimal.interchange x).toList ++ s).takeWhile inNumber =
        (Decimal.text Decimal.interchange x).toList := by
    obtain ⟨c, hc, hseparates⟩ := hs
    obtain ⟨rest, rfl⟩ := List.head?_eq_some_iff.1 hc
    have hends : ¬inNumber c = true := by
      obtain rfl | rfl | rfl := hseparates <;> decide
    rw [List.takeWhile_append_of_pos fun c hc =>
      decide_eq_true (Decimal.mem_text_interchange hc), List.takeWhile_cons_of_neg hends,
      List.append_nil]
  have htext : Decimal.text Decimal.interchange x = Decimal.text Decimal.interchange y :=
    String.ext ((htake x hs).symm.trans ((congrArg _ h).trans (htake y ht)))
  rw [htext, List.append_cancel_left_eq] at h
  exact ⟨Decimal.legible_eq_of_text htext, h⟩

/-! ## Fields -/

/-- How the fields of an object are laid out: what stands in front of a key and behind it, and how a
value is written. -/
structure Layout where
  before : String
  colon : String
  write : JsonValue → String

/-- The layout without any blanks. -/
def tight : Layout :=
  ⟨"", ":", compact⟩

/-- The layout with each field of a report on its own line. -/
def airy : Layout :=
  ⟨indentation 1, ": ", pretty 1⟩

namespace Layout

variable (w : Layout)

/-- A field of an object. -/
def field (p : String × JsonValue) : String :=
  w.before ++ (quoted p.1 ++ w.colon ++ w.write p.2)

/-- The fields behind the first one. -/
def others (fields : List (String × JsonValue)) : List Char :=
  fields.flatMap fun p => ',' :: (w.field p).toList

variable {w}

/-- A field can be told from one with another key. -/
theorem field_cancel {p q : String × JsonValue} {s t : List Char}
    (h : (w.field p).toList ++ s = (w.field q).toList ++ t) :
    p.1 = q.1 ∧ (w.write p.2).toList ++ s = (w.write q.2).toList ++ t := by
  simp only [field, String.toList_append, List.append_assoc, List.append_cancel_left_eq] at h
  obtain ⟨hkey, hvalue⟩ := quoted_cancel h
  exact ⟨hkey, by simpa using hvalue⟩

theorem others_append (fields fields' : List (String × JsonValue)) :
    w.others (fields ++ fields') = w.others fields ++ w.others fields' :=
  List.flatMap_append

/-- What ends an object goes on with no field. -/
def Ends (ending : List Char) : Prop :=
  ∀ rest, ending ≠ ',' :: rest

/-- No field has the key. -/
def Avoids (key : String) (fields : List (String × JsonValue)) : Prop :=
  ∀ p ∈ fields, p.1 ≠ key

@[simp]
theorem avoids_append {key : String} {fields fields' : List (String × JsonValue)} :
    Avoids key (fields ++ fields') ↔ Avoids key fields ∧ Avoids key fields' :=
  List.forall_mem_append

@[simp]
theorem avoids_optional {β : Type} {key key' : String} (h : key' ≠ key) (f : β → JsonValue)
    (o : Option β) : Avoids key (Report.optional key' f o) := by
  cases o <;> simp [Avoids, Report.optional, h]

/-- A key that no field has is missed. -/
theorem others_ne {key : String} {fields : List (String × JsonValue)} (h : Avoids key fields)
    {ending : List Char} (hending : Ends ending) (v : JsonValue) (rest : List Char) :
    w.others fields ++ ending ≠ ',' :: ((w.field (key, v)).toList ++ rest) := by
  cases fields with
  | nil => exact hending _
  | cons p fields =>
      intro heq
      simp only [others, List.flatMap_cons, List.cons_append, List.append_assoc, List.cons.injEq,
        true_and] at heq
      exact h p List.mem_cons_self (field_cancel heq).1

/-- **A field that may be left out can be told from what is behind it**, as far as its value can. -/
theorem optional_cancel {β γ : Type} {f : β → JsonValue} {g : β → γ}
    (hf : ∀ {a b : β} {s t : List Char},
      (w.write (f a)).toList ++ s = (w.write (f b)).toList ++ t → g a = g b ∧ s = t)
    {key : String} {fields fields' : List (String × JsonValue)} (hfields : Avoids key fields)
    (hfields' : Avoids key fields') {ending : List Char} (hending : Ends ending) {o o' : Option β}
    (h : w.others (Report.optional key f o ++ fields) ++ ending =
      w.others (Report.optional key f o' ++ fields') ++ ending) :
    o.map g = o'.map g ∧ w.others fields ++ ending = w.others fields' ++ ending := by
  have hsome (a : β) : w.others (Report.optional key f (some a)) =
      ',' :: (w.field (key, f a)).toList := by
    simp [others, Report.optional]
  rw [others_append, others_append, List.append_assoc, List.append_assoc] at h
  cases o with
  | none => cases o' with
    | none => exact ⟨rfl, h⟩
    | some b =>
        rw [hsome] at h
        exact absurd h (others_ne hfields hending (f b) _)
  | some a => cases o' with
    | none =>
        rw [hsome] at h
        exact absurd h.symm (others_ne hfields' hending (f a) _)
    | some b =>
        rw [hsome, hsome, List.cons_append, List.cons_append, List.cons_inj_right] at h
        obtain ⟨hvalue, hrest⟩ := hf (field_cancel h).2
        exact ⟨congrArg some hvalue, hrest⟩

/-- The values of a report can be told from what is behind them, however they are laid out. -/
structure Reads (w : Layout) : Prop where
  bool : ∀ {b b' : Bool} {s t : List Char},
    (w.write (.bool b)).toList ++ s = (w.write (.bool b')).toList ++ t → b = b' ∧ s = t
  string : ∀ {a b : String} {s t : List Char},
    (w.write (.string a)).toList ++ s = (w.write (.string b)).toList ++ t → a = b ∧ s = t
  number : ∀ {a b : String} {x y : Float} {s t : List Char},
    (w.write (.object [(a, .number x)])).toList ++ s =
      (w.write (.object [(b, .number y)])).toList ++ t →
        (a, Decimal.legible x) = (b, Decimal.legible y) ∧ s = t

theorem bool_cancel {b b' : Bool} {s t : List Char}
    (h : (if b then "true" else "false").toList ++ s =
      (if b' then "true" else "false").toList ++ t) : b = b' ∧ s = t := by
  cases b <;> cases b' <;> simp_all

/-- A key with a number behind it, and what ends the number. -/
theorem keyed_cancel (colon : String) {a b : String} {x y : Float} {s t : List Char}
    (hs : Separates s) (ht : Separates t)
    (h : (quoted a).toList ++ (colon.toList ++
        ((Decimal.text Decimal.interchange x).toList ++ s)) =
      (quoted b).toList ++ (colon.toList ++
        ((Decimal.text Decimal.interchange y).toList ++ t))) :
    (a, Decimal.legible x) = (b, Decimal.legible y) ∧ s = t := by
  obtain ⟨rfl, hrest⟩ := quoted_cancel h
  obtain ⟨hnumber, hrest⟩ := number_cancel hs ht (List.append_cancel_left hrest)
  exact ⟨congrArg _ hnumber, hrest⟩

theorem reads_tight : tight.Reads where
  bool h := bool_cancel (by simpa only [tight, compact] using h)
  string h := quoted_cancel (by simpa only [tight, compact] using h)
  number h := by
    have hends (s : List Char) : Separates ('\x7d' :: s) := ⟨_, rfl, .inr (.inr rfl)⟩
    obtain ⟨hnumber, hrest⟩ := keyed_cancel ":" (hends _) (hends _)
      (by simpa [tight, compact, compactFields, enclosed] using h)
    exact ⟨hnumber, List.tail_eq_of_cons_eq hrest⟩

theorem reads_airy : airy.Reads where
  bool h := bool_cancel (by simpa only [airy, pretty] using h)
  string h := quoted_cancel (by simpa only [airy, pretty] using h)
  number h := by
    have hends (s : List Char) : Separates ('\n' :: s) := ⟨_, rfl, .inr (.inl rfl)⟩
    obtain ⟨hnumber, hrest⟩ := keyed_cancel ": " (hends _) (hends _)
      (by simpa [airy, pretty, prettyFields, enclosedLines, indentation] using h)
    exact ⟨hnumber, by simpa using hrest⟩

end Layout

theorem compactFields_eq (fields : List (String × JsonValue)) :
    compactFields fields = fields.map tight.field := by
  induction fields with
  | nil => rfl
  | cons p fields ih => simp [compactFields, ih, Layout.field, tight]

theorem prettyFields_eq (fields : List (String × JsonValue)) :
    (prettyFields 1 fields).map (indentation 1 ++ ·) = fields.map airy.field := by
  induction fields with
  | nil => rfl
  | cons p fields ih => simp [prettyFields, ih, Layout.field, airy, String.append_assoc]

theorem toList_intercalate (w : Layout) (p : String × JsonValue)
    (fields : List (String × JsonValue)) :
    (String.intercalate "," ((p :: fields).map w.field)).toList =
      (w.field p).toList ++ w.others fields := by
  induction fields generalizing p with
  | nil => simp [Layout.others]
  | cons q fields ih =>
      rw [List.map_cons, List.map_cons, String.intercalate_cons_cons, String.toList_append,
        String.toList_append, ← List.map_cons, ih]
      simp [Layout.others]

theorem toList_compact (p : String × JsonValue) (fields : List (String × JsonValue)) :
    (object (p :: fields)).compact.toList =
      '\x7b' :: ((tight.field p).toList ++ (tight.others fields ++ ['\x7d'])) := by
  rw [compact, enclosed, compactFields_eq, String.toList_append, String.toList_append,
    toList_intercalate]
  simp

theorem toList_pretty (p : String × JsonValue) (fields : List (String × JsonValue)) :
    ((object (p :: fields)).pretty 0).toList =
      '\x7b' :: ((airy.field p).toList ++ (airy.others fields ++ ['\n', '\x7d'])) := by
  have hne : prettyFields 1 (p :: fields) ≠ [] := by simp [prettyFields]
  rw [pretty, enclosedLines, if_neg hne, prettyFields_eq, String.toList_append,
    String.toList_append, String.toList_append, toList_intercalate]
  simp [indentation]

end JsonValue

/-! ## Reports -/

namespace Report

open JsonValue (Layout tight airy)

/-- Two reports tell the same about the outcome. -/
structure SameOutcome (r r' : Report) : Prop where
  ok : r.ok = r'.ok
  divergent : r.divergent = r'.divergent
  root : r.root = r'.root
  asymptotics : r.asymptotics = r'.asymptotics
  error : r.error = r'.error

theorem SameOutcome.trans_symm {r r' s : Report} (h : r.SameOutcome s) (h' : r'.SameOutcome s) :
    r.SameOutcome r' where
  ok := h.ok.trans h'.ok.symm
  divergent := h.divergent.trans h'.divergent.symm
  root := h.root.trans h'.root.symm
  asymptotics := h.asymptotics.trans h'.asymptotics.symm
  error := h.error.trans h'.error.symm

/-- The same as far as JSON can tell it, which has no numbers that are not finite. -/
structure SameReading (r r' : Report) : Prop where
  ok : r.ok = r'.ok
  divergent : r.divergent = r'.divergent
  root : (r.root.map fun p => (p.1, Decimal.legible p.2)) =
    r'.root.map fun p => (p.1, Decimal.legible p.2)
  asymptotics : r.asymptotics = r'.asymptotics
  error : r.error = r'.error

/-- A finite root is told. -/
theorem SameReading.sameOutcome {r r' : Report} (h : r.SameReading r')
    (hfinite : ∀ p ∈ r'.root, p.2.isFinite = true) : r.SameOutcome r' where
  ok := h.ok
  divergent := h.divergent
  root := by
    have hroot := h.root
    cases hr : r.root with
    | none => cases hr' : r'.root with
      | none => rfl
      | some q => simp [hr, hr'] at hroot
    | some p => cases hr' : r'.root with
      | none => simp [hr, hr'] at hroot
      | some q =>
          have hq := hfinite q hr'
          simp only [hr, hr', Option.map_some, Option.some.injEq, Prod.mk.injEq, Decimal.legible,
            if_pos hq] at hroot
          obtain ⟨hname, hnumber⟩ := hroot
          split at hnumber
          · exact congrArg some (Prod.ext hname (Option.some.inj hnumber))
          · simp at hnumber
  asymptotics := h.asymptotics
  error := h.error

/-- A text is the report as a line of its own, in one of the two layouts. -/
def IsWritten (r : Report) (text : String) : Prop :=
  text = r.toJson.compact ++ "\n" ∨ text = r.toJson.pretty 0 ++ "\n"

/-- The fields behind the first one. -/
def fields (r : Report) : List (String × JsonValue) :=
  optional "divergent" .bool r.divergent ++
    (optional "root" (fun p => .object [(p.1, .number p.2)]) r.root ++
    (optional "asymptotics" .string r.asymptotics ++
    (optional "error" .string r.error ++
    (optional "recurrence" .string r.recurrence ++
    (optional "function" .string r.function ++
      optional "variables" (fun names => .list (names.map .string)) r.parameters)))))

theorem toJson_eq (r : Report) : r.toJson = .object (("ok", .bool r.ok) :: r.fields) := by
  simp [toJson, fields]

/-- **Reports that are laid out alike tell the same about the outcome.** -/
theorem sameReading_of_layout {w : Layout} (hw : w.Reads) {ending : List Char}
    (hending : Layout.Ends ending) {r r' : Report}
    (h : (w.field ("ok", .bool r.ok)).toList ++ (w.others r.fields ++ ending) =
      (w.field ("ok", .bool r'.ok)).toList ++ (w.others r'.fields ++ ending)) :
    r.SameReading r' := by
  -- the fields are taken off one by one; those behind have other keys
  obtain ⟨hok, h⟩ := hw.bool (Layout.field_cancel h).2
  obtain ⟨hdivergent, h⟩ :=
    Layout.optional_cancel (g := id) hw.bool (by simp) (by simp) hending h
  obtain ⟨hroot, h⟩ := Layout.optional_cancel hw.number (by simp) (by simp) hending h
  obtain ⟨hasymptotics, h⟩ :=
    Layout.optional_cancel (g := id) hw.string (by simp) (by simp) hending h
  obtain ⟨herror, -⟩ := Layout.optional_cancel (g := id) hw.string (by simp) (by simp) hending h
  exact ⟨hok, by simpa using hdivergent, hroot, by simpa using hasymptotics, by simpa using herror⟩

theorem toList_of_compact {r : Report} {text : String} (h : text = r.toJson.compact ++ "\n") :
    text.toList = '\x7b' :: ((tight.field ("ok", .bool r.ok)).toList ++
      (tight.others r.fields ++ ['\x7d', '\n'])) := by
  rw [h, String.toList_append, toJson_eq, JsonValue.toList_compact]
  simp

theorem toList_of_pretty {r : Report} {text : String} (h : text = r.toJson.pretty 0 ++ "\n") :
    text.toList = '\x7b' :: ((airy.field ("ok", .bool r.ok)).toList ++
      (airy.others r.fields ++ ['\n', '\x7d', '\n'])) := by
  rw [h, String.toList_append, toJson_eq, JsonValue.toList_pretty]
  simp

/-- The layouts differ in their second character. -/
theorem field_tight_ne_field_airy (p q : String × JsonValue) (s t : List Char) :
    (tight.field p).toList ++ s ≠ (airy.field q).toList ++ t := by
  simp [Layout.field, tight, airy, JsonValue.quoted, JsonValue.indentation]

/-- **Reports with the same text tell the same about the outcome.** -/
theorem sameReading_of_isWritten {r r' : Report} {text : String} (h : r.IsWritten text)
    (h' : r'.IsWritten text) : r.SameReading r' := by
  obtain h | h := h <;> obtain h' | h' := h'
  · have heq := (toList_of_compact h).symm.trans (toList_of_compact h')
    exact sameReading_of_layout Layout.reads_tight (by simp [Layout.Ends]) (List.cons.inj heq).2
  · have heq := (toList_of_compact h).symm.trans (toList_of_pretty h')
    exact absurd (List.cons.inj heq).2 (field_tight_ne_field_airy _ _ _ _)
  · have heq := (toList_of_compact h').symm.trans (toList_of_pretty h)
    exact absurd (List.cons.inj heq).2 (field_tight_ne_field_airy _ _ _ _)
  · have heq := (toList_of_pretty h).symm.trans (toList_of_pretty h')
    exact sameReading_of_layout Layout.reads_airy (by simp [Layout.Ends]) (List.cons.inj heq).2

end Report

end GrowthOrder
