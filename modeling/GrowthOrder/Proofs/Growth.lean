import GrowthOrder.Growth
import GrowthOrder.Proofs.Decimal.Shortest
import GrowthOrder.Proofs.Recurrence.Parser

/-!
# GrowthOrder.Proofs.Growth

A growth order is a single line of text: there is no line break in a number, and none in a name.
-/

namespace GrowthOrder

/-! ## Numbers -/

namespace Decimal

theorem newline_not_mem_digits {n : Nat} : '\n' ∉ digitsOf n := by
  intro h
  exact absurd (isDigit_of_mem_digitsOf h) (by decide)

theorem newline_not_mem_paddedDigits (length n : Nat) : '\n' ∉ paddedDigits length n := by
  rw [paddedDigits, List.mem_append, List.mem_replicate]
  rintro (⟨-, h⟩ | h)
  · exact absurd h (by decide)
  · exact newline_not_mem_digits h

theorem newline_not_mem_sign (negative : Bool) : '\n' ∉ (Numeral.sign negative).toList := by
  cases negative <;> decide

theorem newline_not_mem_fixed (places : Nat) (n : Numeral) : '\n' ∉ (fixed places n).toList := by
  cases n with
  | nan =>
      simp only [fixed]
      decide
  | infinite negative =>
      rw [fixed, String.toList_append, List.mem_append, not_or]
      exact ⟨newline_not_mem_sign negative, by decide⟩
  | finite negative q =>
      rw [fixed, String.toList_append, List.mem_append, not_or]
      refine ⟨newline_not_mem_sign negative, ?_⟩
      have hdigits := newline_not_mem_paddedDigits (places + 1)
        (nearest .even (q * (10 : Rat) ^ places))
      simp only [fixedMagnitude]
      split
      · rw [String.toList_ofList]
        exact fun h => hdigits (List.mem_of_mem_take h)
      · rw [String.toList_ofList, List.mem_append, List.mem_cons]
        rintro (h | h | h)
        · exact hdigits (List.mem_of_mem_take h)
        · exact absurd h (by decide)
        · exact hdigits (List.mem_of_mem_drop h)

/-- Trimming drops characters at the end only. -/
theorem mem_of_mem_trimFraction {c : Char} {text : List Char} (h : c ∈ trimFraction text) :
    c ∈ text := by
  have htrimmed {d : Char} (hd : d ∈ text.reverse.dropWhile (· == '0')) : d ∈ text :=
    List.mem_reverse.1 ((List.dropWhile_sublist _).subset hd)
  simp only [trimFraction] at h
  split_ifs at h
  · exact htrimmed (List.mem_of_mem_drop (List.mem_reverse.1 h))
  · exact htrimmed (List.mem_reverse.1 h)
  · exact h

theorem newline_not_mem_ceiling {α : Type} [Written α] (places : Nat) (x : α) :
    '\n' ∉ (ceiling places x).toList := by
  unfold ceiling
  split_ifs
  · decide
  · decide
  · decide
  · rw [String.toList_ofList]
    exact fun h => newline_not_mem_fixed _ _ (mem_of_mem_trimFraction h)

end Decimal

/-! ## Growth orders -/

theorem Name.newline_not_mem {name : String} (h : isValid name = true) : '\n' ∉ name.toList := by
  have hbreak : isStart '\n' = false ∧ isContinue '\n' = false := by decide +kernel
  unfold isValid at h
  split at h
  · simp at h
  · next c cs hname =>
    rw [hname, List.mem_cons]
    rw [Bool.and_eq_true, List.all_eq_true] at h
    rintro (hc | hc)
    · rw [← hc, hbreak.1] at h
      exact absurd h.1 Bool.false_ne_true
    · exact absurd (h.2 _ hc) (by simp [hbreak.2])

theorem Root.newline_not_mem_growthOrder {name : String} (h : Name.isValid name = true)
    (root : Root Float) : '\n' ∉ (root.growthOrder name).toList := by
  cases root with
  | divergent =>
      simp only [growthOrder]
      decide
  | infeasible =>
      simp only [growthOrder]
      decide
  | finite r =>
      simp only [growthOrder]
      split_ifs
      · decide
      · decide
      · simp only [String.toList_append, List.mem_append, not_or]
        exact ⟨⟨⟨⟨by decide, Decimal.newline_not_mem_ceiling _ r⟩, by decide⟩,
          Name.newline_not_mem h⟩, by decide⟩

/-- The names of a recurrence that is read are valid. -/
theorem Recurrence.isValid_of_parse {text : String} {r : Recurrence Float}
    (h : parse text = .ok r) : ∀ name ∈ r.function :: r.parameters, Name.isValid name = true := by
  obtain ⟨-, -, e, -, -, rfl, hchecked⟩ := exists_scoped_of_parse h
  exact (Call.checked_eq_ok_iff.1 hchecked.signature).2.1

end GrowthOrder
