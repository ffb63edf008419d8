import GrowthOrder.Explorer.Curve
import GrowthOrder.Proofs.Exact

/-!
# GrowthOrder.Proofs.Explorer.Curve

The window of the curve, in exact arithmetic.  Around the focus, or around the middle of the bracket
where there is none, it is

```text
lower = min (max (centre - width / 2) bracket.lower) (bracket.upper - width)
upper = lower + width                     width = (bracket.upper - bracket.lower) / 2 ^ exponent
```

as long as the ends that `lower` is moved between are in order, and otherwise it is refused.  They
are in order exactly if the exponent is not negative (`ordered_iff`).  Then the window is around its
centre, or at an end of the bracket (`start_cases`), and all that is asked of it (`Shows`) follows
by linear arithmetic.

The exponent is the zoom, cut to 32 bits: it is the zoom below `2 ^ 31` only, and from there on no
zoom is shown right (`zoomed_shown_iff`).  A session does not zoom further than 40
(`Session.Invariant.zoom_le`).
-/

namespace GrowthOrder

namespace Explorer.Window

section

variable {α : Type} [Scalar α]

/-- An infinity or a NaN is no focus. -/
theorem zoomed?_of_not_isFinite {x : α} (h : Scalar.isFinite x = false) (bracket : Window α)
    (zoom : Nat) : bracket.zoomed? (some x) zoom = bracket.zoomed? none zoom := by
  simp [zoomed?, Option.filter, h]

end

/-! ## Exact windows -/

section

variable {K : Type} [Field K] [LinearOrder K] [IsStrictOrderedRing K]

/-- A window is around its centre, or at an end of the bracket that is too near for that. -/
theorem start_cases {lower upper centre width start : K} (hwidth : width ≤ upper - lower)
    (h : start = min (max (centre - width / 2) lower) (upper - width)) :
    (start = centre - width / 2 ∧ lower + width / 2 ≤ centre ∧ centre ≤ upper - width / 2) ∨
      (start = lower ∧ centre ≤ lower + width / 2) ∨
      (start = upper - width ∧ upper - width / 2 ≤ centre) := by
  by_cases hlow : centre - width / 2 ≤ lower
  · rw [max_eq_right hlow, min_eq_left (by linarith)] at h
    exact .inr (.inl ⟨h, by linarith⟩)
  · rw [max_eq_left (not_le.1 hlow).le] at h
    by_cases hhigh : upper - width ≤ centre - width / 2
    · rw [min_eq_right hhigh] at h
      exact .inr (.inr ⟨h, by linarith⟩)
    · rw [min_eq_left (not_le.1 hhigh).le] at h
      exact .inl ⟨h, by linarith, by linarith⟩

end

variable {K : Type} [Field K] [LinearOrder K] [WholePart K] [ExpLog K]

/-- What the window of a curve is for: it is a part of the bracket, as wide as the exponent says,
and shows the focus if the bracket has it. -/
structure Shows (bracket shown : Window (Exact K)) (focus : Option (Exact K)) (exponent : ℤ) :
    Prop where
  lower_le : bracket.lower.val ≤ shown.lower.val
  lower_lt_upper : shown.lower.val < shown.upper.val
  upper_le : shown.upper.val ≤ bracket.upper.val
  width : shown.upper.val - shown.lower.val =
    (bracket.upper.val - bracket.lower.val) / 2 ^ exponent
  /-- A focus in the bracket is in the window. -/
  inside : ∀ x ∈ focus, bracket.lower.val ≤ x.val → x.val ≤ bracket.upper.val →
    shown.lower.val ≤ x.val ∧ x.val ≤ shown.upper.val
  /-- It is in the middle, where the bracket reaches half a window to both sides of it. -/
  centred : ∀ x ∈ focus, bracket.lower.val + (shown.upper.val - shown.lower.val) / 2 ≤ x.val →
    x.val ≤ bracket.upper.val - (shown.upper.val - shown.lower.val) / 2 → shown.middle = x
  /-- For a focus outside, the window is at the end of the bracket that is nearest to it. -/
  below : ∀ x ∈ focus, x.val < bracket.lower.val → shown.lower = bracket.lower
  above : ∀ x ∈ focus, bracket.upper.val < x.val → shown.upper = bracket.upper
  /-- Without a focus, the middle of the bracket is in the middle. -/
  unfocused : focus = none → shown.middle = bracket.middle

variable [IsStrictOrderedRing K]

theorem val_middle (w : Window (Exact K)) : w.middle.val = (w.lower.val + w.upper.val) / 2 := by
  have htwo : (2.0 : K) = 2 := by norm_num
  simp [middle, htwo]

theorem val_zoomedWidth (bracket : Window (Exact K)) (zoom : Nat) :
    (bracket.zoomedWidth zoom).val =
      (bracket.upper.val - bracket.lower.val) / 2 ^ zoom.toInt32.toInt := by
  have htwo : (2.0 : K) = 2 := by norm_num
  simp [zoomedWidth, htwo]

variable {bracket : Window (Exact K)}

theorem zoomedWidth_pos (h : bracket.lower.val < bracket.upper.val) (zoom : Nat) :
    0 < (bracket.zoomedWidth zoom).val := by
  rw [val_zoomedWidth]
  exact div_pos (sub_pos.2 h) (zpow_pos two_pos _)

/-- A window is no wider than its bracket, but for a negative exponent. -/
theorem zoomedWidth_le_iff (h : bracket.lower.val < bracket.upper.val) (zoom : Nat) :
    (bracket.zoomedWidth zoom).val ≤ bracket.upper.val - bracket.lower.val ↔
      0 ≤ zoom.toInt32.toInt := by
  rw [val_zoomedWidth, div_le_iff₀ (zpow_pos two_pos _), le_mul_iff_one_le_right (sub_pos.2 h),
    one_le_zpow_iff_right₀ one_lt_two]

/-- The ends that the start of a window is moved between. -/
theorem ordered_iff (h : bracket.lower.val < bracket.upper.val) (zoom : Nat) :
    bracket.lower ≤ bracket.upper - bracket.zoomedWidth zoom ↔ zoom % 2 ^ 32 < 2 ^ 31 := by
  rw [Exact.le_iff, Exact.val_sub, le_sub_comm, zoomedWidth_le_iff h, ← not_lt,
    Scalar.toInt_toInt32_neg_iff, not_le]

/-- The window of a zoom; without a zoom it is the bracket, which is as wide as the window is. -/
theorem exists_zoomed? (h : bracket.lower.val < bracket.upper.val) {zoom : Nat}
    (hzoom : zoom % 2 ^ 32 < 2 ^ 31) (focus : Option (Exact K)) :
    ∃ shown, bracket.zoomed? focus zoom = some shown ∧
      shown.lower.val = min (max ((focus.getD bracket.middle).val -
        (bracket.zoomedWidth zoom).val / 2) bracket.lower.val)
          (bracket.upper.val - (bracket.zoomedWidth zoom).val) ∧
      shown.upper.val = shown.lower.val + (bracket.zoomedWidth zoom).val := by
  have htwo : (2.0 : K) = 2 := by norm_num
  have hzero : (0.0 : K) = 0 := by norm_num
  have hfocus : focus.filter Scalar.isFinite = focus := by cases focus <;> rfl
  have hpos := zoomedWidth_pos h zoom
  by_cases hnone : zoom = 0
  · have hwidth : (bracket.zoomedWidth zoom).val = bracket.upper.val - bracket.lower.val := by
      simp [val_zoomedWidth, hnone]
    refine ⟨bracket, by simp [zoomed?, hnone], ?_, by rw [hwidth, add_sub_cancel]⟩
    rw [hwidth, sub_sub_cancel, min_eq_right (le_max_right _ _)]
  · let start := Scalar.clamp ((focus.getD bracket.middle) - bracket.zoomedWidth zoom / 2.0)
      bracket.lower (bracket.upper - bracket.zoomedWidth zoom)
    refine ⟨⟨start, start + bracket.zoomedWidth zoom⟩, ?_, ?_, Exact.val_add _ _⟩
    · simp only [zoomed?, Scalar.clamp?, if_pos ((ordered_iff h zoom).2 hzoom), Option.map_some,
        hfocus]
      exact if_neg (by simp [hnone, Exact.le_iff, hzero, hpos])
    · simp [start, htwo]

theorem zoomed?_eq_none (h : bracket.lower.val < bracket.upper.val) {zoom : Nat}
    (hzoom : 2 ^ 31 ≤ zoom % 2 ^ 32) (focus : Option (Exact K)) :
    bracket.zoomed? focus zoom = none := by
  have hzero : (0.0 : K) = 0 := by norm_num
  have hpos := zoomedWidth_pos h zoom
  have hne : zoom ≠ 0 := by
    rintro rfl
    omega
  have hordered : ¬bracket.lower ≤ bracket.upper - bracket.zoomedWidth zoom := by
    rw [ordered_iff h]
    exact hzoom.not_gt
  simp only [zoomed?, Scalar.clamp?, if_neg hordered, Option.map_none]
  exact if_neg (by simp [hne, Exact.le_iff, hzero, hpos])

/-- **With an exponent that is not negative, the window is right.** -/
theorem exists_shows (h : bracket.lower.val < bracket.upper.val) {zoom : Nat}
    (hzoom : zoom % 2 ^ 32 < 2 ^ 31) (focus : Option (Exact K)) :
    ∃ shown, bracket.zoomed? focus zoom = some shown ∧
      Shows bracket shown focus zoom.toInt32.toInt := by
  obtain ⟨shown, hshown, hstart, hend⟩ := exists_zoomed? h hzoom focus
  have hpos := zoomedWidth_pos h zoom
  have hle : (bracket.zoomedWidth zoom).val ≤ bracket.upper.val - bracket.lower.val := by
    rw [zoomedWidth_le_iff h, ← not_lt, Scalar.toInt_toInt32_neg_iff, not_le]
    exact hzoom
  have hmiddle := val_middle shown
  have hfocus : ∀ x ∈ focus, (focus.getD bracket.middle).val = x.val := by
    rintro x rfl
    rfl
  have hnone : focus = none → (focus.getD bracket.middle).val =
      (bracket.lower.val + bracket.upper.val) / 2 := by
    rintro rfl
    exact val_middle bracket
  have hwidth : shown.upper.val - shown.lower.val = (bracket.zoomedWidth zoom).val := by
    rw [hend, add_sub_cancel_left]
  replace hstart := start_cases hle hstart
  exact ⟨shown, hshown, {
    lower_le := by obtain hplace | hplace | hplace := hstart <;> linarith
    lower_lt_upper := by linarith
    upper_le := by obtain hplace | hplace | hplace := hstart <;> linarith
    width := by rw [hwidth, val_zoomedWidth]
    inside := fun x hx hlower hupper => by
      rw [hfocus x hx] at hstart
      obtain hplace | hplace | hplace := hstart <;> constructor <;> linarith
    centred := fun x hx hlower hupper => by
      rw [hfocus x hx] at hstart
      rw [hwidth] at hlower hupper
      refine Exact.ext ?_
      obtain hplace | hplace | hplace := hstart <;> linarith
    below := fun x hx hbelow => by
      rw [hfocus x hx] at hstart
      refine Exact.ext ?_
      obtain hplace | hplace | hplace := hstart <;> linarith
    above := fun x hx habove => by
      rw [hfocus x hx] at hstart
      refine Exact.ext ?_
      obtain hplace | hplace | hplace := hstart <;> linarith
    unfocused := fun hunfocused => by
      rw [hnone hunfocused] at hstart
      refine Exact.ext ?_
      rw [val_middle bracket]
      obtain hplace | hplace | hplace := hstart <;> linarith }⟩

/-- Windows that are both right have the same exponent. -/
theorem Shows.exponent_eq {shown : Window (Exact K)} {focus : Option (Exact K)} {e e' : ℤ}
    (hshows : Shows bracket shown focus e) (hshows' : Shows bracket shown focus e') : e = e' := by
  have hpos : (0 : K) < bracket.upper.val - bracket.lower.val := by
    linarith [hshows.lower_le, hshows.lower_lt_upper, hshows.upper_le]
  have hwidth := hshows.width.symm.trans hshows'.width
  rw [div_eq_mul_inv, div_eq_mul_inv, mul_right_inj' hpos.ne', inv_inj] at hwidth
  exact zpow_right_injective₀ two_pos one_lt_two.ne' hwidth

/-- **The window of the curve is right exactly for the zooms below `2 ^ 31`**, whatever the bracket
and the focus.  The ends that its start is clamped to are in order if the exponent of 32 bits is not
negative, and otherwise the window is refused. -/
theorem zoomed_shown_iff (h : bracket.lower.val < bracket.upper.val) (focus : Option (Exact K))
    (zoom : Nat) :
    (bracket.lower ≤ bracket.upper - bracket.zoomedWidth zoom ↔ zoom % 2 ^ 32 < 2 ^ 31) ∧
      (bracket.zoomed? focus zoom = none ↔ 2 ^ 31 ≤ zoom % 2 ^ 32) ∧
      ((∃ shown, bracket.zoomed? focus zoom = some shown ∧ Shows bracket shown focus zoom) ↔
        zoom < 2 ^ 31) := by
  refine ⟨ordered_iff h zoom, ⟨fun hnone => ?_, fun hzoom => zoomed?_eq_none h hzoom focus⟩,
    ?_, fun hzoom => ?_⟩
  · by_contra! hzoom
    obtain ⟨shown, hshown, -⟩ := exists_shows h hzoom focus
    simp [hshown] at hnone
  · rintro ⟨shown, hshown, hshows⟩
    by_cases hzoom : zoom % 2 ^ 32 < 2 ^ 31
    · obtain ⟨shown', hshown', hshows'⟩ := exists_shows h hzoom focus
      obtain rfl : shown = shown' := Option.some.inj (hshown.symm.trans hshown')
      have hexponent := hshows.exponent_eq hshows'
      obtain hcases | hcases := Scalar.toInt_toInt32_cases zoom <;> omega
    · simp [zoomed?_eq_none h (not_lt.1 hzoom)] at hshown
  · obtain ⟨-, hexponent⟩ | ⟨hlarge, -⟩ := Scalar.toInt_toInt32_cases zoom
    · rw [← hexponent]
      exact exists_shows h (by omega) focus
    · exact absurd hzoom hlarge.not_gt

/-- A focus near the upper end of a bracket, to which a window of a quarter of the bracket is moved
back. -/
theorem zoomed_shown_near_upper :
    let bracket : Window (Exact ℚ) := ⟨⟨1⟩, ⟨2⟩⟩
    bracket.lower.val < bracket.upper.val ∧
      bracket.zoomed? (some ⟨39 / 20⟩) 2 = some ⟨⟨7 / 4⟩, ⟨2⟩⟩ ∧
      ∃ shown, bracket.zoomed? (some ⟨39 / 20⟩) 2 = some shown ∧
        Shows bracket shown (some ⟨39 / 20⟩) (2 : Nat) :=
  ⟨by decide +kernel, by decide +kernel,
    (zoomed_shown_iff (by decide +kernel) (some ⟨39 / 20⟩) 2).2.2.2 (by decide)⟩

/-- The greatest zoom of 32 bits has the exponent -1, and the window would be twice as wide as the
bracket. -/
theorem exists_zoomed_not_shown :
    let bracket : Window (Exact ℚ) := ⟨⟨1⟩, ⟨2⟩⟩
    bracket.zoomedWidth 4294967295 = ⟨2⟩ ∧ bracket.zoomed? none 4294967295 = none ∧
      ¬∃ shown, bracket.zoomed? none 4294967295 = some shown ∧
        Shows bracket shown none (4294967295 : Nat) := by
  intro bracket
  have hnone : bracket.zoomed? none 4294967295 = none := by decide +kernel
  exact ⟨by decide +kernel, hnone, by simp [hnone]⟩

end Explorer.Window

end GrowthOrder
