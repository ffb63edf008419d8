import GrowthOrder.Proofs.Search.Doubling
import GrowthOrder.Proofs.Search.Rejection

/-!
# GrowthOrder.Proofs.Search.FitEnds

Brent's method is only ever called where it works.  It refuses an interval with values of the same
sign at the ends, and a hint is clamped to a bracket, which takes one whose ends are in order.
Neither is checked by the searches, and both hold:

* an upper end is accepted for a finite value there that is not positive, and that leaves no delta
  infinite, so that the value at 1 is the sum of the coefficients less one, or infinite;
* the checks before the search for a bracket leave no negative value at 1;
* a bound is at least 2, and remains so when it is doubled.

`bracket_secured` is about binary64 with any `exp` and `ln` that are right at 0 and at 1.
-/

namespace GrowthOrder

open Binary64 Characteristic Search Stages

/-! ## Fit ends -/

section

variable {α : Type} [Scalar α]

namespace Brent

variable {f : α → α} {a b : α} {o : Options α}

/-- Ends that a search does not refuse: a value is zero, or the values differ in sign. -/
def Fit (f : α → α) (a b : α) : Prop :=
  (sample f a).isZero = true ∨ (sample f b).isZero = true ∨
    opposite (sample f a) (sample f b) = true

/-- Between fit ends a search fails only where its iterations are used up. -/
theorem Fit.search_error (h : Fit f a b) {fault : SearchFault α}
    (hfault : (search f a b o).result = .error fault) :
    (∃ x, fault = .exhausted o.iterations x) ∧ (search f a b o).events.length = o.iterations := by
  cases course f a b o with
  | lower ha hsearch => simp [hsearch] at hfault
  | upper ha hb hsearch => simp [hsearch] at hfault
  | refused ha hb hsame hsearch => simp [Fit, ha, hb, hsame] at h
  | run ha hb hopposite steps hrun =>
      rw [hrun.result] at hfault
      split at hfault
      · simp at hfault
      · next hsteps =>
        refine ⟨⟨_, (Except.error.inj hfault).symm⟩, ?_⟩
        rw [hrun.events, List.length_map, List.length_range]
        exact Nat.le_antisymm hrun.steps_le (Nat.le_of_not_lt hsteps)

end Brent

namespace Search

/-! ## Behind a bracket -/

/-- All iterations in the bracket `[1, upper]` are used up. -/
def IsExhausted (g : Characteristic α) (upper : α) : Prop :=
  (∃ x, (Brent.search g.value 1.0 upper .standard).result = .error (.exhausted 100 x)) ∧
    (Brent.search g.value 1.0 upper .standard).events.length = 100

/-- What is certain of a search with a bracket: the bracket starts at 1, its ends are fit, so that
Brent's method can only run out of iterations there, and if there is no root then it did, which is
recorded right before the outcome. -/
structure Secured (g : Characteristic α) (search : Recorded α (Root α)) (lower upper : α) :
    Prop where
  lower_eq : lower = 1.0
  fit : Brent.Fit g.value 1.0 upper
  fault : ∀ fault, (Brent.search g.value 1.0 upper .standard).result = .error fault →
    ∃ x, fault = .exhausted 100 x
  infeasible : search.result = .infeasible → IsExhausted g upper ∧ ∃ front, search.events =
    front ++ (Brent.search g.value 1.0 upper .standard).events ++ [.finished .infeasible]

variable {g : Characteristic α} {upper : α}

/-- In a bracket there is no root only if Brent's method finds none. -/
theorem inBracket_infeasible {tolerance : α}
    (h : (inBracket g upper tolerance).result = .infeasible) :
    (∃ fault, (Brent.search g.value 1.0 upper .standard).result = .error fault) ∧
      (inBracket g upper tolerance).events =
        (Brent.search g.value 1.0 upper .standard).events := by
  simp only [inBracket] at h ⊢
  cases hfound : (Brent.search g.value 1.0 upper .standard).result with
  | error fault => exact ⟨⟨fault, rfl⟩, rfl⟩
  | ok x => simp [hfound, snap] at h

/-- A hint does not change that. -/
theorem withGuess_infeasible {guess : Option α}
    (h : (withGuess g guess upper).result = .infeasible) :
    (∃ fault, (Brent.search g.value 1.0 upper .standard).result = .error fault) ∧
      ∃ front, (withGuess g guess upper).events =
        front ++ (Brent.search g.value 1.0 upper .standard).events := by
  unfold withGuess at h ⊢
  cases hguess : guess.filter fun x => Scalar.isFinite x with
  | none =>
      rw [hguess] at h
      obtain ⟨hfault, hevents⟩ := inBracket_infeasible h
      exact ⟨hfault, [], hevents⟩
  | some hint =>
      rw [hguess] at h
      cases hnewton : newtonRoot? g upper hint with
      | some x =>
          change (fromGuess g upper hint).result = _ at h
          simp [fromGuess_result, hnewton] at h
      | none =>
          obtain ⟨newton, reason, hrejected⟩ := fromGuess_of_rejection hnewton
          simp only [hrejected] at h ⊢
          obtain ⟨hfault, hevents⟩ := inBracket_infeasible h
          refine ⟨hfault, newtonEvents 1 newton ++ [.rejected reason], ?_⟩
          rw [← hevents, List.append_assoc]
          rfl

/-- **A search for a bracket, and then for a root in it, is secured** if the brackets that it may
come to have fit ends. -/
theorem secured_bracketed {bracket : Recorded α (Option α)} {probes : List (α × α)}
    {search : α → Recorded α (Root α)} {hinted : Bool} (hb : Bracket.IsSearch bracket probes)
    (hs : ∀ upper, ∃ s : Stages α, search upper = ⟨s.inside, s.outcome⟩ ∧ s.LawfulInside hinted)
    (hfit : bracket.result = some upper → Brent.Fit g.value 1.0 upper)
    (hsearch : (search upper).result = .infeasible →
      (∃ fault, (Brent.search g.value 1.0 upper .standard).result = .error fault) ∧
        ∃ front, (search upper).events =
          front ++ (Brent.search g.value 1.0 upper .standard).events)
    {lower : α} (h : .bracket lower upper ∈ (finish (bracketed bracket search)).events) :
    Secured g (finish (bracketed bracket search)) lower upper ∧ bracket.result = some upper := by
  obtain ⟨s, hrecorded, -, -, hupper⟩ := exists_bracketed hb hs
  rw [hrecorded] at h
  obtain ⟨hlower, hresult⟩ := bracket_mem_events.1 h
  rw [hupper] at hresult
  have hfault (fault : SearchFault α)
      (h : (Brent.search g.value 1.0 upper .standard).result = .error fault) :=
    (hfit hresult).search_error h
  refine ⟨⟨hlower, hfit hresult, fun fault h => (hfault fault h).1, fun hinfeasible => ?_⟩, hresult⟩
  simp only [bracketed, hresult] at hinfeasible ⊢
  obtain ⟨⟨fault, herror⟩, front, hfront⟩ := hsearch hinfeasible
  obtain ⟨⟨x, rfl⟩, hlength⟩ := hfault fault herror
  refine ⟨⟨⟨x, herror⟩, hlength⟩, bracket.events ++ .bracket 1.0 upper :: front, ?_⟩
  simp [finish, hfront, show (search upper).result = .infeasible from hinfeasible]

omit [Scalar α] in
/-- A search that is over before it probes comes to no bracket. -/
theorem not_bracket_mem_unprobed {outcome : Root α} {lower : α} :
    .bracket lower upper ∉ (finish ⟨[], outcome⟩).events := by
  simp [finish]

/-! ## Accepted upper ends -/

theorem closes_of_byDoubling (h : (Bracket.byDoubling g).result = some upper) :
    Bracket.closes (g.value upper) = true := by
  rw [Bracket.byDoubling_result] at h
  exact List.find?_some (p := fun b => Bracket.closes (g.value b)) h

theorem closes_of_stretchFrom {remaining : Nat} {b : α}
    (h : (Bracket.stretchFrom g remaining b).result = some upper) :
    Bracket.closes (g.value upper) = true := by
  induction remaining generalizing b with
  | zero =>
      rw [Bracket.stretchFrom] at h
      split at h
      · next hclose => rwa [← Option.some.inj h]
      · simp at h
  | succ remaining ih =>
      rw [Bracket.stretchFrom] at h
      split at h
      · next hclose => rwa [← Option.some.inj h]
      · exact ih h

end Search

end

/-! ## Binary64 with any exponential function -/

section

/-- Binary64 with a given exponential function and logarithm. -/
local instance binary64 [E : ExpLog Float] : Scalar Float :=
  { instScalarFloat with
    exp := E.exp
    ln := E.ln }

/-- What the program runs on. -/
theorem binary64_float : @binary64 ⟨Float.exp, Float.log⟩ = instScalarFloat :=
  rfl

section

variable [E : ExpLog Float]

namespace Characteristic

variable {g : Characteristic Float}

/-- A value is infinite, or it is finite and computed from finite sums. -/
theorem value_eq_or (g : Characteristic Float) (x : Float) :
    g.value x = infinity ∨
      (g.value x).isFinite = true ∧ g.value x = g.sumAtLog (Scalar.ln x) - 1.0 ∧
        (-g.weightedAtLog (Scalar.ln x) / x).isFinite = true := by
  rw [value, evaluate]
  split
  · exact .inl rfl
  · dsimp only
    split
    · next hfinite =>
      obtain ⟨hvalue, hslope⟩ := Bool.and_eq_true_iff.1 hfinite
      exact .inr ⟨hvalue, rfl, hslope⟩
    · exact .inl rfl

/-- Where the value is finite, so are the deltas. -/
theorem isFinite_delta_of_value {x : Float} (h : (g.value x).isFinite = true) :
    ∀ p ∈ g.powers, p.delta.isFinite = true := by
  obtain hinfinity | ⟨-, -, hslope⟩ := g.value_eq_or x
  · rw [hinfinity] at h
    exact absurd h not_isFinite_infinity
  · have hweighted : (g.weightedAtLog (Scalar.ln x)).isFinite = true := by
      have := isFinite_of_div hslope
      rwa [isFinite_neg] at this
    intro p hp
    exact (isFinite_of_mul ((isFinite_of_foldl hweighted).2 p hp)).1

/-- With coefficients 1 the value at 1 is not negative. -/
theorem not_atOne_unit_lt {deltas : List Float} (h : deltas ≠ []) :
    ¬(unit deltas).atOne < 0.0 := by
  obtain ⟨d, ds, rfl⟩ := List.exists_cons_of_ne_nil h
  have hfirst : (0.0 + 1.0 : Float) = 1.0 := by decide +kernel
  have hsum : Reaches 0 ((ds.map fun _ => 1.0).foldl (· + ·) (0.0 + 1.0)) := by
    rw [hfirst]
    exact isPower_one.reaches.foldl (by simp [isPower_one.reaches])
  have hatOne : (unit (d :: ds)).atOne =
      (ds.map fun _ => 1.0).foldl (· + ·) (0.0 + 1.0) - 1.0 := by
    simp only [atOne, coefficients, unit, List.map_map, Function.comp_def]
    rfl
  rw [hatOne]
  exact hsum.not_sub_one_lt_zero

section

variable (hln : IsZero (E.ln 1.0)) (hexp : ∀ x, IsZero x → E.exp x = 1.0)

include hln hexp

/-- At 1 a power with a finite delta is its coefficient. -/
theorem atLog_one {p : Power Float} (h : p.delta.isFinite = true) :
    Power.atLog p (Scalar.ln 1.0) = p.coefficient := by
  have hzero : IsZero (-p.delta * Scalar.ln 1.0) :=
    isZero_mul ((isFinite_neg p.delta).trans h) hln
  have hone : Scalar.exp (-p.delta * Scalar.ln 1.0) = 1.0 := hexp _ hzero
  rw [Power.atLog, hone]
  exact mul_one_eq p.coefficient

/-- **At 1 the value is infinite, or it is the sum of the coefficients less one**, if the deltas are
finite. -/
theorem value_one_eq_or (h : ∀ p ∈ g.powers, p.delta.isFinite = true) :
    g.value 1.0 = infinity ∨ (g.value 1.0).isFinite = true ∧ g.value 1.0 = g.atOne := by
  have hsum : g.sumAtLog (Scalar.ln 1.0) = g.coefficients.foldl (· + ·) 0.0 := by
    rw [sumAtLog, coefficients, List.foldl_map]
    refine List.foldl_ext _ _ _ fun sum p hp => ?_
    rw [atLog_one hln hexp (h p hp)]
  obtain hinfinity | ⟨hfinite, hvalue, -⟩ := g.value_eq_or 1.0
  · exact .inl hinfinity
  · refine .inr ⟨hfinite, ?_⟩
    rw [hvalue, hsum]
    rfl

/-- **The ends of a bracket are fit** if the value at 1 is not negative. -/
theorem fit_of_closes {upper : Float} (hatOne : ¬g.atOne < 0.0)
    (hclose : Bracket.closes (g.value upper) = true) : Brent.Fit g.value 1.0 upper := by
  rw [Bracket.closes, Bool.and_eq_true, decide_eq_true_eq] at hclose
  have hzero {x : Float} (h : IsZero x) : (x == (0.0 : Float)) = true :=
    (beq_iff x 0.0).2 ⟨.inr ⟨h, isZero_zero⟩, isNaN_of_isZero h⟩
  obtain hupper | hupper := isZero_or_isNegative hclose.1 hclose.2
  · exact .inr (.inl (hzero hupper))
  · have hfit (hone : isNegative (g.value 1.0) = false) : Brent.Fit g.value 1.0 upper := by
      refine .inr (.inr ?_)
      change (isNegative (g.value 1.0) != isNegative (g.value upper)) = true
      rw [hone, hupper]
      rfl
    obtain hinfinity | ⟨hfinite, hvalue⟩ :=
      value_one_eq_or hln hexp (isFinite_delta_of_value hclose.1)
    · exact hfit (by rw [hinfinity]; decide +kernel)
    · rw [← hvalue, lt_zero_iff hfinite, not_and_not_right] at hatOne
      cases hone : isNegative (g.value 1.0) with
      | true => exact .inl (hzero (hatOne hone))
      | false => exact hfit hone

end

end Characteristic

/-! ## Upper ends -/

namespace Bracket

theorem reaches_cap : Reaches 1 cap := by
  have hcap : (2.0 : Float) ≤ 1e12 := by decide +kernel
  exact isPower_two.reaches_iff.2 hcap

theorem reaches_bound (size : Nat) (minDelta : Float) : Reaches 1 (bound size minDelta) := by
  simp only [bound]
  split
  · exact reaches_cap
  · rw [Scalar.max]
    split
    · exact isPower_two.reaches
    · next h =>
      rw [Bool.or_eq_true, not_or, decide_eq_true_eq, Bool.not_eq_true] at h
      have htwo : (2.0 : Float).isNaN = false := by decide +kernel
      exact isPower_two.reaches_iff.2 (not_not.1 fun hnot => h.2 ((lt_iff_not_le h.1 htwo).2 hnot))

/-- A bound that is doubled, up to the cap, remains at least 2. -/
theorem reaches_of_stretchFrom {g : Characteristic Float} {remaining : Nat} {b upper : Float}
    (hb : Reaches 1 b) (h : (stretchFrom g remaining b).result = some upper) :
    Reaches 1 upper := by
  induction remaining generalizing b with
  | zero =>
      rw [stretchFrom] at h
      split at h
      · rwa [← Option.some.inj h]
      · simp at h
  | succ remaining ih =>
      rw [stretchFrom] at h
      split at h
      · rwa [← Option.some.inj h]
      · refine ih ?_ h
        rw [Scalar.min]
        split
        · exact reaches_cap
        · exact hb.double

end Bracket

/-! ## Both searches -/

section

variable (hln : IsZero (E.ln 1.0)) (hexp : ∀ x, IsZero x → E.exp x = 1.0)

include hln hexp

namespace Search

theorem secured_ofCharacteristic {g : Characteristic Float} {lower upper : Float}
    (h : .bracket lower upper ∈ (finish (ofCharacteristic g)).events) :
    Secured g (finish (ofCharacteristic g)) lower upper := by
  rw [ofCharacteristic] at h ⊢
  split_ifs at h ⊢ with hempty hdeltas hsettled hatOne
  · exact absurd h not_bracket_mem_unprobed
  · exact absurd h not_bracket_mem_unprobed
  · exact absurd h not_bracket_mem_unprobed
  · exact absurd h not_bracket_mem_unprobed
  · obtain ⟨probes, hprobes, -⟩ := Bracket.exists_doublingFrom g Bracket.maxProbes 1
    refine (secured_bracketed hprobes (fun upper => exists_cold g upper recurrenceTolerance)
      (fun hupper => fit_of_closes hln hexp hatOne (closes_of_byDoubling hupper))
      (fun hinfeasible => ?_) h).1
    obtain ⟨hfault, hevents⟩ := inBracket_infeasible hinfeasible
    exact ⟨hfault, [], hevents⟩

theorem secured_ofDeltas {deltas : List Float} {guess : Option Float} {lower upper : Float}
    (h : .bracket lower upper ∈ (finish (ofDeltas deltas guess)).events) :
    Secured (unit deltas) (finish (ofDeltas deltas guess)) lower upper ∧ Reaches 1 upper := by
  by_cases hsettled : IsSettled deltas
  · obtain ⟨outcome, houtcome⟩ := ofDeltas_of_isSettled guess hsettled
    rw [houtcome] at h
    exact absurd h not_bracket_mem_unprobed
  · simp only [IsSettled, not_or, not_lt, not_exists, not_and] at hsettled
    obtain ⟨m, hmin⟩ := exists_minDelta hsettled.1
    have hdeltas : deltas ≠ [] := by
      rintro rfl
      simp at hsettled
    obtain ⟨probes, hprobes, -⟩ := Bracket.exists_stretchFrom (unit deltas) Bracket.maxDoublings
      (Bracket.bound (unit deltas).size m)
    rw [ofDeltas_of_length guess hsettled.1 hmin, if_neg (hsettled.2 m hmin)] at h ⊢
    obtain ⟨hsecured, hupper⟩ := secured_bracketed hprobes (exists_withGuess (unit deltas) guess)
      (fun hupper => fit_of_closes hln hexp (not_atOne_unit_lt hdeltas)
        (closes_of_stretchFrom hupper)) withGuess_infeasible h
    exact ⟨hsecured, Bracket.reaches_of_stretchFrom (Bracket.reaches_bound _ m) hupper⟩

end Search

/-- **Brent's method is called between fit ends only, and a hint is clamped to a bracket in order.**
Whatever the recurrence, and whatever the deltas and the hint, each bracket starts at 1 and has fit
ends, and if no root is reported after it then all iterations are used up; the upper end of a
bracket for deltas is a number of at least 2. -/
theorem bracket_secured :
    (∀ (r : Recurrence Float) search, r.dominantRoot = .ok search →
      ∀ lower upper, .bracket lower upper ∈ search.events →
        Secured (ofRecurrence r) search lower upper) ∧
    ∀ (deltas : List Float) (guess : Option Float) lower upper,
      .bracket lower upper ∈ (dominantRoot deltas guess).events →
        Secured (unit deltas) (dominantRoot deltas guess) lower upper ∧
          2.0 ≤ upper ∧ upper.isNaN = false := by
  refine ⟨fun r search hsearch lower upper h => ?_, fun deltas guess lower upper h => ?_⟩
  · obtain ⟨-, rfl⟩ := Recurrence.dominantRoot_eq_ok_iff.1 hsearch
    exact secured_ofCharacteristic hln hexp h
  · obtain ⟨hsecured, hreaches⟩ := secured_ofDeltas hln hexp h
    have hle := isPower_two.reaches_iff.1 hreaches
    exact ⟨hsecured, hle, (isNaN_of_le hle).2⟩

end

end

/-- `exp` and `ln` at the few numbers that the searches below come to. -/
local instance tabulated : ExpLog Float where
  exp y :=
    if y == 0.0 then 1.0
    else if y == 0.6931471805599453 then 2.0
    else if y == -0.6931471805599453 then 0.5
    else 0.49504950495049505
  ln x :=
    if x == 1.0 then 0.0
    else if x == 2.0 then 0.6931471805599453
    else if x == 2.02 then 0.7030975114131134
    else 27.62107078507538

/-- `T(n) = 2*T(n-1)` has its root at the upper end of a bracket.  The deltas 1 and 1, with the root
2 as a hint, have a bracket from the bound. -/
theorem bracket_secured_two :
    let r : Recurrence Float := ⟨⟨1.0, "T", ["n"], [0.0]⟩, [.call ⟨2.0, "T", ["n"], [-1.0]⟩]⟩
    IsZero (tabulated.ln 1.0) ∧ (∀ x, IsZero x → tabulated.exp x = 1.0) ∧
      (∃ search, r.dominantRoot = .ok search ∧ .bracket 1.0 2.0 ∈ search.events ∧
        Secured (ofRecurrence r) search 1.0 2.0) ∧
      .bracket 1.0 2.02 ∈ (dominantRoot [1.0, 1.0] (some 2.0)).events ∧
      Secured (unit [1.0, 1.0]) (dominantRoot [1.0, 1.0] (some 2.0)) 1.0 2.02 ∧
      (2.0 : Float) ≤ 2.02 ∧ (2.02 : Float).isNaN = false := by
  intro r
  have hln : IsZero (tabulated.ln 1.0) := isZero_zero
  have hexp : ∀ x, IsZero x → tabulated.exp x = 1.0 := fun x hx =>
    if_pos ((beq_iff x 0.0).2 ⟨.inr ⟨hx, isZero_zero⟩, isNaN_of_isZero hx⟩)
  have hroot : r.dominantRoot = .ok (finish (ofCharacteristic (ofRecurrence r))) := rfl
  have hdoubled : .bracket 1.0 2.0 ∈ (finish (ofCharacteristic (ofRecurrence r))).events := by
    decide +kernel
  have hbound : .bracket 1.0 2.02 ∈ (dominantRoot [(1.0 : Float), 1.0] (some 2.0)).events := by
    decide +kernel
  exact ⟨hln, hexp, ⟨_, hroot, hdoubled, (bracket_secured hln hexp).1 r _ hroot _ _ hdoubled⟩,
    hbound, (bracket_secured hln hexp).2 _ _ _ _ hbound⟩

end

end GrowthOrder
