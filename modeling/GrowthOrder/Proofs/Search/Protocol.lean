import GrowthOrder.Proofs.Search.Run
import GrowthOrder.Search.Dominant
import Mathlib.Tactic

/-!
# GrowthOrder.Proofs.Search.Protocol

What the events of a search look like.  A search goes through stages, one after the other: it
probes for a bracket, tries Newton's method from a guess, searches the bracket by Brent's method,
and rounds what it found.  `Stages` holds what each stage recorded, and `Stages.Lawful` says which
stages there are and how long they may be.

* `exists_ofCharacteristic`, `exists_ofDeltas` — every search is the record of lawful stages.
* `events_protocol` — both searches on binary64, with the probes that they make.
-/

namespace GrowthOrder

/-- What the stages of a search recorded, and the outcome. -/
structure Stages (α : Type) where
  /-- The probes for an upper end, each with the value there. -/
  probes : List (α × α)
  /-- The upper end of the bracket. -/
  upper? : Option α
  /-- The iterates of Newton's method, each with the value there. -/
  newton : List (α × α)
  /-- Why what Newton's method found is not used. -/
  rejection? : Option String
  /-- The iterates of Brent's method, each with the value there and the kind of step. -/
  brent : List (α × α × Step)
  /-- A root, and the whole number that replaces it. -/
  snapped? : Option (α × α)
  outcome : Root α

namespace Stages

variable {α : Type}

/-- Probes as events. -/
def probeEvents (probes : List (α × α)) : List (Event α) :=
  probes.map fun p => .probe p.1 p.2

/-- Iterates of Newton's method as events, the first of them number `first`. -/
def newtonEvents (first : Nat) (points : List (α × α)) : List (Event α) :=
  points.mapIdx fun i p => .newton (first + i) p.1 p.2

theorem newtonEvents_cons (first : Nat) (p : α × α) (points : List (α × α)) :
    newtonEvents first (p :: points) =
      .newton first p.1 p.2 :: newtonEvents (first + 1) points := by
  simp [newtonEvents, Nat.add_assoc, Nat.add_comm 1]

/-- Iterates of Brent's method as events, the first of them number `first`. -/
def brentEvents (first : Nat) (points : List (α × α × Step)) : List (Event α) :=
  points.mapIdx fun i p => .brent (first + i) p.1 p.2.1 p.2.2

/-- The events in a bracket. -/
def inside (s : Stages α) : List (Event α) :=
  newtonEvents 1 s.newton ++ (s.rejection?.map .rejected).toList ++ brentEvents 1 s.brent
    ++ (s.snapped?.map fun p => .snapped p.1 p.2).toList

/-- The events of all stages, in order. -/
def events [Scalar α] (s : Stages α) : List (Event α) :=
  probeEvents s.probes ++ (s.upper?.map (.bracket 1.0)).toList ++ s.inside ++ [.finished s.outcome]

/-- The search that recorded the stages. -/
def recorded [Scalar α] (s : Stages α) : Recorded α (Root α) :=
  ⟨s.events, s.outcome⟩

/-- The bracket that is recorded. -/
theorem bracket_mem_events [Scalar α] {s : Stages α} {lower upper : α} :
    .bracket lower upper ∈ s.events ↔ lower = 1.0 ∧ s.upper? = some upper := by
  cases hupper : s.upper? <;>
    simp [events, inside, probeEvents, newtonEvents, brentEvents, List.mem_mapIdx, hupper, eq_comm]

/-- The probe that closes a bracket, if the last one does. -/
def closing? [Scalar α] (probes : List (α × α)) : Option (α × α) :=
  probes.getLast?.filter fun p => Bracket.closes p.2

/-- The rules in a bracket; `hinted` tells whether there is a finite guess. -/
structure LawfulInside (hinted : Bool) (s : Stages α) : Prop where
  /-- Newton's method runs from a finite guess. -/
  newton : s.newton ≠ [] ↔ hinted = true
  newton_length : s.newton.length ≤ 20
  /-- Only what Newton's method found is rejected. -/
  rejection : s.rejection?.isSome = true → s.newton ≠ []
  /-- Brent's method runs unless Newton's method has the answer. -/
  brent : s.brent ≠ [] → s.newton = [] ∨ s.rejection?.isSome = true
  brent_length : s.brent.length ≤ 100
  /-- A whole number that replaces a root is the outcome. -/
  snapped : ∀ p ∈ s.snapped?, s.outcome = .finite p.2

/-- The rules for all stages. -/
structure Lawful [Scalar α] (hinted : Bool) (s : Stages α) : Prop where
  /-- Probing goes on only where a probe does not close a bracket. -/
  probes : ∀ p ∈ s.probes.dropLast, Bracket.closes p.2 = false
  /-- There is a bracket if the last probe closes one, and up to that probe. -/
  upper : s.upper? = (closing? s.probes).map Prod.fst
  inside : s.upper?.isSome = true → s.LawfulInside hinted
  /-- Without a bracket nothing is recorded between the probes and the outcome. -/
  outside : s.upper? = none → s.inside = []

end Stages

open Stages

variable {α : Type} [Scalar α]

/-! ## Probes -/

namespace Bracket

/-- The probes of a search for a bracket: each but the last fails, and the last decides. -/
structure IsSearch (bracket : Recorded α (Option α)) (probes : List (α × α)) : Prop where
  events : bracket.events = probeEvents probes
  early : ∀ p ∈ probes.dropLast, closes p.2 = false
  result : bracket.result = (closing? probes).map Prod.fst

/-- A probe that does not close a bracket goes in front of further ones. -/
theorem IsSearch.cons {g : Characteristic α} {b : α} {rest : Recorded α (Option α)}
    {probes : List (α × α)} (hb : closes (g.value b) = false) (h : IsSearch rest probes) :
    IsSearch ⟨probe g b :: rest.events, rest.result⟩ ((b, g.value b) :: probes) where
  events := by simp [h.events, probeEvents, probe]
  early := by
    cases probes with
    | nil => simp
    | cons p probes => simpa [hb] using h.early
  result := by
    cases probes with
    | nil => simp [h.result, closing?, hb]
    | cons p probes => simp [h.result, closing?]

/-- The last probe. -/
theorem isSearch_last (g : Characteristic α) (b : α) :
    IsSearch (if closes (g.value b) then ⟨[probe g b], some b⟩ else ⟨[probe g b], none⟩)
      [(b, g.value b)] := by
  cases h : closes (g.value b) <;> exact ⟨rfl, by simp, by simp [closing?, h]⟩

theorem exists_doublingFrom (g : Characteristic α) (remaining k : Nat) :
    ∃ probes, IsSearch (doublingFrom g remaining k) probes ∧ probes.length ≤ remaining ∧
      ∀ i (hi : i < probes.length),
        probes[i].1 = Scalar.power 2.0 (k + i) ∧ ¬ (cap : α) < probes[i].1 := by
  induction remaining generalizing k with
  | zero => exact ⟨[], ⟨rfl, by simp, rfl⟩, by simp, by simp⟩
  | succ remaining ih =>
      rw [doublingFrom]
      dsimp only
      by_cases hcap : (cap : α) < Scalar.power 2.0 k
      · rw [if_pos hcap]
        exact ⟨[], ⟨rfl, by simp, rfl⟩, by simp, by simp⟩
      rw [if_neg hcap]
      have hfirst : IsSearch (if closes (g.value (Scalar.power 2.0 k)) then _ else _) _ :=
        isSearch_last g (Scalar.power 2.0 k)
      cases hclose : closes (g.value (Scalar.power 2.0 k)) with
      | true =>
          rw [hclose] at hfirst
          exact ⟨_, hfirst, by simp, by simpa using hcap⟩
      | false =>
          obtain ⟨probes, hprobes, hlength, hpowers⟩ := ih (k + 1)
          refine ⟨_, hprobes.cons hclose, by simpa using hlength, ?_⟩
          rintro (_ | i) hi
          · exact ⟨rfl, hcap⟩
          · simpa [Nat.add_assoc, Nat.add_comm 1] using hpowers i (by simpa using hi)

theorem exists_stretchFrom (g : Characteristic α) (remaining : Nat) (b : α) :
    ∃ probes, IsSearch (stretchFrom g remaining b) probes ∧ probes ≠ [] ∧
      probes.length ≤ remaining + 1 ∧
      ((stretchFrom g remaining b).result = none → probes.length = remaining + 1) := by
  induction remaining generalizing b with
  | zero => exact ⟨_, isSearch_last g b, by simp, by simp, by simp⟩
  | succ remaining ih =>
      have hfirst := isSearch_last g b
      rw [stretchFrom]
      cases hclose : closes (g.value b) with
      | true =>
          rw [hclose] at hfirst
          exact ⟨_, hfirst, by simp, by simp, by simp⟩
      | false =>
          obtain ⟨probes, hprobes, -, hlength, hfull⟩ := ih (Scalar.min (b * 2.0) cap)
          exact ⟨_, hprobes.cons hclose, by simp, by simpa using hlength, by simpa using hfull⟩

end Bracket

/-! ## Iterates -/

theorem Newton.exists_iterate (f : α → α × α) (o : Newton.Options α) (remaining first : Nat)
    (x : α) :
    ∃ points, (iterate f o remaining first x).events = newtonEvents first points ∧
      points.length ≤ remaining ∧ (0 < remaining → points ≠ []) := by
  induction remaining generalizing first x with
  | zero => exact ⟨[], rfl, by simp, by simp⟩
  | succ remaining ih =>
      obtain ⟨points, hpoints, hlength, -⟩ := ih (first + 1) (x - (f x).1 / (f x).2)
      have hlast : ∃ points, [Event.newton first x (f x).1] = newtonEvents first points ∧
          points.length ≤ remaining + 1 ∧ (0 < remaining + 1 → points ≠ []) :=
        ⟨[(x, (f x).1)], by simp [newtonEvents], by simp, by simp⟩
      rw [iterate]
      dsimp only
      split_ifs
      · exact hlast
      · exact hlast
      · exact hlast
      · exact hlast
      · exact ⟨(x, (f x).1) :: points, by simp only [newtonEvents_cons, hpoints],
          by simpa using hlength, by simp⟩

theorem Brent.exists_search (f : α → α) (a b : α) (o : Brent.Options α) :
    ∃ points, (search f a b o).events = brentEvents 1 points ∧ points.length ≤ o.iterations := by
  obtain ⟨steps, hsteps, hevents⟩ := exists_events f a b o
  refine ⟨(List.range steps).map fun i =>
    let s := ((start f a b).after f o i).oriented
    (s.next o, f (s.next o), s.step o), ?_, by simpa using hsteps⟩
  rw [hevents, brentEvents]
  apply List.ext_getElem <;> simp [State.event, Nat.add_comm 1]

/-! ## Inside a bracket -/

namespace Search

theorem exists_snap (x tolerance : α) :
    ∃ snapped? : Option (α × α),
      (snap x tolerance).events = (snapped?.map fun p => .snapped p.1 p.2).toList ∧
        ∀ p ∈ snapped?, (snap x tolerance).result = .finite p.2 := by
  rw [snap, snapEvents]
  by_cases h : Scalar.snap x tolerance == x
  · exact ⟨none, by simp [h], by simp⟩
  · exact ⟨some (x, Scalar.snap x tolerance), by simp [h], by simp⟩

theorem exists_inBracket (g : Characteristic α) (upper tolerance : α) :
    ∃ (brent : List (α × α × Step)) (snapped? : Option (α × α)),
      (inBracket g upper tolerance).events =
          brentEvents 1 brent ++ (snapped?.map fun p => .snapped p.1 p.2).toList ∧
        brent.length ≤ 100 ∧
        ∀ p ∈ snapped?, (inBracket g upper tolerance).result = .finite p.2 := by
  obtain ⟨brent, hbrent, hlength⟩ := Brent.exists_search g.value 1.0 upper .standard
  simp only [inBracket]
  cases (Brent.search g.value 1.0 upper .standard).result with
  | error e => exact ⟨brent, none, by simp [hbrent], hlength, by simp⟩
  | ok x =>
      obtain ⟨snapped?, hevents, hresult⟩ := exists_snap x tolerance
      exact ⟨brent, snapped?, by simp only [hbrent, hevents], hlength, hresult⟩

/-- A search without a guess records iterates of Brent's method only. -/
theorem exists_cold (g : Characteristic α) (upper tolerance : α) :
    ∃ s : Stages α, inBracket g upper tolerance = ⟨s.inside, s.outcome⟩ ∧ s.LawfulInside false := by
  obtain ⟨brent, snapped?, hevents, hlength, hsnapped⟩ := exists_inBracket g upper tolerance
  refine ⟨⟨[], none, [], none, brent, snapped?, (inBracket g upper tolerance).result⟩, ?_, ?_⟩
  · simp [inside, newtonEvents, ← hevents]
  · exact ⟨by simp, by simp, by simp, by simp, hlength, hsnapped⟩

theorem exists_fromGuess (g : Characteristic α) (upper guess : α) :
    ∃ s : Stages α, fromGuess g upper guess = ⟨s.inside, s.outcome⟩ ∧ s.LawfulInside true := by
  obtain ⟨newton, hnewton, hlength, hne⟩ := Newton.exists_iterate g.evaluate .standard
    (Newton.Options.standard (α := α)).iterations 1 (Scalar.clamp guess 1.0 upper)
  have hne := hne (Nat.succ_pos 19)
  obtain ⟨brent, snapped?, hevents, hlength', hsnapped⟩ :=
    exists_inBracket g upper deltaTolerance
  have hreject (reason : String) : ∃ s : Stages α,
      (⟨newtonEvents 1 newton ++ .rejected reason :: (inBracket g upper deltaTolerance).events,
          (inBracket g upper deltaTolerance).result⟩ : Recorded α (Root α)) =
        ⟨s.inside, s.outcome⟩ ∧ s.LawfulInside true := by
    refine ⟨⟨[], none, newton, some reason, brent, snapped?,
      (inBracket g upper deltaTolerance).result⟩, ?_, ?_⟩
    · simp [inside, hevents]
    · exact ⟨by simpa using hne, hlength, by simpa using hne, by simp,
        hlength', hsnapped⟩
  simp only [fromGuess, Newton.search, hnewton]
  split
  · exact hreject _
  · next x _ =>
    split_ifs
    · obtain ⟨snapped?, hevents, hresult⟩ := exists_snap x (deltaTolerance : α)
      refine ⟨⟨[], none, newton, none, [], snapped?, (snap x deltaTolerance).result⟩, ?_, ?_⟩
      · simp [inside, brentEvents, hevents]
      · exact ⟨by simpa using hne, hlength, by simp, by simp, by simp, hresult⟩
    · exact hreject _

theorem exists_withGuess (g : Characteristic α) (guess : Option α) (upper : α) :
    ∃ s : Stages α, withGuess g guess upper = ⟨s.inside, s.outcome⟩ ∧
      s.LawfulInside (guess.any Scalar.isFinite) := by
  cases guess with
  | none => exact exists_cold g upper deltaTolerance
  | some x =>
      cases h : Scalar.isFinite x with
      | true => simpa [withGuess, Option.filter, h] using exists_fromGuess g upper x
      | false => simpa [withGuess, Option.filter, h] using exists_cold g upper deltaTolerance

/-! ## Whole searches -/

/-- A search that is over before it probes. -/
theorem exists_unprobed (hinted : Bool) (outcome : Root α) :
    ∃ s : Stages α, finish ⟨[], outcome⟩ = s.recorded ∧ s.Lawful hinted ∧ s.probes = [] := by
  refine ⟨⟨[], none, [], none, [], none, outcome⟩, rfl, ?_, rfl⟩
  exact ⟨by simp, rfl, by simp, fun _ => rfl⟩

/-- A search for a bracket with lawful stages behind it. -/
theorem exists_bracketed {bracket : Recorded α (Option α)} {probes : List (α × α)}
    {search : α → Recorded α (Root α)} {hinted : Bool} (hb : Bracket.IsSearch bracket probes)
    (hs : ∀ upper, ∃ s : Stages α, search upper = ⟨s.inside, s.outcome⟩ ∧ s.LawfulInside hinted) :
    ∃ s : Stages α, finish (bracketed bracket search) = s.recorded ∧ s.Lawful hinted ∧
      s.probes = probes ∧ s.upper? = bracket.result := by
  rw [bracketed]
  cases hresult : bracket.result with
  | none =>
      refine ⟨⟨probes, none, [], none, [], none, .infeasible⟩, ?_, ?_, rfl, rfl⟩
      · simp [finish, recorded, Stages.events, inside, newtonEvents, brentEvents, hb.events]
      · exact ⟨hb.early, hresult ▸ hb.result, by simp, fun _ => rfl⟩
  | some upper =>
      obtain ⟨s, hsearch, hlaws⟩ := hs upper
      refine ⟨{ s with probes := probes, upper? := some upper }, ?_, ?_, rfl, rfl⟩
      · simp [finish, recorded, Stages.events, inside, hsearch, hb.events]
      · exact ⟨hb.early, hresult ▸ hb.result,
          fun _ => ⟨hlaws.newton, hlaws.newton_length, hlaws.rejection, hlaws.brent,
            hlaws.brent_length, hlaws.snapped⟩, by simp⟩

theorem exists_ofCharacteristic (g : Characteristic α) :
    ∃ s : Stages α, finish (ofCharacteristic g) = s.recorded ∧ s.Lawful false ∧
      ∀ i (hi : i < s.probes.length),
        i < Bracket.maxProbes ∧ s.probes[i].1 = Scalar.power 2.0 (i + 1) ∧
          ¬ (Bracket.cap : α) < s.probes[i].1 := by
  have hnone (outcome : Root α) : ∃ s : Stages α, finish ⟨[], outcome⟩ = s.recorded ∧
      s.Lawful false ∧ ∀ i (hi : i < s.probes.length), i < Bracket.maxProbes ∧
        s.probes[i].1 = Scalar.power 2.0 (i + 1) ∧ ¬ (Bracket.cap : α) < s.probes[i].1 := by
    obtain ⟨s, hs, hlaws, hprobes⟩ := exists_unprobed false outcome
    exact ⟨s, hs, hlaws, by simp [hprobes]⟩
  rw [ofCharacteristic]
  split_ifs
  · exact hnone _
  · exact hnone _
  · exact hnone _
  · exact hnone _
  · obtain ⟨probes, hsearch, hlength, hpowers⟩ := Bracket.exists_doublingFrom g Bracket.maxProbes 1
    obtain ⟨s, hs, hlaws, rfl, -⟩ := exists_bracketed hsearch fun upper =>
      exists_cold g upper recurrenceTolerance
    refine ⟨s, hs, hlaws, fun i hi => ⟨by omega, ?_⟩⟩
    simpa [Nat.add_comm 1] using hpowers i hi

/-- Deltas that are settled without a probe: fewer than two of them, or one that is not positive. -/
def IsSettled (deltas : List α) : Prop :=
  deltas.length < 2 ∨ ∃ d ∈ (Characteristic.unit deltas).minDelta?, d ≤ (0.0 : α)

theorem ofDeltas_of_length {deltas : List α} {m : α} (guess : Option α) (h : 2 ≤ deltas.length)
    (hmin : (Characteristic.unit deltas).minDelta? = some m) :
    ofDeltas deltas guess =
      if m ≤ 0.0 then ⟨[], .infeasible⟩
      else bracketed (Bracket.fromBound (Characteristic.unit deltas) m)
        (withGuess (Characteristic.unit deltas) guess) := by
  have hsize : (Characteristic.unit deltas).size = deltas.length - 2 + 2 := by
    simp only [Characteristic.size, Characteristic.unit, List.length_map]
    omega
  simp only [ofDeltas, hsize, hmin]

theorem exists_minDelta {deltas : List α} (h : 2 ≤ deltas.length) :
    ∃ m, (Characteristic.unit deltas).minDelta? = some m := by
  cases deltas with
  | nil => simp at h
  | cons d deltas => exact ⟨_, rfl⟩

theorem ofDeltas_of_isSettled {deltas : List α} (guess : Option α) (h : IsSettled deltas) :
    ∃ outcome, ofDeltas deltas guess = ⟨[], outcome⟩ := by
  match deltas with
  | [] => exact ⟨.divergent, rfl⟩
  | [d] => exact ⟨.finite 1.0, rfl⟩
  | d :: d' :: ds =>
      obtain h | ⟨m, hmin, hm⟩ := h
      · simp at h
      · exact ⟨.infeasible, by rw [ofDeltas_of_length guess (by simp) hmin, if_pos hm]⟩

theorem exists_ofDeltas (deltas : List α) (guess : Option α) :
    ∃ s : Stages α, finish (ofDeltas deltas guess) = s.recorded ∧
      s.Lawful (guess.any Scalar.isFinite) ∧ s.probes.length ≤ 41 ∧
      (IsSettled deltas → s.probes = []) ∧
      (¬ IsSettled deltas → s.upper? = none → s.probes.length = 41) := by
  by_cases hsettled : IsSettled deltas
  · obtain ⟨outcome, houtcome⟩ := ofDeltas_of_isSettled guess hsettled
    obtain ⟨s, hs, hlaws, hprobes⟩ := exists_unprobed (guess.any Scalar.isFinite) outcome
    rw [houtcome]
    exact ⟨s, hs, hlaws, by simp [hprobes], fun _ => hprobes, fun hnot => absurd hsettled hnot⟩
  · simp only [IsSettled, not_or, not_lt, not_exists, not_and] at hsettled
    obtain ⟨m, hmin⟩ := exists_minDelta hsettled.1
    obtain ⟨probes, hsearch, -, hlength, hfull⟩ :=
      Bracket.exists_stretchFrom (Characteristic.unit deltas) Bracket.maxDoublings
        (Bracket.bound (Characteristic.unit deltas).size m)
    obtain ⟨s, hs, hlaws, rfl, hupper⟩ := exists_bracketed hsearch
      (exists_withGuess (Characteristic.unit deltas) guess)
    rw [ofDeltas_of_length guess hsettled.1 hmin, if_neg (hsettled.2 m hmin)]
    refine ⟨s, hs, hlaws, hlength, fun h => ?_, fun _ hnone => hfull (hupper ▸ hnone)⟩
    obtain h | ⟨d, hd, hle⟩ := h
    · omega
    · exact absurd hle (hsettled.2 d hd)

end Search

/-! ## On binary64 -/

/-- The powers of two that may be probed are exact. -/
theorem power_two {k : Nat} (h : k ≤ Bracket.maxProbes) :
    Scalar.power (2.0 : Float) k = Float.ofNat (2 ^ k) := by
  have hall : ∀ k ≤ Bracket.maxProbes, Scalar.power (2.0 : Float) k = Float.ofNat (2 ^ k) := by
    decide +kernel
  exact hall k h

/-- **Every search records lawful stages.**  The search for a recurrence in one variable has no
guess, and it probes the powers of two from 2 on, none above the cap.  The search for given deltas
runs Newton's method from a finite guess only; it makes no probe where the deltas are settled
without one, never more than 41, and just as many where it ends without a bracket. -/
theorem events_protocol (r : Recurrence Float) (hr : r.parameters.length = 1)
    (deltas : List Float) (guess : Option Float) :
    (∃ s : Stages Float, r.dominantRoot = .ok s.recorded ∧ s.Lawful false ∧
      ∀ i (hi : i < s.probes.length),
        s.probes[i].1 = Float.ofNat (2 ^ (i + 1)) ∧ ¬ Bracket.cap < s.probes[i].1) ∧
    ∃ s : Stages Float, dominantRoot deltas guess = s.recorded ∧
      s.Lawful (guess.any Float.isFinite) ∧ s.probes.length ≤ 41 ∧
      (Search.IsSettled deltas → s.probes = []) ∧
      (¬ Search.IsSettled deltas → s.upper? = none → s.probes.length = 41) := by
  refine ⟨?_, Search.exists_ofDeltas deltas guess⟩
  obtain ⟨s, hs, hlaws, hprobes⟩ := Search.exists_ofCharacteristic (Characteristic.ofRecurrence r)
  refine ⟨s, by rw [Recurrence.dominantRoot, if_pos hr, hs], hlaws, fun i hi => ?_⟩
  obtain ⟨hlt, hpower, hcap⟩ := hprobes i hi
  exact ⟨by rw [hpower, power_two hlt], hcap⟩

/-- The rules hold of the searches for the Fibonacci numbers, with coefficients and from a guess. -/
theorem events_protocol_fibonacci :
    let r : Recurrence Float := ⟨⟨1.0, "T", ["n"], [0.0]⟩,
      [.call ⟨1.0, "T", ["n"], [-1.0]⟩, .call ⟨1.0, "T", ["n"], [-2.0]⟩]⟩
    r.parameters.length = 1 ∧
      (∃ s : Stages Float, r.dominantRoot = .ok s.recorded ∧ s.Lawful false ∧
        ∀ i (hi : i < s.probes.length),
          s.probes[i].1 = Float.ofNat (2 ^ (i + 1)) ∧ ¬ Bracket.cap < s.probes[i].1) ∧
      ∃ s : Stages Float, dominantRoot [1.0, 2.0] (some 1.6) = s.recorded ∧
        s.Lawful ((some 1.6).any Float.isFinite) ∧ s.probes.length ≤ 41 ∧
        (Search.IsSettled [(1.0 : Float), 2.0] → s.probes = []) ∧
        (¬ Search.IsSettled [(1.0 : Float), 2.0] → s.upper? = none → s.probes.length = 41) :=
  ⟨rfl, events_protocol _ rfl [1.0, 2.0] (some 1.6)⟩

/-- Whether the event is a probe. -/
def Event.isProbe : Event α → Bool
  | probe _ _ => true
  | _ => false

/-- A search without a bracket need not make 41 probes: where a delta is zero, it makes none. -/
theorem exists_unbracketed_without_probes :
    ¬ ∀ (deltas : List Float) (guess : Option Float),
      Trace.bracket? (dominantRoot deltas guess).events = none →
        (dominantRoot deltas guess).events.countP Event.isProbe = 41 := by
  intro h
  have hevents : (dominantRoot [(0.0 : Float), 1.0] none).events = [.finished .infeasible] := by
    decide +kernel
  have hcount := h [0.0, 1.0] none (by rw [hevents]; rfl)
  rw [hevents] at hcount
  exact absurd hcount (by decide)

end GrowthOrder
