import GrowthOrder.Proofs.Search.WarmStart
import Mathlib.Data.Set.Card

/-!
# GrowthOrder.Proofs.Search.History

The state of a cache is a function of its history.  A history lists what each operation came to, the
newest first: a search under a key, from the root that was kept there, with its outcome; or that all
roots were forgotten.

* `any_dominantRoot` — the events of a search tell whether it came to a bracket, whether it tried
  Newton's method there, and whether that was in vain.
* `reflects_history` — the roots and the counts of a cache, read off its history.
-/

namespace GrowthOrder

open Stages

/-! ## What the events of a search tell -/

namespace Event

variable {α : Type}

/-- Whether the event is a bracket. -/
def isBracket : Event α → Bool
  | bracket _ _ => true
  | _ => false

/-- Whether the event is an iterate of Newton's method. -/
def isNewton : Event α → Bool
  | newton _ _ _ => true
  | _ => false

/-- Whether the event rejects what Newton's method found. -/
def isRejection : Event α → Bool
  | rejected _ => true
  | _ => false

end Event

theorem Trace.isSome_bracket? {α : Type} (trace : Trace α) :
    (Trace.bracket? trace).isSome = trace.any Event.isBracket := by
  rw [Bool.eq_iff_iff, List.any_eq_true, Trace.bracket?, List.findSome?_isSome_iff]
  constructor
  · rintro ⟨e, he, hsome⟩
    refine ⟨e, List.mem_reverse.1 he, ?_⟩
    cases e <;> simp_all [Event.isBracket]
  · rintro ⟨e, he, hbracket⟩
    refine ⟨e, List.mem_reverse.2 he, ?_⟩
    cases e <;> simp_all [Event.isBracket]

namespace Search

variable {α : Type} [Scalar α]

/-- The upper end of the bracket and the hint, where Newton's method is tried. -/
def attempt? (deltas : List α) (guess : Option α) : Option (α × α) :=
  (bracket? deltas).bind fun upper =>
    (guess.filter fun x => Scalar.isFinite x).map fun hint => (upper, hint)

/-- A point is adopted only where Newton's method is tried. -/
theorem attempt?_and_adopted? (deltas : List α) (guess : Option α) :
    ((attempt? deltas guess).isSome && (adopted? deltas guess).isSome) =
      (adopted? deltas guess).isSome := by
  rw [attempt?, adopted?]
  cases bracket? deltas <;> cases guess.filter fun x => Scalar.isFinite x <;> simp

theorem any_inBracket (g : Characteristic α) (upper tolerance : α) {p : Event α → Bool}
    (hbrent : ∀ i x value step, p (.brent i x value step) = false)
    (hsnapped : ∀ x y, p (.snapped x y) = false) :
    (inBracket g upper tolerance).events.any p = false := by
  obtain ⟨brent, snapped?, hevents, -, -⟩ := exists_inBracket g upper tolerance
  rw [hevents, List.any_append, Bool.or_eq_false_iff]
  constructor
  · simp only [brentEvents, List.any_eq_false, List.mem_mapIdx]
    rintro _ ⟨i, hi, rfl⟩
    simp [hbrent]
  · cases snapped? <;> simp [hsnapped]

/-- Newton's method records at least one iterate. -/
theorem exists_newton (f : α → α × α) (x : α) :
    ∃ p points, (Newton.search f x .standard).events = newtonEvents 1 (p :: points) := by
  obtain ⟨points, hpoints, -, hne⟩ :=
    Newton.exists_iterate f .standard (Newton.Options.standard (α := α)).iterations 1 x
  obtain ⟨p, points, rfl⟩ := List.exists_cons_of_ne_nil (hne (Nat.succ_pos 19))
  exact ⟨p, points, hpoints⟩

/-- In a bracket, Newton's method is tried from a finite hint. -/
theorem any_isNewton_withGuess (g : Characteristic α) (guess : Option α) (upper : α) :
    (withGuess g guess upper).events.any Event.isNewton =
      (guess.filter fun x => Scalar.isFinite x).isSome := by
  unfold withGuess
  cases guess.filter fun x => Scalar.isFinite x with
  | none => exact any_inBracket g upper deltaTolerance (fun _ _ _ _ => rfl) fun _ _ => rfl
  | some hint =>
      obtain ⟨p, points, hpoints⟩ := exists_newton g.evaluate (Scalar.clamp hint 1.0 upper)
      have hfirst : (newtonEvents 1 (p :: points)).any Event.isNewton = true := by
        simp [newtonEvents_cons, Event.isNewton]
      simp only [fromGuess, hpoints]
      split
      · simp [hfirst]
      · split <;> simp [hfirst]

/-- What Newton's method found is rejected unless it ended at a point that is accepted. -/
theorem any_isRejection_withGuess (g : Characteristic α) (guess : Option α) (upper : α) :
    (withGuess g guess upper).events.any Event.isRejection =
      (guess.filter fun x => Scalar.isFinite x).any fun hint =>
        (newtonRoot? g upper hint).isNone := by
  unfold withGuess
  cases guess.filter fun x => Scalar.isFinite x with
  | none => exact any_inBracket g upper deltaTolerance (fun _ _ _ _ => rfl) fun _ _ => rfl
  | some hint =>
      obtain ⟨p, points, hpoints⟩ := exists_newton g.evaluate (Scalar.clamp hint 1.0 upper)
      have hnewton : (newtonEvents 1 (p :: points)).any Event.isRejection = false := by
        simp only [newtonEvents, List.any_eq_false, List.mem_mapIdx]
        rintro _ ⟨i, hi, rfl⟩
        simp [Event.isRejection]
      have hsnap (x : α) : (snap x deltaTolerance).events.any Event.isRejection = false := by
        obtain ⟨snapped?, hevents, -⟩ := exists_snap x (deltaTolerance : α)
        rw [hevents]
        cases snapped? <;> simp [Event.isRejection]
      simp only [Option.any_some, fromGuess, newtonRoot?, hpoints]
      cases (Newton.search g.evaluate (Scalar.clamp hint 1.0 upper) .standard).result with
      | error e => simp [Event.isRejection]
      | ok x => cases h : accepts upper x <;> simp [h, hnewton, hsnap, Event.isRejection]

/-- A test that passes over probes and outcomes looks at the bracket and at what is behind it. -/
theorem any_dominantRoot (deltas : List α) (guess : Option α) {p : Event α → Bool}
    (hprobe : ∀ x value, p (.probe x value) = false)
    (hfinished : ∀ root, p (.finished root) = false) :
    (dominantRoot deltas guess).events.any p =
      (bracket? deltas).any fun upper => p (.bracket 1.0 upper) ||
        (withGuess (Characteristic.unit deltas) guess upper).events.any p := by
  have hprobes (probes : List (α × α)) : (probeEvents probes).any p = false := by
    simp [probeEvents, hprobe]
  rw [dominantRoot, finish]
  cases approach deltas with
  | unbracketed probes outcome hbracket h => simp [h, hbracket, hprobes, hfinished]
  | bracketed probes upper hbracket h => simp [h, hbracket, hprobes, hfinished]

/-- A search comes to a bracket if its deltas have one. -/
theorem isSome_bracket?_dominantRoot (deltas : List α) (guess : Option α) :
    (Trace.bracket? (dominantRoot deltas guess).events).isSome = (bracket? deltas).isSome := by
  rw [Trace.isSome_bracket?, any_dominantRoot deltas guess (fun _ _ => rfl) fun _ => rfl]
  cases bracket? deltas <;> simp [Event.isBracket]

/-- Newton's method is tried where there are a bracket and a finite hint. -/
theorem usedNewton_dominantRoot (deltas : List α) (guess : Option α) :
    WarmCache.usedNewton (dominantRoot deltas guess).events = (attempt? deltas guess).isSome := by
  have htest : WarmCache.usedNewton (dominantRoot deltas guess).events =
      (dominantRoot deltas guess).events.any Event.isNewton := rfl
  rw [htest, any_dominantRoot deltas guess (fun _ _ => rfl) fun _ => rfl, attempt?]
  cases bracket? deltas with
  | none => rfl
  | some upper => simp [any_isNewton_withGuess, Event.isNewton]

/-- It is tried in vain unless a point is adopted. -/
theorem wasRejected_dominantRoot (deltas : List α) (guess : Option α) :
    WarmCache.wasRejected (dominantRoot deltas guess).events =
      ((attempt? deltas guess).isSome && (adopted? deltas guess).isNone) := by
  have htest : WarmCache.wasRejected (dominantRoot deltas guess).events =
      (dominantRoot deltas guess).events.any Event.isRejection := rfl
  rw [htest, any_dominantRoot deltas guess (fun _ _ => rfl) fun _ => rfl, attempt?, adopted?]
  cases bracket? deltas with
  | none => rfl
  | some upper =>
      rw [Option.any_some, any_isRejection_withGuess]
      cases guess.filter fun x => Scalar.isFinite x <;> simp [Event.isRejection]

end Search

/-- How many searches tried Newton's method. -/
def SearchCounts.tried (c : SearchCounts) : Nat :=
  c.hits + c.fallbacks

namespace WarmCache

open Search

variable {κ α : Type} [DecidableEq κ]

/-! ## Histories -/

/-- What an operation on a cache came to. -/
inductive Entry (κ α : Type)
  /-- A search under a key, the root that was kept there, and the outcome. -/
  | searched (key : κ) (deltas : List α) (kept? : Option α) (outcome : Root α)
  /-- All roots were forgotten. -/
  | cleared

namespace Entry

/-- Whether all roots were forgotten. -/
def isClear : Entry κ α → Bool
  | cleared => true
  | _ => false

/-- The outcome of a search under a key. -/
def outcome? (key : κ) : Entry κ α → Option (Root α)
  | searched k _ _ outcome => if k = key then some outcome else none
  | cleared => none

/-- Whether a search passes a test of its deltas, the root that was kept and the outcome. -/
def passes (p : List α → Option α → Root α → Bool) : Entry κ α → Bool
  | searched _ deltas kept? outcome => p deltas kept? outcome
  | cleared => false

end Entry

/-- The newest root that was found under a key since all roots were forgotten; the newest entry
comes first. -/
def lastRoot? (key : κ) (past : List (Entry κ α)) : Option α :=
  (past.takeWhile fun e => !e.isClear).findSome? fun e => (e.outcome? key).bind Root.value?

@[simp]
theorem lastRoot?_nil (key : κ) : lastRoot? key ([] : List (Entry κ α)) = none :=
  rfl

@[simp]
theorem lastRoot?_cleared (key : κ) (past : List (Entry κ α)) :
    lastRoot? key (.cleared :: past) = none := by
  simp [lastRoot?, Entry.isClear]

@[simp]
theorem lastRoot?_searched (key k : κ) (deltas : List α) (kept? : Option α) (outcome : Root α)
    (past : List (Entry κ α)) :
    lastRoot? key (.searched k deltas kept? outcome :: past) =
      if k = key then outcome.value?.or (lastRoot? key past) else lastRoot? key past := by
  by_cases h : k = key
  · cases hvalue : outcome.value? <;> simp [lastRoot?, Entry.isClear, Entry.outcome?, h, hvalue]
  · simp [lastRoot?, Entry.isClear, Entry.outcome?, h]

/-! ## Roots under keys -/

theorem lookup_cons_ne {k k' : κ} (h : k ≠ k') (root : α) (roots : List (κ × α)) :
    ((k', root) :: roots).lookup k = roots.lookup k := by
  rw [List.lookup_cons, beq_false_of_ne h]

theorem lookup_insert (key k : κ) (root : α) (roots : List (κ × α)) :
    (insert k root roots).lookup key = if k = key then some root else roots.lookup key := by
  induction roots with
  | nil =>
      by_cases h : k = key
      · simp [insert, h]
      · rw [insert, lookup_cons_ne (Ne.symm h), if_neg h]
  | cons p rest ih =>
      obtain ⟨k', r⟩ := p
      rw [insert]
      by_cases hk : k' = k
      · rw [if_pos hk, hk]
        by_cases h : k = key
        · simp [h]
        · rw [if_neg h, lookup_cons_ne (Ne.symm h), lookup_cons_ne (Ne.symm h)]
      · rw [if_neg hk]
        by_cases h : k' = key
        · rw [if_neg fun heq => hk (h.trans heq.symm), h, List.lookup_cons_self,
            List.lookup_cons_self]
        · rw [lookup_cons_ne (Ne.symm h), lookup_cons_ne (Ne.symm h), ih]

theorem keys_insert (k : κ) (root : α) (roots : List (κ × α)) :
    (insert k root roots).map Prod.fst =
      if k ∈ roots.map Prod.fst then roots.map Prod.fst else roots.map Prod.fst ++ [k] := by
  induction roots with
  | nil => simp [insert]
  | cons p rest ih =>
      obtain ⟨k', r⟩ := p
      rw [insert]
      by_cases hk : k' = k
      · simp [hk]
      · rw [if_neg hk, List.map_cons, ih]
        by_cases hmem : k ∈ rest.map Prod.fst <;> simp [hmem, Ne.symm hk]

theorem nodup_keys_insert {roots : List (κ × α)} (h : (roots.map Prod.fst).Nodup) (k : κ)
    (root : α) : ((insert k root roots).map Prod.fst).Nodup := by
  rw [keys_insert]
  split_ifs with hmem
  · exact h
  · exact List.nodup_append.2 ⟨h, by simp, fun a ha b hb => by
      obtain rfl := List.mem_singleton.1 hb
      exact fun heq => hmem (heq ▸ ha)⟩

theorem isSome_lookup_iff (key : κ) (roots : List (κ × α)) :
    (roots.lookup key).isSome = true ↔ key ∈ roots.map Prod.fst := by
  induction roots with
  | nil => simp
  | cons p rest ih =>
      obtain ⟨k, r⟩ := p
      by_cases h : key = k
      · simp [h]
      · rw [lookup_cons_ne h, ih, List.map_cons, List.mem_cons, or_iff_right h]

/-! ## What is kept -/

variable [Scalar α]

/-- What is asked of a cache. -/
inductive Operation (κ α : Type)
  | find (key : κ) (deltas : List α)
  | clear

/-- The cache after one more operation. -/
def perform (cache : WarmCache κ α) : Operation κ α → WarmCache κ α
  | .find key deltas => (cache.find key deltas).2
  | .clear => cache.clear

/-- A fresh cache after some operations, the newest of which comes first. -/
def after : List (Operation κ α) → WarmCache κ α
  | [] => empty
  | op :: past => (after past).perform op

/-- What an operation on a cache comes to. -/
def entry (cache : WarmCache κ α) : Operation κ α → Entry κ α
  | .find key deltas => .searched key deltas (cache.get? key) (cache.find key deltas).1
  | .clear => .cleared

/-- What some operations came to, the newest first. -/
def history : List (Operation κ α) → List (Entry κ α)
  | [] => []
  | op :: past => (after past).entry op :: history past

theorem find_fst (cache : WarmCache κ α) (key : κ) (deltas : List α) :
    (cache.find key deltas).1 = (dominantRoot deltas (cache.get? key)).result :=
  rfl

/-- A search changes the root under its own key only, and only if it finds one. -/
theorem get?_find (cache : WarmCache κ α) (key k : κ) (deltas : List α) :
    (cache.find k deltas).2.get? key =
      if k = key then (cache.find k deltas).1.value?.or (cache.get? key) else cache.get? key := by
  simp only [find, get?]
  cases (dominantRoot deltas (cache.roots.lookup k)).result with
  | finite r => simp [lookup_insert, Root.value?]
  | infeasible => simp [Root.value?]
  | divergent => simp [Root.value?]

/-- The root kept under a key is the newest one found there. -/
theorem get?_after (ops : List (Operation κ α)) (key : κ) :
    (after ops).get? key = lastRoot? key (history ops) := by
  induction ops with
  | nil => rfl
  | cons op past ih =>
      cases op with
      | find k deltas => rw [after, perform, get?_find, history, entry, lastRoot?_searched, ih]
      | clear => rw [history, entry, lastRoot?_cleared]; rfl

theorem nodup_keys_after (ops : List (Operation κ α)) :
    ((after ops).roots.map Prod.fst).Nodup := by
  induction ops with
  | nil => exact List.nodup_nil
  | cons op past ih =>
      cases op with
      | find k deltas =>
          simp only [after, perform, find]
          cases (dominantRoot deltas ((after past).get? k)).result with
          | finite r => exact nodup_keys_insert ih k r
          | infeasible => exact ih
          | divergent => exact ih
      | clear => exact List.nodup_nil

/-- There are as many roots as keys under which one was found. -/
theorem size_after (ops : List (Operation κ α)) :
    ((after ops).size : ℕ∞) = {key | (lastRoot? key (history ops)).isSome = true}.encard := by
  have hkeys : {key | (lastRoot? key (history ops)).isSome = true} =
      (((after ops).roots.map Prod.fst).toFinset : Set κ) := by
    ext key
    rw [Set.mem_ofPred_eq, ← get?_after, get?, isSome_lookup_iff]
    simp
  rw [hkeys, Set.encard_coe_eq_coe_finsetCard, List.toFinset_card_of_nodup (nodup_keys_after ops),
    List.length_map, size]

/-! ## Counts -/

/-- A search counts once, by the way that it took and by its outcome. -/
theorem counts_find (cache : WarmCache κ α) (key : κ) (deltas : List α) :
    (cache.find key deltas).2.counts =
      { calls := cache.counts.calls + 1
        hits := cache.counts.hits + (adopted? deltas (cache.get? key)).isSome.toNat
        fallbacks := cache.counts.fallbacks + ((attempt? deltas (cache.get? key)).isSome
          && (adopted? deltas (cache.get? key)).isNone).toNat
        infeasible := cache.counts.infeasible + (cache.find key deltas).1.isInfeasible.toNat
        divergent := cache.counts.divergent + (cache.find key deltas).1.isDivergent.toNat } := by
  have hadopted := attempt?_and_adopted? deltas (cache.get? key)
  simp only [find, count, usedNewton_dominantRoot, wasRejected_dominantRoot]
  rw [← hadopted]
  cases attempt? deltas (cache.get? key) <;> cases adopted? deltas (cache.get? key) <;> rfl

/-- Newton's method is tried once where a finite root is kept and the search comes to a bracket, and
never elsewhere. -/
theorem tried_find (cache : WarmCache κ α) (key : κ) (deltas : List α) :
    (cache.find key deltas).2.counts.tried = cache.counts.tried +
      ((cache.get? key).any Scalar.isFinite &&
        (Trace.bracket? (dominantRoot deltas (cache.get? key)).events).isSome).toNat := by
  have hattempt : (attempt? deltas (cache.get? key)).isSome =
      ((cache.get? key).any Scalar.isFinite && (bracket? deltas).isSome) := by
    rw [attempt?]
    cases bracket? deltas <;> simp [Option.isSome_filter]
  have hsplit : (adopted? deltas (cache.get? key)).isSome.toNat
      + ((attempt? deltas (cache.get? key)).isSome
        && (adopted? deltas (cache.get? key)).isNone).toNat =
          (attempt? deltas (cache.get? key)).isSome.toNat := by
    rw [← attempt?_and_adopted?]
    cases attempt? deltas (cache.get? key) <;> cases adopted? deltas (cache.get? key) <;> rfl
  rw [isSome_bracket?_dominantRoot, ← hattempt, ← hsplit, counts_find]
  simp only [SearchCounts.tried]
  omega

/-- The roots and the counts of a cache are what a history tells, the newest entry of which comes
first. -/
structure Reflects (cache : WarmCache κ α) (past : List (Entry κ α)) : Prop where
  /-- Under each key, the newest root that was found there since all roots were forgotten. -/
  roots : ∀ key, cache.get? key = lastRoot? key past
  /-- As many roots as keys under which one was found. -/
  size : (cache.size : ℕ∞) = {key | (lastRoot? key past).isSome = true}.encard
  calls : cache.counts.calls = past.countP (Entry.passes fun _ _ _ => true)
  /-- Newton's method ended at a point that was adopted. -/
  hits : cache.counts.hits =
    past.countP (Entry.passes fun deltas kept? _ => (adopted? deltas kept?).isSome)
  /-- Newton's method was tried, and what it found was rejected. -/
  fallbacks : cache.counts.fallbacks =
    past.countP (Entry.passes fun deltas kept? _ =>
      (attempt? deltas kept?).isSome && (adopted? deltas kept?).isNone)
  infeasible : cache.counts.infeasible =
    past.countP (Entry.passes fun _ _ outcome => outcome.isInfeasible)
  divergent : cache.counts.divergent =
    past.countP (Entry.passes fun _ _ outcome => outcome.isDivergent)

/-- The searches of a history that pass a test, with one more search. -/
theorem countP_history_find (p : List α → Option α → Root α → Bool) (key : κ) (deltas : List α)
    (past : List (Operation κ α)) :
    (history (.find key deltas :: past)).countP (Entry.passes p) =
      (history past).countP (Entry.passes p) +
        (p deltas ((after past).get? key) ((after past).find key deltas).1).toNat := by
  rw [history, entry, List.countP_cons, Entry.passes]
  cases p deltas ((after past).get? key) ((after past).find key deltas).1 <;> rfl

theorem reflects_after (ops : List (Operation κ α)) : (after ops).Reflects (history ops) := by
  suffices hcounts : (after ops).counts =
      { calls := (history ops).countP (Entry.passes fun _ _ _ => true)
        hits := (history ops).countP (Entry.passes fun deltas kept? _ =>
          (adopted? deltas kept?).isSome)
        fallbacks := (history ops).countP (Entry.passes fun deltas kept? _ =>
          (attempt? deltas kept?).isSome && (adopted? deltas kept?).isNone)
        infeasible := (history ops).countP (Entry.passes fun _ _ outcome => outcome.isInfeasible)
        divergent := (history ops).countP (Entry.passes fun _ _ outcome => outcome.isDivergent) } by
    exact ⟨get?_after ops, size_after ops, by rw [hcounts], by rw [hcounts], by rw [hcounts],
      by rw [hcounts], by rw [hcounts]⟩
  induction ops with
  | nil => rfl
  | cons op past ih =>
      cases op with
      | find key deltas =>
          rw [after, perform, counts_find, ih]
          simp only [countP_history_find, Bool.toNat_true]
      | clear => simpa [after, perform, clear, history, entry, Entry.passes] using ih

/-! ## Keys on their own -/

/-- Whether an operation has to do with a key: a search under it, or that all roots are
forgotten. -/
def Operation.concerns (key : κ) : Operation κ α → Bool
  | find k _ => k = key
  | clear => true

/-- What the searches under a key came to, the newest first. -/
def outcomes (key : κ) (ops : List (Operation κ α)) : List (Root α) :=
  (history ops).filterMap (Entry.outcome? key)

/-- Searches under other keys do not change what is kept under a key. -/
theorem get?_after_filter (key : κ) (ops : List (Operation κ α)) :
    (after (ops.filter (Operation.concerns key))).get? key = (after ops).get? key := by
  induction ops with
  | nil => rfl
  | cons op past ih =>
      cases op with
      | find k deltas =>
          by_cases h : k = key
          · subst h
            rw [List.filter_cons_of_pos (by simp [Operation.concerns])]
            simp only [after, perform, get?_find, find_fst, ih]
          · rw [List.filter_cons_of_neg (by simpa [Operation.concerns] using h), ih, after, perform,
              get?_find, if_neg h]
      | clear => rw [List.filter_cons_of_pos rfl]; rfl

theorem outcomes_filter (key : κ) (ops : List (Operation κ α)) :
    outcomes key (ops.filter (Operation.concerns key)) = outcomes key ops := by
  induction ops with
  | nil => rfl
  | cons op past ih =>
      unfold outcomes at ih ⊢
      cases op with
      | find k deltas =>
          by_cases h : k = key
          · subst h
            rw [List.filter_cons_of_pos (by simp [Operation.concerns])]
            simp only [history, entry, List.filterMap_cons, Entry.outcome?, find_fst,
              get?_after_filter, ih]
          · rw [List.filter_cons_of_neg (by simpa [Operation.concerns] using h), ih]
            simp [history, entry, Entry.outcome?, h]
      | clear =>
          rw [List.filter_cons_of_pos rfl]
          exact ih

/-- **The state of a cache is a function of its history.**  Its roots and counts are what the
history tells, and so is the outcome of the next search, which tries Newton's method exactly if a
finite root is kept under its key and it comes to a bracket.  To forget all roots changes no count.
What is asked under other keys changes neither the root under a key nor any outcome there. -/
theorem reflects_history (ops : List (Operation κ α)) :
    (after ops).Reflects (history ops) ∧
      (after (.clear :: ops)).counts = (after ops).counts ∧
      (∀ key deltas,
        ((after ops).find key deltas).1 =
            (dominantRoot deltas (lastRoot? key (history ops))).result ∧
          (after (.find key deltas :: ops)).counts.tried = (after ops).counts.tried +
            (((after ops).get? key).any Scalar.isFinite &&
              (Trace.bracket?
                (dominantRoot deltas ((after ops).get? key)).events).isSome).toNat) ∧
      ∀ key,
        (after (ops.filter (Operation.concerns key))).get? key = (after ops).get? key ∧
          outcomes key (ops.filter (Operation.concerns key)) = outcomes key ops := by
  refine ⟨reflects_after ops, rfl, fun key deltas => ⟨?_, ?_⟩, fun key => ⟨?_, ?_⟩⟩
  · rw [← get?_after]
    rfl
  · exact tried_find (after ops) key deltas
  · exact get?_after_filter key ops
  · exact outcomes_filter key ops

end WarmCache

end GrowthOrder
