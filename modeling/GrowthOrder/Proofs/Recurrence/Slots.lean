import GrowthOrder.Proofs.Recurrence.Groups

/-!
# GrowthOrder.Proofs.Recurrence.Slots

Collecting like terms with an index.  The groups stand in one sequence, in the order of their first
calls, and a hash map takes the key of some shifts to the slot of their group, so that a call is
added in one step and no group is searched.  What can go wrong is a slot that is out of range.

* `Slots.Holds` — what the sequence and the index are after some terms: the merged calls, and where
  each key first occurs among them.
* `Slots.Holds.add`, `Slots.holds_foldlM` — one more term keeps it so, and then any number of terms.
* `Term.collect_by_groups` — so this comes to the sum of the groups, as collecting does.
-/

namespace GrowthOrder

/-! ## The index -/

/-- Like terms on the way: the sum of the constants, each group as its first call with the sum of
its coefficients, and the slots of the groups by their keys. -/
structure Slots where
  constant : Float
  groups : Array (Call Float × Float)
  index : Std.HashMap (List UInt64) Nat

namespace Slots

/-- Before any terms. -/
def empty : Slots :=
  ⟨0.0, #[], ∅⟩

/-- Add a coefficient to the group in a slot, if there is one. -/
def increase (s : Slots) (slot : Nat) (x : Float) : Option Slots :=
  if slot < s.groups.size then
    some { s with groups := s.groups.modify slot fun g => (g.1, g.2 + x) }
  else none

/-- Put a call into a group of its own, behind the others. -/
def start (s : Slots) (c : Call Float) : Slots :=
  { s with
    groups := s.groups.push (c, c.coefficient)
    index := s.index.insert (key c.shifts) s.groups.size }

/-- Add a term. -/
def add (s : Slots) : Term Float → Option Slots
  | .constant x => some { s with constant := s.constant + x }
  | .call c =>
    match s.index[key c.shifts]? with
    | some slot => s.increase slot c.coefficient
    | none => some (s.start c)

/-- A group as one call. -/
def whole (g : Call Float × Float) : Call Float :=
  { g.1 with coefficient := g.2 }

/-- What is significant of the constant and the groups. -/
def terms (s : Slots) : List (Term Float) :=
  (if Term.significant s.constant then [.constant s.constant] else [])
    ++ (s.groups.toList.filter fun g => Term.significant g.2).map fun g => .call (whole g)

/-- Collect like terms; `none` if some slot is out of range. -/
def collect (ts : List (Term Float)) : Option (List (Term Float)) :=
  (ts.foldlM add empty).map terms

end Slots

/-! ## Where a call is added -/

/-- A change of one element, seen through a map. -/
theorem map_modify {α β : Type} (f : α → α) (g : β → β) (h : α → β) (hfg : ∀ x, h (f x) = g (h x))
    (xs : List α) (i : Nat) : (xs.modify i f).map h = (xs.map h).modify i g := by
  induction xs generalizing i with
  | nil => rw [List.modify_nil, List.map_nil, List.modify_nil]
  | cons x xs ih =>
      cases i with
      | zero => simp only [List.modify_zero_cons, List.map_cons, hfg]
      | succ i => simp only [List.modify_succ_cons, List.map_cons, ih]

theorem idxOf?_concat {α : Type} [BEq α] (xs : List α) (x a : α) :
    (xs ++ [x]).idxOf? a = (xs.idxOf? a).or (if x == a then some xs.length else none) := by
  simp only [List.idxOf?, List.findIdx?_append, List.findIdx?_singleton]
  split
  · rw [Option.map_some, Nat.zero_add]
  · rw [Option.map_none]

namespace Call

/-- A call with something added to its coefficient. -/
def plus (x : Float) (c : Call Float) : Call Float :=
  { c with coefficient := c.coefficient + x }

/-- The keys of some calls. -/
def keys (cs : List (Call Float)) : List (List UInt64) :=
  cs.map fun c => key c.shifts

theorem keys_modify_plus (x : Float) (cs : List (Call Float)) (i : Nat) :
    keys (cs.modify i (plus x)) = keys cs := by
  rw [keys, map_modify (plus x) id (fun c => key c.shifts) (fun _ => rfl), List.modify_id, keys]

/-- A call is added to the first call with its key. -/
theorem addTo_of_idxOf? {c : Call Float} {ds : List (Call Float)} {i : Nat}
    (h : (keys ds).idxOf? (key c.shifts) = some i) :
    c.addTo ds = ds.modify i (plus c.coefficient) := by
  induction ds generalizing i with
  | nil => simp [keys] at h
  | cons d ds ih =>
      rw [keys, List.map_cons, List.idxOf?_cons] at h
      rw [addTo]
      split at h
      · next hkey =>
        obtain rfl : 0 = i := Option.some.inj h
        rw [if_pos ((alike_iff d c).2 (eq_of_beq hkey)), List.modify_zero_cons, plus]
      · next hkey =>
        obtain ⟨j, hj, rfl⟩ := Option.map_eq_some_iff.1 h
        rw [if_neg fun halike => hkey (beq_iff_eq.2 ((alike_iff d c).1 halike)), ih hj,
          List.modify_succ_cons]

/-- A call with a key of its own is added at the end. -/
theorem addTo_of_idxOf?_eq_none {c : Call Float} {ds : List (Call Float)}
    (h : (keys ds).idxOf? (key c.shifts) = none) : c.addTo ds = ds ++ [c] := by
  refine addTo_of_not_alike fun d hd => ?_
  rw [← Bool.not_eq_true, alike_iff]
  intro hkey
  exact List.idxOf?_eq_none_iff.1 h (hkey ▸ List.mem_map_of_mem hd)

end Call

/-! ## The invariant -/

namespace Slots

/-- The groups, each as one call. -/
def calls (s : Slots) : List (Call Float) :=
  s.groups.toList.map whole

theorem length_keys_calls (s : Slots) : (Call.keys s.calls).length = s.groups.size := by
  rw [Call.keys, List.length_map, calls, List.length_map, Array.length_toList]

/-- What stands in the slots after some terms. -/
structure Holds (s : Slots) (ts : List (Term Float)) : Prop where
  constant : s.constant = Term.constantSum ts
  calls : s.calls = Call.merge (Term.calls ts)
  /-- Each key has the slot of the first group with it. -/
  index (k : List UInt64) : s.index[k]? = (Call.keys s.calls).idxOf? k

theorem holds_empty : empty.Holds [] where
  constant := rfl
  calls := rfl
  index _ := Std.HashMap.getElem?_empty

/-- A slot of the index is in range. -/
theorem exists_increase {s : Slots} {k : List UInt64} {slot : Nat}
    (h : (Call.keys s.calls).idxOf? k = some slot) (x : Float) :
    ∃ s', s.increase slot x = some s' ∧ s'.constant = s.constant ∧ s'.index = s.index ∧
      s'.calls = s.calls.modify slot (Call.plus x) := by
  have hslot : slot < s.groups.size := by
    obtain ⟨hlt, -⟩ := List.idxOf?_eq_some_iff.1 h
    exact length_keys_calls s ▸ hlt
  refine ⟨_, if_pos hslot, rfl, rfl, ?_⟩
  rw [calls, Array.toList_modify, map_modify _ (Call.plus x) whole fun _ => rfl, calls]

theorem calls_start (s : Slots) (c : Call Float) : (s.start c).calls = s.calls ++ [c] := by
  rw [calls, start, Array.toList_push, List.map_append, calls]
  rfl

theorem index_start {s : Slots} (h : ∀ k : List UInt64, s.index[k]? = (Call.keys s.calls).idxOf? k)
    {c : Call Float} (hc : (Call.keys s.calls).idxOf? (key c.shifts) = none) (k : List UInt64) :
    (s.start c).index[k]? = (Call.keys (s.start c).calls).idxOf? k := by
  have hkeys : Call.keys (s.start c).calls = Call.keys s.calls ++ [key c.shifts] := by
    rw [calls_start, Call.keys, List.map_append, Call.keys, List.map_singleton]
  rw [hkeys, idxOf?_concat, length_keys_calls, start, Std.HashMap.getElem?_insert, h]
  split
  · next hkey => rw [← eq_of_beq hkey, hc, Option.none_or]
  · rw [Option.or_none]

variable {s : Slots} {ts : List (Term Float)}

/-- **One more term keeps the invariant,** and no slot is out of range. -/
theorem Holds.add (h : s.Holds ts) (t : Term Float) :
    ∃ s', s.add t = some s' ∧ s'.Holds (ts ++ [t]) := by
  cases t with
  | constant x =>
      have hcalls : Term.calls (ts ++ [.constant x]) = Term.calls ts := by
        rw [Term.calls, List.filterMap_append]
        exact List.append_nil _
      have hsum : Term.constantSum (ts ++ [.constant x]) = Term.constantSum ts + x := by
        rw [Term.constantSum, List.filterMap_append, List.foldl_append]
        rfl
      exact ⟨{ s with constant := s.constant + x }, rfl, by rw [hsum, h.constant],
        by rw [hcalls]; exact h.calls, h.index⟩
  | call c =>
      have hsum : Term.constantSum (ts ++ [.call c]) = Term.constantSum ts := by
        rw [Term.constantSum, List.filterMap_append, Term.constantSum]
        exact congrArg _ (List.append_nil _)
      have hcalls : Call.merge (Term.calls (ts ++ [.call c])) = c.addTo s.calls := by
        rw [h.calls, Term.calls, List.filterMap_append, Call.merge, List.foldl_append]
        rfl
      rw [Slots.add, h.index]
      cases hslot : (Call.keys s.calls).idxOf? (key c.shifts) with
      | some slot =>
          obtain ⟨s', hs', hconstant, hindex, hcalls'⟩ := exists_increase hslot c.coefficient
          refine ⟨s', hs', ?_, ?_, fun k => ?_⟩
          · rw [hconstant, h.constant, hsum]
          · rw [hcalls, hcalls', Call.addTo_of_idxOf? hslot]
          · rw [hindex, h.index, hcalls', Call.keys_modify_plus]
      | none =>
          refine ⟨s.start c, rfl, ?_, ?_, index_start h.index hslot⟩
          · rw [hsum, ← h.constant, start]
          · rw [hcalls, calls_start, Call.addTo_of_idxOf?_eq_none hslot]

/-- **The invariant holds after any terms.** -/
theorem holds_foldlM (ts : List (Term Float)) : ∃ s, ts.foldlM add empty = some s ∧ s.Holds ts := by
  induction ts using List.reverseRecOn with
  | nil => exact ⟨empty, rfl, holds_empty⟩
  | append_singleton ts t ih =>
      obtain ⟨s, hs, hholds⟩ := ih
      obtain ⟨s', hs', hholds'⟩ := hholds.add t
      refine ⟨s', ?_, hholds'⟩
      rw [List.foldlM_append, hs, Option.bind_eq_bind, Option.bind_some, List.foldlM_cons, hs']
      rfl

theorem Holds.terms (h : s.Holds ts) : s.terms = Term.collect ts := by
  simp only [Term.collect, Term.counts_eq_significant]
  rw [← h.constant, ← h.calls, Slots.terms, Slots.calls, List.filter_map, List.map_map]
  rfl

/-- Collecting with an index is collecting, for any terms. -/
theorem collect_eq (ts : List (Term Float)) : collect ts = some (Term.collect ts) := by
  obtain ⟨s, hs, h⟩ := holds_foldlM ts
  rw [collect, hs, Option.map_some, h.terms]

end Slots

/-- **Collecting like terms comes to the sum of the groups,** where no shift is a NaN: the constants
summed from left to right, then one call for each vector of shifts, the first that has it, with the
sum of the coefficients of all that have it, each as far as it is significant.  So it does with the
index, which never names a slot that is out of range. -/
theorem Term.collect_by_groups {ts : List (Term Float)}
    (h : ∀ c ∈ calls ts, ∀ s ∈ c.shifts, s.isNaN = false) :
    collect ts = grouped ts ∧ Slots.collect ts = some (grouped ts) := by
  have hgrouped : collect ts = grouped ts := collect_eq_grouped h
  exact ⟨hgrouped, by rw [Slots.collect_eq, hgrouped]⟩

/-- Calls of three functions: two at shifts that differ in the signs of zeros are one group, two
others cancel out, and the constants come first. -/
theorem Term.collect_by_groups_signs :
    let ts : List (Term Float) :=
      [.call ⟨1.0, "T", ["n"], [-1.0]⟩, .constant 1.0, .call ⟨2.0, "S", ["n", "m"], [0.0, -0.0]⟩,
        .call ⟨3.0, "T", ["k", "n"], [-0.0, 0.0]⟩, .call ⟨-1.0, "U", ["k"], [-1.0]⟩, .constant 2.0]
    (∀ c ∈ calls ts, ∀ s ∈ c.shifts, s.isNaN = false) ∧
      (collect ts = grouped ts ∧ Slots.collect ts = some (grouped ts)) ∧
      (grouped ts == [.constant 3.0, .call ⟨5.0, "S", ["n", "m"], [0.0, -0.0]⟩]) = true := by
  intro ts
  have h : ∀ c ∈ calls ts, ∀ s ∈ c.shifts, s.isNaN = false := by decide +kernel
  exact ⟨h, collect_by_groups h, by decide +kernel⟩

end GrowthOrder
