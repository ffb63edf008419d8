import GrowthOrder.Search.Dominant

/-!
# GrowthOrder.Search.WarmCache

A cache for solving many similar equations.  Under each key it keeps the last root found there, and
the next search under that key starts from it.  It counts what the searches came to.
-/

namespace GrowthOrder

/-- What the searches through a cache came to. -/
structure SearchCounts where
  calls : Nat
  /-- Searches that the remembered root answered. -/
  hits : Nat
  /-- Searches that tried the remembered root in vain. -/
  fallbacks : Nat
  infeasible : Nat
  divergent : Nat
  deriving DecidableEq, Repr

/-- The last roots under some keys, and what the searches came to. -/
structure WarmCache (κ α : Type) where
  /-- Each key at most once. -/
  roots : List (κ × α)
  counts : SearchCounts

namespace WarmCache

variable {κ α : Type} [DecidableEq κ] [Scalar α]

/-- The cache before any search. -/
def empty : WarmCache κ α :=
  ⟨[], ⟨0, 0, 0, 0, 0⟩⟩

/-- The root kept under a key. -/
def get? (cache : WarmCache κ α) (key : κ) : Option α :=
  cache.roots.lookup key

/-- The number of keys with a root. -/
def size (cache : WarmCache κ α) : Nat :=
  cache.roots.length

/-- The cache with all roots forgotten; the counts stay. -/
def clear (cache : WarmCache κ α) : WarmCache κ α :=
  { cache with roots := [] }

/-- Some roots with the one under `key` put or replaced. -/
def insert (key : κ) (root : α) : List (κ × α) → List (κ × α)
  | [] => [(key, root)]
  | (k, r) :: rest => if k = key then (key, root) :: rest else (k, r) :: insert key root rest

/-- Whether a search tried a remembered root. -/
def usedNewton (events : List (Event α)) : Bool :=
  events.any fun
    | .newton _ _ _ => true
    | _ => false

/-- Whether a search tried a remembered root in vain. -/
def wasRejected (events : List (Event α)) : Bool :=
  events.any fun
    | .rejected _ => true
    | _ => false

/-- The counts after one more search. -/
def count (c : SearchCounts) (search : Recorded α (Root α)) : SearchCounts where
  calls := c.calls + 1
  hits := c.hits + (usedNewton search.events && !wasRejected search.events).toNat
  fallbacks := c.fallbacks + (wasRejected search.events).toNat
  infeasible := c.infeasible + search.result.isInfeasible.toNat
  divergent := c.divergent + search.result.isDivergent.toNat

/-- Solve `Σ r ^ (-d) = 1` from the root kept under `key`, and keep the new one there. -/
def find (cache : WarmCache κ α) (key : κ) (deltas : List α) : Root α × WarmCache κ α :=
  let search := dominantRoot deltas (cache.get? key)
  let roots := match search.result with
    | .finite r => insert key r cache.roots
    | _ => cache.roots
  (search.result, ⟨roots, count cache.counts search⟩)

end WarmCache

end GrowthOrder
