/-! Heap's algorithm lists every arrangement, each from the one before by a single swap. Its loop is
a counter in factorial base: the digit at level `i` counts the swaps made there and is at most `i`.
-/

namespace TapeMachine

structure Sweep (α : Type) where
  items : Array α
  counters : Array Nat
  level : Nat
  deriving DecidableEq, Repr

namespace Sweep

variable {α : Type}

def start (items : List α) : Sweep α := ⟨items.toArray, Array.replicate items.length 0, 1⟩

def counter (s : Sweep α) : Nat := s.counters.getD s.level 0

def swap (s : Sweep α) : Sweep α :=
  let partner := if s.level % 2 = 0 then 0 else s.counter
  ⟨s.items.swapIfInBounds partner s.level, s.counters.setIfInBounds s.level (s.counter + 1), 1⟩

def carry (s : Sweep α) : Sweep α :=
  ⟨s.items, s.counters.setIfInBounds s.level 0, s.level + 1⟩

/-- The arrangements that follow the one the sweep is at. -/
def run : Nat → Sweep α → List (List α)
  | 0, _ => []
  | fuel + 1, s =>
    if s.level < s.items.size then
      if s.counter < s.level then s.swap.items.toList :: run fuel s.swap else run fuel s.carry
    else []

end Sweep

def factorial : Nat → Nat
  | 0 => 1
  | n + 1 => (n + 1) * factorial n

/-- Every arrangement of a list, the list itself first. The loop takes at most one turn for each
level and arrangement. -/
def arrangements {α : Type} (items : List α) : List (List α) :=
  if items.isEmpty then []
  else items :: (Sweep.start items).run (items.length * factorial items.length)

end TapeMachine
