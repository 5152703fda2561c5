import TapeMachine.Arrangements
import TapeMachine.Circuit.Agenda

/-! A bank of amplifiers is a circuit of machines with one program, each seeded with its phase and
the first one also with the initial signal zero. The best signal over all orders of the phases is
searched for by trying each. -/

namespace TapeMachine

inductive Topology where
  /-- Each amplifier feeds the next. -/
  | chain
  /-- The last amplifier also feeds the first. -/
  | ring
  deriving DecidableEq, Repr

namespace Amplifiers

/-- Letters from `A`, again from `A` after `Z`. -/
def label (i : Nat) : String := "amp-" ++ (Char.ofNat (65 + i % 26)).toString

def amplifier (program : Program) (settings : Settings) (i : Nat) : Machine :=
  { Machine.create program settings with label := label i }

def seeded (program : Program) (phases : List Cell) (settings : Settings) :
    Except Error Circuit :=
  phases.zipIdx.foldlM (fun c (phase, i) => (c.add (amplifier program settings i)).seed i [phase])
    {}

def wired (c : Circuit) (topology : Topology) : Except Error Circuit := do
  let n := c.size
  let c ← (List.range (n - 1)).foldlM (fun c i => c.connect i (i + 1)) c
  if topology = .ring ∧ 0 < n then c.connect (n - 1) 0 else return c

def bank (program : Program) (phases : List Cell) (topology : Topology) (settings : Settings) :
    Except Error Circuit := do
  let c ← seeded program phases settings
  let c ← wired c topology
  if 0 < c.size then c.seed 0 [0] else return c

def signal (fuel : Nat) (program : Program) (phases : List Cell) (topology : Topology) :
    Outcome Cell :=
  match bank program phases topology {} with
  | .error error => .failed error
  | .ok c => (c.signal fuel).2

/-- A later signal replaces the best one only if it is greater. -/
def better (best : Option (Cell × List Cell)) (signal : Cell) (order : List Cell) :
    Cell × List Cell :=
  match best with
  | none => (signal, order)
  | some best => if best.1 < signal then (signal, order) else best

/-- The best signal over a list of orders, with the order that gave it first. The search ends at
the first order without a signal. -/
def search (trial : List Cell → Outcome Cell) (best : Option (Cell × List Cell)) :
    List (List Cell) → Outcome (Cell × List Cell)
  | [] =>
    match best with
    | none => .failed .noPhases
    | some best => .done best
  | order :: rest =>
    match trial order with
    | .done value => search trial (some (better best value order)) rest
    | .failed error => .failed error
    | .deadlock => .deadlock
    | .unfinished => .unfinished

def bestSignal (fuel : Nat) (program : Program) (phases : List Cell) (topology : Topology) :
    Outcome (Cell × List Cell) :=
  search (signal fuel program · topology) none (arrangements phases)

end Amplifiers

end TapeMachine
