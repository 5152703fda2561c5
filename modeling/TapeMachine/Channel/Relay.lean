import TapeMachine.Channel.Inbox
import TapeMachine.Channel.Outlet

/-! An outlet with an inbox beside it, into which subscribers of the outlet may put its values. -/

namespace TapeMachine

structure Relay where
  inbox : Inbox := {}
  outlet : Outlet := {}
  deriving DecidableEq, Repr

def Relay.emit (r : Relay) (value : Cell) : Relay × Nat :=
  let index := r.outlet.length
  (⟨(List.replicate r.outlet.loops value).foldl Inbox.push r.inbox, r.outlet.emit value⟩, index)

end TapeMachine
