import TapeMachine.Amplifiers
import TapeMachine.Channel.Relay
import TapeMachine.Settings.Document
import TapeMachine.Proofs.Stepping
import TapeMachine.Proofs.Suspension
import TapeMachine.Proofs.Interleaving
import TapeMachine.Proofs.Wiring
import TapeMachine.Proofs.Conservation
import TapeMachine.Proofs.Confluence
import TapeMachine.Proofs.Readiness
import TapeMachine.Proofs.ScheduleIndependence
import TapeMachine.Proofs.Budget
import TapeMachine.Proofs.Wakeup
import TapeMachine.Proofs.Pipeline
import TapeMachine.Proofs.PhaseSearch
import TapeMachine.Proofs.Refinement
import TapeMachine.Proofs.SettingsIndependence
import TapeMachine.Proofs.Lifecycle
import TapeMachine.Proofs.CanonicalText
import TapeMachine.Proofs.Enumeration
import TapeMachine.Proofs.SignedMap
import TapeMachine.Proofs.Parameters
import TapeMachine.Proofs.Failure
import TapeMachine.Proofs.Grammar
import TapeMachine.Proofs.Delivery
import TapeMachine.Proofs.Subscription
import TapeMachine.Proofs.Construction
import TapeMachine.Proofs.AmplifierInput
import TapeMachine.Proofs.FactorialCounter
import TapeMachine.Proofs.Frame
import TapeMachine.Proofs.WordBounds
import TapeMachine.Proofs.Handover
