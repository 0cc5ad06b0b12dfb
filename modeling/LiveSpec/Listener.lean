import LiveSpec.Command.Call
import LiveSpec.Evaluation.Error

/-!
# Listeners

A listener watches the events of one channel. It can refuse an event, which ends the run. What it
refuses depends on the events that it heard in the same run; the last of them is the one it is asked
about. A listener that lives on from one run to the next can also go by what was heard in the other
runs.

An event names the elements it is about together with what they looked like at that moment, because
they can change later. The event that a call graph was built carries the document and the graph, and
beside them what is logged of the graph.
-/

namespace LiveSpec

open Markup (NodeId Tree)

/-- An element at a moment: which it is, and what it looks like. -/
structure Spot where
  node : NodeId
  shown : String
deriving DecidableEq, Repr, Inhabited

/-- What can happen in a run. -/
inductive Event where
  | documentParsed (path : String)
  | callGraphBuilt {document : Tree} {graph : CallGraph} (path : String) (size : Nat)
    (isEmpty : Bool)
  | documentBuilt (path : String)
  | successReported (element : Spot)
  | failureReported (element : Spot) (expected actual : String)
  | executeCompleted (element : Spot) (expression : String)
  | expressionEvaluated (element : Spot) (expression : String) (items : List Value)
  | missingRow (row : Spot) (expected : String)
  | surplusRow (row : Spot) (actual : String)
  | exceptionCaught (element : Spot) (expression : String) (error : EvaluationError)
deriving Inhabited

/-- What listeners subscribe to. -/
inductive Channel where
  | parsing
  | build
  | assertion
  | execution
  | rows
  | exceptions
deriving DecidableEq, Repr, Inhabited

namespace Event

/-- The event that the call graph of a document was built. -/
def graphBuilt (path : String) (document : Tree) (graph : CallGraph) : Event :=
  @callGraphBuilt document graph path graph.size graph.isEmpty

/-- The channel of an event. -/
def channel : Event → Channel
  | .documentParsed _ => .parsing
  | .callGraphBuilt _ _ _ | .documentBuilt _ => .build
  | .successReported _ | .failureReported _ _ _ => .assertion
  | .executeCompleted _ _ => .execution
  | .expressionEvaluated _ _ _ | .missingRow _ _ | .surplusRow _ _ => .rows
  | .exceptionCaught _ _ _ => .exceptions

/-- The name of an event. -/
def name : Event → String
  | .documentParsed _ => "document_parsed"
  | .callGraphBuilt _ _ _ => "call_graph_built"
  | .documentBuilt _ => "document_built"
  | .successReported _ => "success_reported"
  | .failureReported _ _ _ => "failure_reported"
  | .executeCompleted _ _ => "execute_completed"
  | .expressionEvaluated _ _ _ => "expression_evaluated"
  | .missingRow _ _ => "missing_row"
  | .surplusRow _ _ => "surplus_row"
  | .exceptionCaught _ _ _ => "exception_caught"

end Event

/-- What a listener to parsing does to the document before it is built. -/
structure Retouch where
  /-- The attribute of the body to which the listener adds its label. -/
  append : Option String
  /-- The name of the elements that the listener removes. -/
  remove : Option String
deriving DecidableEq, Repr, Inhabited

/-- A listener that logs what it hears under a label. -/
structure Spy where
  label : String
  /-- What it objects to, given the events that it heard in the same run, the last one last. -/
  objection : List Event → Option String
  retouch : Retouch
  /-- What it objects to if it lives on from run to run, given all events that listeners heard so
  far, each under the label of its listener, the last one last. -/
  recollection : List (String × Event) → Option String := fun _ => none

/-- A listener: one that accepts everything and leaves no trace, or a spy. -/
inductive Listener where
  | silent
  | spy (s : Spy)

/-- The objection to the `nth` event of a name. -/
def objectionTo (name : String) (nth : Nat) (message : String) (heard : List Event) :
    Option String :=
  let isLast := (heard.getLast?.map fun e => e.name == name).getD false
  if isLast && (heard.filter fun e => e.name == name).length == nth then some message else none

/-- The listeners of a run with their channels, in the order in which they were registered. -/
abbrev Bus := List (Channel × Listener)

namespace Bus

/-- The listeners of a channel with their places on the bus, in order. -/
def on (b : Bus) (c : Channel) : List (Nat × Listener) :=
  b.zipIdx.filterMap fun ((c', l), i) => if c' = c then some (i, l) else none

end Bus
end LiveSpec
