import Syntree.Tree.Walk

/-!
Walks that act on chosen nodes: the n-th node of a kind, or every node of it.
-/

namespace Syntree

/-- Lists actions for nodes of a kind, or for the n-th of them only, counted from 1. The first item
that applies decides. -/
structure PlanItem (α : Type) where
  kind : NodeKind
  nth : Option Nat
  action : α

def PlanItem.choose {α : Type} (plan : List (PlanItem α)) (kind : NodeKind) (nth : Nat) :
    Option α :=
  (plan.find? fun item => item.kind = kind && item.nth.all (· == nth)).map (·.action)

/-- How many nodes of each kind have been met. -/
abbrev Tally := List (NodeKind × Nat)

/-- Counts one more node of a kind. -/
def Tally.next (kind : NodeKind) : Tally → Nat × Tally
  | [] => (1, [(kind, 1)])
  | (k, n) :: rest =>
    if k = kind then (n + 1, (k, n + 1) :: rest)
    else
      let (m, rest) := next kind rest
      (m, (k, n) :: rest)

/-- What a walk does at a node other than descending and handing on the result. -/
inductive WalkAction where
  /-- Ends well without descending. -/
  | skip
  /-- Ends with an error without descending. -/
  | stop (message : String)
  /-- Hands an error to the continuation. -/
  | fail (message : String)
  /-- Descends, and ends well whatever happens below. -/
  | swallow
  /-- Descends, and ends with an error if none came from below. -/
  | failAfter (message : String)
  | pass

inductive WalkEvent (π : Type) where
  | enter (kind : NodeKind) (pos : π)
  | leave (kind : NodeKind) (ok : Bool)

structure WalkLog (π : Type) where
  tally : Tally
  /-- The last event first. -/
  events : List (WalkEvent π)

namespace WalkLog

variable {π : Type}

def add (log : WalkLog π) (event : WalkEvent π) : WalkLog π :=
  { log with events := event :: log.events }

/-- Ends the visit of a node with a result. -/
def leave (kind : NodeKind) (result : Except String Unit) (log : WalkLog π) :
    Except String Unit × WalkLog π :=
  (result, log.add (.leave kind result.toBool))

end WalkLog

variable {π : Type}

/-- Walks from a node by a plan. The events are in order of time. -/
def walkByPlan (plan : List (PlanItem WalkAction)) (n : Node π) :
    Except String Unit × List (WalkEvent π) :=
  let callback (n : Node π) (log : WalkLog π) :
      Step (WalkLog π) String × WalkLog π :=
    let (nth, tally) := log.tally.next n.kind
    let log := ({ log with tally } : WalkLog π).add (.enter n.kind n.pos)
    let finish (result : Except String Unit) :=
      (Step.finish result, (log.leave n.kind result).2)
    match PlanItem.choose plan n.kind nth with
    | some .skip => finish (.ok ())
    | some (.stop message) => finish (.error message)
    | some (.fail message) => (.descend (.error message) (WalkLog.leave n.kind), log)
    | some .swallow => (.descend (.ok ()) fun _ => WalkLog.leave n.kind (.ok ()), log)
    | some (.failAfter message) =>
      (.descend (.ok ()) fun result =>
        WalkLog.leave n.kind (result.bind fun _ => .error message), log)
    | some .pass | none => (.descend (.ok ()) (WalkLog.leave n.kind), log)
  let (result, log) := walk callback n ⟨[], []⟩
  (result, log.events.reverse)

/-- Visits from a node, with the planned verdicts. The nodes visited are in order of time. -/
def visitByPlan (plan : List (PlanItem (Verdict String))) (n : Node π) :
    Except String Unit × List (Node π) :=
  let visitor (n : Node π) (log : Tally × List (Node π)) :
      Verdict String × (Tally × List (Node π)) :=
    let (nth, tally) := log.1.next n.kind
    ((PlanItem.choose plan n.kind nth).getD .proceed, (tally, n :: log.2))
  let (result, log) := visit visitor n ([], [])
  (result, log.2.reverse)

end Syntree
