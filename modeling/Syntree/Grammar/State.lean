import Syntree.Error
import Syntree.Tree.Node

/-!
What parsing carries along, and how a run can end.

A run works on token indices. It keeps one failure record for the whole input: the furthest index
at which an expectation failed, and everything that was expected there.
-/

namespace Syntree

/-- What the grammar can ask of a token. -/
inductive Expectation where
  | literal (text : String)
  | kind (kind : TokenKind)
deriving DecidableEq, Repr

namespace Expectation

def met (e : Expectation) (l : Lexeme) : Bool :=
  match e with
  | literal text => l.spells text
  | kind k => l.kind == k

/-- A spelling is quoted, a kind stands in angle brackets in lowercase. -/
def described : Expectation → String
  | literal text => Text.quoted text
  | kind .eof => "EOF"
  | kind k => "<" ++ k.name.toLower ++ ">"

end Expectation

/-- An error that no alternative can make good, at the index of a token. -/
inductive Fatal where
  | numberOutOfRange (text : String) (index : Nat)
  | nestingTooDeep (limit index : Nat)
deriving DecidableEq, Repr

def Fatal.index : Fatal → Nat
  | numberOutOfRange _ index | nestingTooDeep _ index => index

def Fatal.cause : Fatal → Cause
  | numberOutOfRange text _ => .numberOutOfRange text
  | nestingTooDeep limit _ => .nestingTooDeep limit

/-- How a run ends. A mismatch is described by the failure record. -/
inductive Outcome (α : Type) where
  | ok (value : α)
  | mismatch
  | fatal (error : Fatal)
  /-- The bound on recursion was too small for the input. -/
  | exhausted

def Outcome.map {α β : Type} (f : α → β) : Outcome α → Outcome β
  | ok value => .ok (f value)
  | mismatch => .mismatch
  | fatal error => .fatal error
  | exhausted => .exhausted

/-- The furthest index at which an expectation failed, and what was expected there. -/
structure Failure where
  furthest : Nat
  expected : List Expectation
deriving DecidableEq, Repr

namespace Failure

def none : Failure := ⟨0, []⟩

/-- An expectation that failed before the furthest index is forgotten. -/
def record (f : Failure) (index : Nat) (e : Expectation) : Failure :=
  if f.furthest < index then ⟨index, [e]⟩
  else if f.furthest = index then ⟨index, f.expected.insert e⟩
  else f

end Failure

/-- What an observed part of a run has read. -/
inductive Reading where
  | token (lexeme : Lexeme)
  | flag (value : Bool)
  | kind (kind : TokenKind)
  | position (index : Nat)
  | count (n : Nat)
  | node (node : Node Nat)
  | nothing

/-- An observation: how one part of a run ended and where it left the cursor and the record. -/
structure Note where
  level : Nat
  name : String
  outcome : Outcome Reading
  cursor : Nat
  failure : Failure

structure State where
  cursor : Nat
  failure : Failure
  /-- The number of nested constructs that are open. -/
  depth : Nat
  /-- Observations so far, the last one first. -/
  notes : List Note

namespace State

def start : State := ⟨0, .none, 0, []⟩

def expecting (s : State) (es : List Expectation) : State :=
  { s with failure := es.foldl (fun f e => f.record s.cursor e) s.failure }

end State

/-- The end of a run and the state it leaves. A failing run leaves its state too. -/
structure Reply (α : Type) where
  outcome : Outcome α
  state : State

/-- How far a failed alternative may have read and still be given up for the next, and how many
constructs may be open at once. -/
structure Limits where
  lookahead : Option Nat
  nesting : Option Nat

/-- One token of lookahead and 128 levels of nesting. -/
def Limits.standard : Limits := ⟨some 1, some 128⟩

/-- Whether an alternative that started at index `start` has read too much to be given up. -/
def Limits.committed (limits : Limits) (start cursor : Nat) : Bool :=
  limits.lookahead.any fun n => start + n < cursor

/-- The limit that opening one more construct would exceed. -/
def Limits.exceeded? (limits : Limits) (depth : Nat) : Option Nat :=
  limits.nesting.filter (· ≤ depth)

namespace Reply

variable {α β : Type}

/-- Goes on from a value that was read. -/
@[inline] def andThen (r : Reply β) (f : β → State → Reply α) : Reply α :=
  match r.outcome with
  | .ok value => f value r.state
  | .mismatch => ⟨.mismatch, r.state⟩
  | .fatal error => ⟨.fatal error, r.state⟩
  | .exhausted => ⟨.exhausted, r.state⟩

/-- Goes back to the index `start` after a mismatch and tries something else, unless the failed
attempt has read too much to be given up. -/
@[inline] def orElse (limits : Limits) (start : Nat) (r : Reply α) (f : State → Reply α) :
    Reply α :=
  match r.outcome with
  | .mismatch =>
    if limits.committed start r.state.cursor then r else f { r.state with cursor := start }
  | _ => r

end Reply

end Syntree
