import Syntree.Parse

/-!
Scripts of parsing steps, for trying out grammars one step at a time. Each step is a grammar that
notes how it ended.
-/

namespace Syntree

inductive ScriptStep where
  | advance
  | peek (text : String)
  | kind
  | position
  | literal (text : String)
  | oneOf (texts : List String)
  | expect (kind : TokenKind)
  | optional (text : String)
  | attempt (body : List ScriptStep)
  | many (body : List ScriptStep)
  | separated (separator : String) (body : List ScriptStep)
  | optionalSeparated (separator : String) (body : List ScriptStep)
  | choice (alternatives : List (List ScriptStep))
  | nested (times : Nat) (body : List ScriptStep)
  | binary (min : Power)
  | rule (rule : Rule)

namespace ScriptStep

open Grammar (observe)

/-- Nests a grammar several levels deep. -/
def nestedTimes {α : Type} : Nat → Grammar α → Grammar α
  | 0, g => g
  | n + 1, g => .nested (nestedTimes n g)

/-- Notes how a grammar ended and forgets what it read. -/
def noted {α : Type} (level : Nat) (name : String) (reading : α → Reading) (g : Grammar α) :
    Grammar Unit := do
  let _ ← observe level name reading g

mutual

def grammar (level : Nat) : ScriptStep → Grammar Unit
  | advance => noted level "advance" .token .advance
  | peek text => noted level "peek" (fun l => .flag (l.spells text)) .peek
  | kind => noted level "kind" (fun l => .kind l.kind) .peek
  | position => noted level "position" .position .here
  | literal text => noted level "literal" .token (.expect [.literal text])
  | oneOf texts => noted level "one_of" .token (.expect (texts.map .literal))
  | expect k => noted level "expect" .token (.expect [.kind k])
  | optional text => noted level "optional" .flag (.optional text)
  | attempt body =>
    noted level "attempt" (fun r => .flag r.isSome) (.attempt (sequence (level + 1) body))
  | many body => noted level "repeat" (fun r => .count r.length) (.many (sequence (level + 1) body))
  | separated separator body =>
    noted level "separated" (fun r => .count r.length)
      (.separated separator (sequence (level + 1) body))
  | optionalSeparated separator body =>
    noted level "optional_separated" (fun r => .count r.length)
      (.optionalSeparated separator (sequence (level + 1) body))
  | choice bodies =>
    noted level "choice" (fun _ => .nothing) (.choice (alternatives (level + 1) bodies))
  | nested times body =>
    noted level "nested" (fun _ => .nothing) (nestedTimes times (sequence (level + 1) body))
  | binary min => noted level "binary" .node (do return .expr (← .call (.binary min)))
  | rule r => noted level "rule" .node (do return r.toNode (← .call r))

/-- Steps one after the other, up to the first that fails. -/
def sequence (level : Nat) : List ScriptStep → Grammar Unit
  | [] => pure ()
  | step :: steps => do
    step.grammar level
    sequence level steps

def alternatives (level : Nat) : List (List ScriptStep) → List (Grammar Unit)
  | [] => []
  | body :: bodies => sequence level body :: alternatives level bodies

end

/-- Runs every step, whether or not the one before it failed. -/
def runAll (steps : List ScriptStep) (ts : TokenStream) : State :=
  steps.foldl (fun s step => ((step.grammar 0).run ts.lexemes .standard s).state) .start

end ScriptStep

end Syntree
