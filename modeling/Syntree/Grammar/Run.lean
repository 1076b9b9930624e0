import Syntree.Grammar.Productions

/-!
Running a grammar on tokens.
-/

namespace Syntree

namespace Grammar

variable {α β : Type}

/-- The token at an index; beyond the last there is only the end of the input. -/
def tokenAt (input : Array Lexeme) (index : Nat) : Lexeme :=
  input[index]?.getD .eof

/-- Moves over the current token. The end of the input is never passed. -/
def step (input : Array Lexeme) (s : State) : Reply Lexeme :=
  let l := tokenAt input s.cursor
  ⟨.ok l, if l.kind = .eof then s else { s with cursor := s.cursor + 1 }⟩

def iterate (f : β → State → Reply (Option β)) : Nat → β → State → Reply β
  | 0, _, s => ⟨.exhausted, s⟩
  | n + 1, value, s =>
    (f value s).andThen fun
      | none, s => ⟨.ok value, s⟩
      | some value, s => iterate f n value s

/-- Runs a grammar, given how rules run. A loop goes round at most once for each token that is left,
and once more to find that it ends. -/
def exec (input : Array Lexeme) (limits : Limits)
    (rules : (r : Rule) → State → Reply r.Result) : {α : Type} → Grammar α → State → Reply α
  | _, done value, s => ⟨.ok value, s⟩
  | _, bind first next, s =>
    (exec input limits rules first s).andThen fun value s =>
      exec input limits rules (next value) s
  | _, here, s => ⟨.ok s.cursor, s⟩
  | _, peek, s => ⟨.ok (tokenAt input s.cursor), s⟩
  | _, advance, s => step input s
  | _, expect es, s =>
    if es.any (·.met (tokenAt input s.cursor)) then step input s
    else ⟨.mismatch, s.expecting es⟩
  | _, operatorAbove min, s =>
    match (tokenAt input s.cursor).binaryOperator? with
    | none => ⟨.ok none, s⟩
    | some (op, p) =>
      if p.rank ≤ min.rank then ⟨.ok none, s⟩ else ⟨.ok (some (op, p)), (step input s).state⟩
  | _, fail, s => ⟨.mismatch, s⟩
  | _, reject error, s => ⟨.fatal error, s⟩
  | _, orElse first second, s =>
    (exec input limits rules first s).orElse limits s.cursor fun s =>
      exec input limits rules second s
  | _, loop value f, s =>
    iterate (fun value s => exec input limits rules (f value) s) (input.size - s.cursor + 1) value s
  | _, nested inner, s =>
    match limits.exceeded? s.depth with
    | some limit => ⟨.fatal (.nestingTooDeep limit s.cursor), s⟩
    | none =>
      let reply := exec input limits rules inner { s with depth := s.depth + 1 }
      ⟨reply.outcome, { reply.state with depth := reply.state.depth - 1 }⟩
  | _, call rule, s => rules rule s
  | _, observe level name reading inner, s =>
    let reply := exec input limits rules inner s
    let note := ⟨level, name, reply.outcome.map reading, reply.state.cursor, reply.state.failure⟩
    ⟨reply.outcome, { reply.state with notes := note :: reply.state.notes }⟩

end Grammar

/-- Runs a rule with at most `n` rules open inside each other. -/
def Rule.run (input : Array Lexeme) (limits : Limits) : Nat → (r : Rule) → State → Reply r.Result
  | 0, _, s => ⟨.exhausted, s⟩
  | n + 1, r, s => r.production.exec input limits (run input limits n) s

/-- More rules cannot be open at once: between one token and the next only a few are entered. -/
def openRules (input : Array Lexeme) : Nat :=
  16 * (input.size + 1)

def Grammar.run {α : Type} (g : Grammar α) (input : Array Lexeme) (limits : Limits) (s : State) :
    Reply α :=
  g.exec input limits (Rule.run input limits (openRules input)) s

end Syntree
