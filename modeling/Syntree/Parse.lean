import Syntree.Grammar.Run
import Syntree.Token.Scan

/-!
From a source to its tree.
-/

namespace Syntree

/-- Tokens that end with an end-of-input token. -/
structure TokenStream where
  tokens : Array Token
  closed : (tokens.toList.map (·.kind)).getLast? = some .eof

namespace TokenStream

/-- Adds the end of the input if it is missing, where the last token stops. -/
def ofTokens (tokens : List Token) : TokenStream :=
  if h : (tokens.map (·.kind)).getLast? = some .eof then ⟨tokens.toArray, h⟩
  else
    let stop := match tokens.getLast? with
      | none => .startOf defaultFile
      | some last => last.span.stop
    ⟨(tokens ++ [Lexical.eofAt stop]).toArray, by simp [Lexical.eofAt, Lexeme.eof]⟩

theorem ofTokens_tokens {tokens : List Token}
    (h : (tokens.map (·.kind)).getLast? = some .eof) :
    (ofTokens tokens).tokens = tokens.toArray := by
  rw [ofTokens, dif_pos h]

def lexemes (ts : TokenStream) : Array Lexeme :=
  ts.tokens.map (·.toLexeme)

def lexeme (ts : TokenStream) (index : Nat) : Lexeme :=
  Grammar.tokenAt ts.lexemes index

/-- Where the token at an index starts. Indices past the end stand for the end of the input. -/
def position (ts : TokenStream) (index : Nat) : Position :=
  match ts.tokens[min index (ts.tokens.size - 1)]? with
  | some t => t.span.start
  | none => .startOf defaultFile

/-- A token mismatch as the failure record describes it, expectations in alphabetical order. -/
def mismatch (ts : TokenStream) (f : Failure) : Error :=
  let expected := (f.expected.map Expectation.described).mergeSort fun a b => decide (a ≤ b)
  ⟨.unexpectedToken expected (ts.lexeme f.furthest).found, ts.position f.furthest⟩

/-- The value that a run has read, or the error it ended with. -/
def result {α : Type} (ts : TokenStream) (outcome : Outcome α) (f : Failure) : Except Error α :=
  match outcome with
  | .ok value => .ok value
  | .fatal error => .error ⟨error.cause, ts.position error.index⟩
  | .mismatch | .exhausted => .error (ts.mismatch f)

/-- The tree of the tokens, with token indices as positions. -/
def indexedTree (ts : TokenStream) : Except Error (Ast Nat) :=
  let reply := (Grammar.call .ast).run ts.lexemes .standard .start
  ts.result reply.outcome reply.state.failure

def tree (ts : TokenStream) : Except Error (Ast Position) :=
  ts.indexedTree.map (·.map ts.position)

end TokenStream

/-- The tree of a source. -/
def parse (file source : String) : Except Error (Ast Position) := do
  let tokens ← tokenize file source
  (TokenStream.ofTokens tokens).tree

/-- Bytes that arrive in pieces, and why no more came if the input did not end by itself. -/
structure ByteStream where
  chunks : List ByteArray
  failure : Option String

namespace ByteStream

def bytes (b : ByteStream) : ByteArray :=
  b.chunks.foldl (· ++ ·) .empty

/-- The text of a stream that could be read to its end. -/
def text (b : ByteStream) : Except String String :=
  match b.failure with
  | some reason => .error reason
  | none =>
    match String.fromUTF8? b.bytes with
    | some text => .ok text
    | none => .error "stream did not contain valid UTF-8"

end ByteStream

/-- The tree of a source that has yet to be read. -/
def parseStream (file : String) (b : ByteStream) : Except Error (Ast Position) :=
  match b.text with
  | .error reason => .error ⟨.unreadable reason, .startOf file⟩
  | .ok source => parse file source

end Syntree
