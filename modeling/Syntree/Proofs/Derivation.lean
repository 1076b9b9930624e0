import Syntree.Proofs.Exec

/-!
The language as a grammar in the usual sense: which words each rule derives, and the tree that
records the derivation. Nothing here speaks of a cursor, of a failure or of trying again.

A word is a list of slots. A slot holds a token, or it is a place where one separator may stand or
be left out without a change of meaning.
-/

namespace Syntree

inductive Slot where
  | token (lexeme : Lexeme)
  /-- A place for a separator, and whether it is there. -/
  | separator (text : String) (present : Bool)
deriving DecidableEq, Repr

namespace Slot

def lexemes : Slot → List Lexeme
  | token l => [l]
  | separator text true => [⟨.punct, text⟩]
  | separator _ false => []

/-- The tokens of a word. -/
def yield (w : List Slot) : List Lexeme :=
  w.flatMap lexemes

@[simp] theorem yield_nil : yield [] = [] := rfl

@[simp] theorem yield_append (w w' : List Slot) : yield (w ++ w') = yield w ++ yield w' :=
  List.flatMap_append

@[simp] theorem yield_token (l : Lexeme) (w : List Slot) : yield (token l :: w) = l :: yield w :=
  rfl

/-- A brace that opens a statement opens a block if it is closed at once, so that the comma of an
empty literal is no longer free there. -/
def pinned : List Slot → List Slot
  | token l :: separator text true :: w =>
    if l.spells "\x7b" then token l :: token ⟨.punct, text⟩ :: w
    else token l :: separator text true :: w
  | w => w

@[simp] theorem yield_pinned (w : List Slot) : yield (pinned w) = yield w := by
  unfold pinned
  split
  · split <;> rfl
  · rfl

end Slot

/-- What the right-hand sides of rules are made of. -/
inductive Phrase where
  | literal (text : String)
  | token (kind : TokenKind)
  /-- A token that may be there, and whether it is. -/
  | flag (text : String)
  | separator (text : String)
  | rule (r : Rule)
  | optional (p : Phrase)
  /-- A part that follows a token written as `text`. -/
  | after (text : String) (p : Phrase)
  | between (opening closing : String) (p : Phrase)
  | star (p : Phrase)
  /-- `p (separator p)*` -/
  | separated (separator : String) (p : Phrase)
  /-- `opening (p ("," p)*)? ","? closing` -/
  | listed (opening closing : String) (p : Phrase)
  /-- `(p (";" p)* ";"?)?` -/
  | body (p : Phrase)
  /-- `"<" typeParam ("," typeParam)* ","? ">"` -/
  | typeParameters
  | modifiers
  /-- What may be declared at the top, in a class and in an enum. -/
  | rootKind | classKind | enumKind
  /-- `"default" | "case" caseSelect` -/
  | caseHead

/-- What a phrase stands for. -/
@[reducible] def Phrase.Result : Phrase → Type
  | literal _ => Unit
  | token _ => String
  | flag _ | separator _ => Bool
  | rule r => r.Result
  | optional p => Option p.Result
  | after _ p | between _ _ p => p.Result
  | star p | separated _ p | listed _ _ p | body p => List p.Result
  | typeParameters => List (TypeParam Nat)
  | modifiers => List Modifier
  | rootKind | classKind | enumKind => Decl Nat
  | caseHead => Option (CaseSelect Nat)

/-- Whether `e` can be the left operand of an operator of power `p`: the operators that could be
taken by the right end of `e` bind tighter. -/
def Expr.leaves {π : Type} (p : Power) : Expr π → Prop
  | .unary _ _ => True
  | .binary _ _ op _ => ∀ q, op.power? = some q → p.rank ≤ q.rightOperand.rank

/-- What an expression may start with where it stands as a statement. A `return` starts a statement
of its own, and with one token of lookahead a brace is given up as a block only before a comma. -/
def Limits.opens (limits : Limits) (first second : Lexeme) : Prop :=
  first.spells "return" = false ∧
    (limits.lookahead = some 1 → first.spells "\x7b" = true → second.spells "," = true)

open Grammar (tokenAt)

/-- `Derives limits input p i w j v`: the tokens of the input from index `i` up to index `j` are the
word `w` of the phrase `p`, and `v` records how it is derived. -/
inductive Derives (limits : Limits) (input : Array Lexeme) :
    (p : Phrase) → Nat → List Slot → Nat → p.Result → Prop where
  -- Tokens
  | literal {text : String} (spelt : (tokenAt input i).spells text = true) :
      Derives limits input (.literal text) i [.token (tokenAt input i)] (i + 1) ()
  | token {kind : TokenKind} (solid : kind ≠ .eof) (found : (tokenAt input i).kind = kind) :
      Derives limits input (.token kind) i [.token (tokenAt input i)] (i + 1)
        (tokenAt input i).value
  | flagAbsent {text : String} : Derives limits input (.flag text) i [] i false
  | flagPresent {text : String} (mark : Derives limits input (.literal text) i w j ()) :
      Derives limits input (.flag text) i w j true
  | separatorAbsent {text : String} :
      Derives limits input (.separator text) i [.separator text false] i false
  | separatorPresent {text : String} (found : tokenAt input i = ⟨.punct, text⟩) :
      Derives limits input (.separator text) i [.separator text true] (i + 1) true
  | modifiersNil : Derives limits input .modifiers i [] i []
  | modifiersCons {m : Modifier} {ms : List Modifier}
      (found : tokenAt input i = ⟨.modifier, m.spelling⟩)
      (rest : Derives limits input .modifiers (i + 1) w j ms) :
      Derives limits input .modifiers i (.token (tokenAt input i) :: w) j (m :: ms)
  -- Options and lists
  | optionalNone {p : Phrase} : Derives limits input (.optional p) i [] i none
  | optionalSome {p : Phrase} {v : p.Result} (part : Derives limits input p i w j v) :
      Derives limits input (.optional p) i w j (some v)
  | after {text : String} {p : Phrase} {v : p.Result}
      (mark : Derives limits input (.literal text) i w₁ j ())
      (part : Derives limits input p j w₂ k v) :
      Derives limits input (.after text p) i (w₁ ++ w₂) k v
  | between {opening closing : String} {p : Phrase} {v : p.Result}
      (opened : Derives limits input (.literal opening) i w₁ j ())
      (part : Derives limits input p j w₂ k v)
      (closed : Derives limits input (.literal closing) k w₃ l ()) :
      Derives limits input (.between opening closing p) i (w₁ ++ w₂ ++ w₃) l v
  | starNil {p : Phrase} : Derives limits input (.star p) i [] i []
  | starCons {p : Phrase} {v : p.Result} {vs : List p.Result}
      (first : Derives limits input p i w₁ j v) (rest : Derives limits input (.star p) j w₂ k vs) :
      Derives limits input (.star p) i (w₁ ++ w₂) k (v :: vs)
  | separated {text : String} {p : Phrase} {v : p.Result} {vs : List p.Result}
      (first : Derives limits input p i w₁ j v)
      (rest : Derives limits input (.star (.after text p)) j w₂ k vs) :
      Derives limits input (.separated text p) i (w₁ ++ w₂) k (v :: vs)
  | listed {opening closing : String} {p : Phrase} {vs : Option (List p.Result)} {b : Bool}
      (opened : Derives limits input (.literal opening) i w₁ j ())
      (items : Derives limits input (.optional (.separated "," p)) j w₂ k vs)
      (last : Derives limits input (.separator ",") k w₃ l b)
      (closed : Derives limits input (.literal closing) l w₄ m ()) :
      Derives limits input (.listed opening closing p) i (w₁ ++ w₂ ++ w₃ ++ w₄) m (vs.getD [])
  | bodyEmpty {p : Phrase} : Derives limits input (.body p) i [] i []
  | body {p : Phrase} {vs : List p.Result} {b : Bool}
      (items : Derives limits input (.separated ";" p) i w₁ j vs)
      (last : Derives limits input (.separator ";") j w₂ k b) :
      Derives limits input (.body p) i (w₁ ++ w₂) k vs
  -- Types. Constraints take every comma they can, so only the last parameter can have any.
  | typeParameters {ps : List (TypeParam Nat)} {b : Bool}
      (opened : Derives limits input (.literal "<") i w₁ j ())
      (items : Derives limits input (.separated "," (.rule .typeParam)) j w₂ k ps)
      (greedy : ∀ p ∈ ps.dropLast, p.constraints = [])
      (last : Derives limits input (.separator ",") k w₃ l b)
      (closed : Derives limits input (.literal ">") l w₄ m ()) :
      Derives limits input .typeParameters i (w₁ ++ w₂ ++ w₃ ++ w₄) m ps
  | typeDecl {x : String} {ps : Option (List (TypeParam Nat))}
      (name : Derives limits input (.token .ident) i w₁ j x)
      (parameters : Derives limits input (.optional .typeParameters) j w₂ k ps) :
      Derives limits input (.rule .typeDecl) i (w₁ ++ w₂) k ⟨i, x, ps.getD []⟩
  | typeParam {x : String} {cs : Option (List (Reference Nat))}
      (name : Derives limits input (.token .ident) i w₁ j x)
      (constraints : Derives limits input
        (.optional (.after ":" (.separated "," (.rule .reference)))) j w₂ k cs) :
      Derives limits input (.rule .typeParam) i (w₁ ++ w₂) k ⟨i, x, cs.getD []⟩
  -- Declarations
  | ast {ds : List (RootDecl Nat)}
      (declarations : Derives limits input (.star (.rule .rootDecl)) i w j ds)
      (ended : (tokenAt input j).kind = .eof) : Derives limits input (.rule .ast) i w j ⟨i, ds⟩
  | rootDecl {ms : List Modifier} {d : Decl Nat}
      (modifiers : Derives limits input .modifiers i w₁ j ms)
      (decl : Derives limits input .rootKind j w₂ k d) :
      Derives limits input (.rule .rootDecl) i (w₁ ++ w₂) k ⟨i, ms, d⟩
  | rootClass {d : ClassDecl Nat} {b : Bool}
      (decl : Derives limits input (.rule .classDecl) i w₁ j d)
      (last : Derives limits input (.separator ";") j w₂ k b) :
      Derives limits input .rootKind i (w₁ ++ w₂) k (.classDecl d)
  | rootImport {d : ImportDecl Nat} {b : Bool}
      (decl : Derives limits input (.rule .importDecl) i w₁ j d)
      (last : Derives limits input (.separator ";") j w₂ k b) :
      Derives limits input .rootKind i (w₁ ++ w₂) k (.importDecl d)
  | rootEnum {d : EnumDecl Nat} {b : Bool} (decl : Derives limits input (.rule .enumDecl) i w₁ j d)
      (last : Derives limits input (.separator ";") j w₂ k b) :
      Derives limits input .rootKind i (w₁ ++ w₂) k (.enumDecl d)
  | rootFunc {d : FuncDecl Nat} {b : Bool} (decl : Derives limits input (.rule .funcDecl) i w₁ j d)
      (last : Derives limits input (.separator ";") j w₂ k b) :
      Derives limits input .rootKind i (w₁ ++ w₂) k (.funcDecl d)
  | rootVar {d : VarDecl Nat} (decl : Derives limits input (.rule .varDecl) i w₁ j d)
      (last : Derives limits input (.literal ";") j w₂ k ()) :
      Derives limits input .rootKind i (w₁ ++ w₂) k (.varDecl d)
  | importDecl {x : Option String} {path : String}
      (mark : Derives limits input (.literal "import") i w₁ j ())
      (given : Derives limits input (.optional (.token .ident)) j w₂ k x)
      (text : Derives limits input (.token .string) k w₃ l path) :
      Derives limits input (.rule .importDecl) i (w₁ ++ w₂ ++ w₃) l ⟨i, x, path⟩
  | enumDecl {t : TypeDecl Nat} {ms : List (EnumMember Nat)}
      (mark : Derives limits input (.literal "enum") i w₁ j ())
      (type : Derives limits input (.rule .typeDecl) j w₂ k t)
      (members : Derives limits input (.between "\x7b" "\x7d" (.body (.rule .enumMember)))
        k w₃ l ms) :
      Derives limits input (.rule .enumDecl) i (w₁ ++ w₂ ++ w₃) l ⟨i, t, ms⟩
  | classDecl {t : TypeDecl Nat} {ms : List (ClassMember Nat)}
      (mark : Derives limits input (.literal "class") i w₁ j ())
      (type : Derives limits input (.rule .typeDecl) j w₂ k t)
      (members : Derives limits input (.between "\x7b" "\x7d" (.body (.rule .classMember)))
        k w₃ l ms) :
      Derives limits input (.rule .classDecl) i (w₁ ++ w₂ ++ w₃) l ⟨i, t, ms⟩
  | enumMember {ms : List Modifier} {d : Decl Nat}
      (modifiers : Derives limits input .modifiers i w₁ j ms)
      (decl : Derives limits input .enumKind j w₂ k d) :
      Derives limits input (.rule .enumMember) i (w₁ ++ w₂) k ⟨i, ms, d⟩
  | classMember {ms : List Modifier} {d : Decl Nat}
      (modifiers : Derives limits input .modifiers i w₁ j ms)
      (decl : Derives limits input .classKind j w₂ k d) :
      Derives limits input (.rule .classMember) i (w₁ ++ w₂) k ⟨i, ms, d⟩
  | caseKind {d : CaseDecl Nat} (decl : Derives limits input (.rule .caseDecl) i w j d) :
      Derives limits input .enumKind i w j (.caseDecl d)
  | memberKind {d : Decl Nat} (decl : Derives limits input .classKind i w j d) :
      Derives limits input .enumKind i w j d
  | varKind {d : VarDecl Nat} (decl : Derives limits input (.rule .varDecl) i w j d) :
      Derives limits input .classKind i w j (.varDecl d)
  | funcKind {d : FuncDecl Nat} (decl : Derives limits input (.rule .funcDecl) i w j d) :
      Derives limits input .classKind i w j (.funcDecl d)
  | innerClass {d : ClassDecl Nat} (decl : Derives limits input (.rule .classDecl) i w j d) :
      Derives limits input .classKind i w j (.classDecl d)
  | innerEnum {d : EnumDecl Nat} (decl : Derives limits input (.rule .enumDecl) i w j d) :
      Derives limits input .classKind i w j (.enumDecl d)
  | initialiserKind {d : InitialiserDecl Nat}
      (decl : Derives limits input (.rule .initialiserDecl) i w j d) :
      Derives limits input .classKind i w j (.initialiser d)
  | caseDecl {x : String} {t : Option (TypeDecl Nat)}
      (mark : Derives limits input (.literal "case") i w₁ j ())
      (name : Derives limits input (.token .ident) j w₂ k x)
      (payload : Derives limits input (.optional (.between "(" ")" (.rule .typeDecl))) k w₃ l t) :
      Derives limits input (.rule .caseDecl) i (w₁ ++ w₂ ++ w₃) l ⟨i, x, t⟩
  | initialiserDecl {ps : List (Parameters Nat)} {b : Bool} {a : Block Nat}
      (mark : Derives limits input (.literal "init") i w₁ j ())
      (parameters : Derives limits input (.listed "(" ")" (.rule .parameters)) j w₂ k ps)
      (throws : Derives limits input (.flag "throws") k w₃ l b)
      (body : Derives limits input (.rule .block) l w₄ m a) :
      Derives limits input (.rule .initialiserDecl) i (w₁ ++ w₂ ++ w₃ ++ w₄) m ⟨i, ps, b, a⟩
  | parameters {xs : List String} {t : Reference Nat}
      (names : Derives limits input (.separated "," (.token .ident)) i w₁ j xs)
      (mark : Derives limits input (.literal ":") j w₂ k ())
      (type : Derives limits input (.rule .reference) k w₃ l t) :
      Derives limits input (.rule .parameters) i (w₁ ++ w₂ ++ w₃) l ⟨i, xs, t⟩
  | varDecl {vs : List (VarBinding Nat)} (mark : Derives limits input (.literal "let") i w₁ j ())
      (vars : Derives limits input (.separated "," (.rule .varBinding)) j w₂ k vs) :
      Derives limits input (.rule .varDecl) i (w₁ ++ w₂) k ⟨i, vs⟩
  | varBinding {x : String} {t : Option (Reference Nat)} {e : Option (Expr Nat)}
      (name : Derives limits input (.token .ident) i w₁ j x)
      (type : Derives limits input (.optional (.after ":" (.rule .reference))) j w₂ k t)
      (value : Derives limits input (.optional (.after "=" (.rule .expr))) k w₃ l e) :
      Derives limits input (.rule .varBinding) i (w₁ ++ w₂ ++ w₃) l ⟨i, x, t, e⟩
  | funcDecl {x : String} {ps : List (Parameters Nat)} {b : Bool} {t : Option (Reference Nat)}
      {a : Block Nat} (mark : Derives limits input (.literal "fn") i w₁ j ())
      (name : Derives limits input (.token .ident) j w₂ k x)
      (parameters : Derives limits input (.listed "(" ")" (.rule .parameters)) k w₃ l ps)
      (throws : Derives limits input (.flag "throws") l w₄ m b)
      (result : Derives limits input (.optional (.after ":" (.rule .reference))) m w₅ n t)
      (body : Derives limits input (.rule .block) n w₆ o a) :
      Derives limits input (.rule .funcDecl) i (w₁ ++ w₂ ++ w₃ ++ w₄ ++ w₅ ++ w₆) o
        ⟨i, x, ps, b, t, a⟩
  -- Statements
  | retStmt {v : ReturnStmt Nat} (part : Derives limits input (.rule .returnStmt) i w j v) :
      Derives limits input (.rule .stmt) i w j (.ret i v)
  | condStmt {v : IfStmt Nat} (part : Derives limits input (.rule .ifStmt) i w j v) :
      Derives limits input (.rule .stmt) i w j (.cond i v)
  | loopStmt {v : ForStmt Nat} (part : Derives limits input (.rule .forStmt) i w j v) :
      Derives limits input (.rule .stmt) i w j (.loop i v)
  | chooseStmt {v : SwitchStmt Nat} (part : Derives limits input (.rule .switchStmt) i w j v) :
      Derives limits input (.rule .stmt) i w j (.switch i v)
  | blockStmt {v : Block Nat} (part : Derives limits input (.rule .block) i w j v) :
      Derives limits input (.rule .stmt) i w j (.block i v)
  | varStmt {v : VarDecl Nat} (part : Derives limits input (.rule .varDecl) i w j v) :
      Derives limits input (.rule .stmt) i w j (.varDecl i v)
  | funcStmt {v : FuncDecl Nat} (part : Derives limits input (.rule .funcDecl) i w j v) :
      Derives limits input (.rule .stmt) i w j (.funcDecl i v)
  | classStmt {v : ClassDecl Nat} (part : Derives limits input (.rule .classDecl) i w j v) :
      Derives limits input (.rule .stmt) i w j (.classDecl i v)
  | enumStmt {v : EnumDecl Nat} (part : Derives limits input (.rule .enumDecl) i w j v) :
      Derives limits input (.rule .stmt) i w j (.enumDecl i v)
  | exprStmt {e : Expr Nat} (opens : limits.opens (tokenAt input i) (tokenAt input (i + 1)))
      (part : Derives limits input (.rule .expr) i w j e) :
      Derives limits input (.rule .stmt) i (Slot.pinned w) j (.expression i e)
  | block {ss : List (Stmt Nat)}
      (statements : Derives limits input (.between "\x7b" "\x7d" (.body (.rule .stmt))) i w j ss) :
      Derives limits input (.rule .block) i w j ⟨i, ss⟩
  | returnStmt {e : Option (Expr Nat)} (mark : Derives limits input (.literal "return") i w₁ j ())
      (value : Derives limits input (.optional (.rule .expr)) j w₂ k e) :
      Derives limits input (.rule .returnStmt) i (w₁ ++ w₂) k ⟨i, e⟩
  | ifStmt {e : Expr Nat} {a : Block Nat} {b : Option (Block Nat)}
      (mark : Derives limits input (.literal "if") i w₁ j ())
      (condition : Derives limits input (.rule .expr) j w₂ k e)
      (main : Derives limits input (.rule .block) k w₃ l a)
      (otherwise : Derives limits input (.optional (.after "else" (.rule .block))) l w₄ m b) :
      Derives limits input (.rule .ifStmt) i (w₁ ++ w₂ ++ w₃ ++ w₄) m ⟨i, e, a, b⟩
  | forStmt {t : Reference Nat} {e : Expr Nat} {a : Block Nat}
      (mark : Derives limits input (.literal "for") i w₁ j ())
      (target : Derives limits input (.rule .reference) j w₂ k t)
      (inside : Derives limits input (.literal "in") k w₃ l ())
      (source : Derives limits input (.rule .expr) l w₄ m e)
      (body : Derives limits input (.rule .block) m w₅ n a) :
      Derives limits input (.rule .forStmt) i (w₁ ++ w₂ ++ w₃ ++ w₄ ++ w₅) n ⟨i, t, e, a⟩
  | switchStmt {e : Expr Nat} {cs : List (CaseStmt Nat)}
      (mark : Derives limits input (.literal "switch") i w₁ j ())
      (target : Derives limits input (.rule .expr) j w₂ k e)
      (cases : Derives limits input (.between "\x7b" "\x7d" (.star (.rule .caseStmt))) k w₃ l cs) :
      Derives limits input (.rule .switchStmt) i (w₁ ++ w₂ ++ w₃) l ⟨i, e, cs⟩
  | caseStmt {c : Option (CaseSelect Nat)} {ss : List (Stmt Nat)}
      (selector : Derives limits input .caseHead i w₁ j c)
      (mark : Derives limits input (.literal ":") j w₂ k ())
      (body : Derives limits input (.body (.rule .stmt)) k w₃ l ss) :
      Derives limits input (.rule .caseStmt) i (w₁ ++ w₂ ++ w₃) l ⟨i, c, ss⟩
  | defaultHead (mark : Derives limits input (.literal "default") i w j ()) :
      Derives limits input .caseHead i w j none
  | selectHead {c : CaseSelect Nat}
      (part : Derives limits input (.after "case" (.rule .caseSelect)) i w j c) :
      Derives limits input .caseHead i w j (some c)
  | enumSelect {c : EnumCase Nat} (part : Derives limits input (.rule .enumCase) i w j c) :
      Derives limits input (.rule .caseSelect) i w j (.enumCase i c)
  | exprSelect {e : Expr Nat} (part : Derives limits input (.rule .expr) i w j e) :
      Derives limits input (.rule .caseSelect) i w j (.expr i e)
  | enumCase {x : String} {y : Option String}
      (mark : Derives limits input (.literal ".") i w₁ j ())
      (variant : Derives limits input (.token .ident) j w₂ k x)
      (binding : Derives limits input (.optional (.between "(" ")" (.token .ident))) k w₃ l y) :
      Derives limits input (.rule .enumCase) i (w₁ ++ w₂ ++ w₃) l ⟨i, x, y⟩
  -- Expressions. What stands to the right of an operator binds tighter than its power demands, and
  -- what stands to its left leaves it to be the operator of the whole.
  | expr {e : Expr Nat} (part : Derives limits input (.rule (.binary .lowest)) i w j e) :
      Derives limits input (.rule .expr) i w j e
  | operand {min : Power} {u : Unary Nat} (part : Derives limits input (.rule .unary) i w j u) :
      Derives limits input (.rule (.binary min)) i w j (.unary u.pos u)
  | operation {min p : Power} {op : Op} {a b : Expr Nat}
      (left : Derives limits input (.rule (.binary min)) i w₁ j a)
      (found : (tokenAt input j).binaryOperator? = some (op, p)) (above : min.rank < p.rank)
      (leaves : a.leaves p)
      (right : Derives limits input (.rule (.binary p.rightOperand)) (j + 1) w₂ k b) :
      Derives limits input (.rule (.binary min)) i (w₁ ++ .token (tokenAt input j) :: w₂) k
        (.binary a.pos a op b)
  | prefixed {op : Op} {u : Unary Nat} (known : op ∈ unaryOperators)
      (spelt : (tokenAt input i).spells op.spelling = true)
      (operand : Derives limits input (.rule .unary) (i + 1) w j u) :
      Derives limits input (.rule .unary) i (.token (tokenAt input i) :: w) j (.prefixed i op u)
  | terminal {t : Terminal Nat} (part : Derives limits input (.rule .terminal) i w j t) :
      Derives limits input (.rule .unary) i w j (.terminal t.pos t)
  | arrayTerminal {v : ArrayLiteral Nat}
      (part : Derives limits input (.rule .arrayLiteral) i w j v) :
      Derives limits input (.rule .terminal) i w j (.array i v)
  | dictTerminal {v : DictOrSetLiteral Nat}
      (part : Derives limits input (.rule .dictOrSetLiteral) i w j v) :
      Derives limits input (.rule .terminal) i w j (.dictOrSet i v)
  | parenTerminal {v : Expr Nat}
      (part : Derives limits input (.between "(" ")" (.rule .expr)) i w j v) :
      Derives limits input (.rule .terminal) i w j (.paren i v)
  | literalTerminal {v : Literal Nat} (part : Derives limits input (.rule .literal) i w j v) :
      Derives limits input (.rule .terminal) i w j (.literal i v)
  | referenceTerminal {v : Reference Nat}
      (part : Derives limits input (.rule .reference) i w j v) :
      Derives limits input (.rule .terminal) i w j (.reference i v)
  | number {x : String} {v : Decimal.Binary64}
      (part : Derives limits input (.token .number) i w j x)
      (denotes : Decimal.Binary64.ofText? x.toList = some v) :
      Derives limits input (.rule .literal) i w j ⟨i, .number v⟩
  | string {x : String} (part : Derives limits input (.token .string) i w j x) :
      Derives limits input (.rule .literal) i w j ⟨i, .string x⟩
  | reference {x : String} {ss : List (Selector Nat)}
      (name : Derives limits input (.token .ident) i w₁ j x)
      (next : Derives limits input (.star (.rule .selector)) j w₂ k ss) :
      Derives limits input (.rule .reference) i (w₁ ++ w₂) k ⟨i, x, ss⟩
  | memberSelector {x : String}
      (part : Derives limits input (.after "." (.token .ident)) i w j x) :
      Derives limits input (.rule .selector) i w j (.member i x)
  | indexSelector {e : Expr Nat}
      (part : Derives limits input (.between "[" "]" (.rule .expr)) i w j e) :
      Derives limits input (.rule .selector) i w j (.index i e)
  | callSelector {c : Call Nat} (part : Derives limits input (.rule .call) i w j c) :
      Derives limits input (.rule .selector) i w j (.call i c)
  | call {vs : List (Expr Nat)}
      (part : Derives limits input (.listed "(" ")" (.rule .expr)) i w j vs) :
      Derives limits input (.rule .call) i w j ⟨i, vs⟩
  | arrayLiteral {vs : List (Expr Nat)}
      (part : Derives limits input (.listed "[" "]" (.rule .expr)) i w j vs) :
      Derives limits input (.rule .arrayLiteral) i w j ⟨i, vs⟩
  | dictOrSetLiteral {vs : List (Entry Nat)}
      (part : Derives limits input (.listed "\x7b" "\x7d" (.rule .entry)) i w j vs) :
      Derives limits input (.rule .dictOrSetLiteral) i w j ⟨i, vs⟩
  | entry {a : Expr Nat} {b : Option (Expr Nat)}
      (key : Derives limits input (.rule .expr) i w₁ j a)
      (value : Derives limits input (.optional (.after ":" (.rule .expr))) j w₂ k b) :
      Derives limits input (.rule .entry) i (w₁ ++ w₂) k ⟨i, a, b⟩

theorem drop_tokenAt {input : Array Lexeme} {i : Nat} (h : (tokenAt input i).kind ≠ .eof) :
    input.toList.drop i = tokenAt input i :: input.toList.drop (i + 1) := by
  unfold tokenAt at h ⊢
  rw [← Array.getElem?_toList] at h ⊢
  cases hl : input.toList[i]? with
  | none =>
    rw [hl] at h
    exact absurd rfl h
  | some l =>
    obtain ⟨hi, rfl⟩ := List.getElem?_eq_some_iff.mp hl
    exact List.drop_eq_getElem_cons hi

variable {limits : Limits} {input : Array Lexeme} {p : Phrase} {v : p.Result}

/-- The word of a derivation is what the input holds there. -/
theorem Derives.tokens (h : Derives limits input p i w j v) :
    input.toList.drop i = Slot.yield w ++ input.toList.drop j := by
  induction h with
  | literal spelt => exact drop_tokenAt (Lexeme.kind_ne_eof_of_spells spelt)
  | token solid found => exact drop_tokenAt (by rwa [found])
  | separatorPresent found =>
    rw [drop_tokenAt (by simp [found]), found]
    rfl
  | separatorAbsent => rfl
  | modifiersCons found rest ih =>
    rw [drop_tokenAt (by simp [found]), ih]
    rfl
  | operation left found above leaves right ihl ihr =>
    rw [ihl, drop_tokenAt (by simp [Lexeme.kind_of_binaryOperator found]), ihr]
    simp
  | prefixed known spelt operand ih =>
    rw [drop_tokenAt (Lexeme.kind_ne_eof_of_spells spelt), ih]
    rfl
  | _ => simp only [Slot.yield_append, Slot.yield_nil, Slot.yield_pinned, List.append_assoc,
      List.nil_append, *]

theorem Derives.length (h : Derives limits input p i w j v) :
    j = i + (Slot.yield w).length := by
  induction h with
  | literal | token | separatorPresent | separatorAbsent => rfl
  | _ =>
    first
    | assumption
    | simp only [Slot.yield_append, Slot.yield_token, Slot.yield_nil, Slot.yield_pinned,
        List.length_append, List.length_cons, List.length_nil]
      omega

theorem Derives.le (h : Derives limits input p i w j v) : i ≤ j := by
  rw [h.length]
  exact Nat.le_add_right i _

theorem Derives.word (h : Derives limits input p i w j v) :
    (input.extract i j).toList = Slot.yield w := by
  rw [Array.toList_extract, List.extract_eq_take_drop, h.tokens, h.length, Nat.add_sub_cancel_left,
    List.take_left]

/-- No word goes past the end of the input. -/
theorem Derives.solid (h : Derives limits input p i w j v) :
    ∀ l ∈ Slot.yield w, l.kind ≠ .eof := by
  induction h with
  | literal spelt => simpa using Lexeme.kind_ne_eof_of_spells spelt
  | token solid found => simpa [found] using solid
  | separatorPresent => simp [Slot.yield, Slot.lexemes]
  | separatorAbsent => simp [Slot.yield, Slot.lexemes]
  | modifiersCons found rest ih => simpa [found] using ih
  | operation left found above leaves right ihl ihr =>
    have hk := Lexeme.kind_of_binaryOperator found
    simpa [hk, or_imp, forall_and] using ⟨ihl, ihr⟩
  | prefixed known spelt operand ih =>
    simpa using ⟨Lexeme.kind_ne_eof_of_spells spelt, ih⟩
  | _ => grind [Slot.yield_append, Slot.yield_nil, Slot.yield_pinned]

end Syntree
