import Syntree.Tree.Walk
import Syntree.Position
import Syntree.Error.Diagnostic

/-!
A summary lists every declaration of a tree, at whatever depth.
-/

namespace Syntree

structure SummaryEntry where
  pos : Position
  word : String
  name : String
deriving DecidableEq, Repr

namespace SummaryEntry

/-- The entry of a node that declares something. -/
def ofNode? : Node Position → Option SummaryEntry
  | .importDecl d => some ⟨d.pos, "import", d.given.getD d.path⟩
  | .enumDecl d => some ⟨d.pos, "enum", d.type.name⟩
  | .caseDecl d => some ⟨d.pos, "case", d.name⟩
  | .classDecl d => some ⟨d.pos, "class", d.type.name⟩
  | .initialiserDecl d => some ⟨d.pos, "init", "init"⟩
  | .varBinding v => some ⟨v.pos, "let", v.name⟩
  | .funcDecl d =>
    some ⟨d.pos, "fn", d.name ++ "(" ++ String.intercalate ", " d.parameterNames ++ ")"⟩
  | _ => none

def line (e : SummaryEntry) : String :=
  Text.padRight 12 e.pos.shown ++ " " ++ Text.padRight 6 e.word ++ " " ++ e.name ++ "\n"

end SummaryEntry

/-- The visitor that collects entries, the last one first. -/
def Ast.collect (n : Node Position) (entries : List SummaryEntry) :
    Verdict Empty × List SummaryEntry :=
  (.proceed, (SummaryEntry.ofNode? n).toList ++ entries)

def Ast.summary (a : Ast Position) : List SummaryEntry :=
  (visit Ast.collect (.ast a) []).2.reverse

def Ast.summaryText (a : Ast Position) : String :=
  String.join (a.summary.map SummaryEntry.line) ++ toString a.summary.length ++ " declarations\n"

end Syntree
