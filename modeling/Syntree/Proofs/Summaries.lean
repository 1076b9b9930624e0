import Mathlib.Data.List.Forall2
import Syntree.Proofs.Placement
import Syntree.Proofs.Visiting
import Syntree.Summary

/-!
A summary has one entry for every declaration of a source, in the order in which they stand there.

The walk meets nodes in preorder, where a node may stand at the same place as what is in it. A
declaration does not: it starts with a word of its own, and all that it contains stands behind that.
-/

namespace Syntree

open Grammar (tokenAt)

/-- The kinds of nodes that declare something by themselves. -/
def NodeKind.declares : NodeKind → Bool
  | importDecl | enumDecl | caseDecl | classDecl | initialiserDecl | varBinding | funcDecl => true
  | _ => false

/-- What a summary says of a node that declares something: where it stands, which word announces
it, and what it declares. -/
inductive Summarised : Node Position → SummaryEntry → Prop
  | importAs {pos : Position} {name path : String} :
      Summarised (.importDecl ⟨pos, some name, path⟩) ⟨pos, "import", name⟩
  | importPath {pos : Position} {path : String} :
      Summarised (.importDecl ⟨pos, none, path⟩) ⟨pos, "import", path⟩
  | enumDecl {pos : Position} {type : TypeDecl Position} {members : List (EnumMember Position)} :
      Summarised (.enumDecl ⟨pos, type, members⟩) ⟨pos, "enum", type.name⟩
  | caseDecl {pos : Position} {name : String} {payload : Option (TypeDecl Position)} :
      Summarised (.caseDecl ⟨pos, name, payload⟩) ⟨pos, "case", name⟩
  | classDecl {pos : Position} {type : TypeDecl Position} {members : List (ClassMember Position)} :
      Summarised (.classDecl ⟨pos, type, members⟩) ⟨pos, "class", type.name⟩
  | initialiserDecl {pos : Position} {parameters : List (Parameters Position)} {throws : Bool}
      {body : Block Position} :
      Summarised (.initialiserDecl ⟨pos, parameters, throws, body⟩) ⟨pos, "init", "init"⟩
  | varBinding {pos : Position} {name : String} {type : Option (Reference Position)}
      {value : Option (Expr Position)} :
      Summarised (.varBinding ⟨pos, name, type, value⟩) ⟨pos, "let", name⟩
  | funcDecl {pos : Position} {name : String} {parameters : List (Parameters Position)}
      {throws : Bool} {result : Option (Reference Position)} {body : Block Position} :
      Summarised (.funcDecl ⟨pos, name, parameters, throws, result, body⟩)
        ⟨pos, "fn", name ++ "(" ++ String.intercalate ", " (parameters.flatMap (·.names)) ++ ")"⟩

/-- The row of an entry, which ends its line: where it stands, by file, line and column, then the
word and the name. Blanks fill up the first of these to twelve characters and the second to six. -/
inductive SummaryEntry.Prints : SummaryEntry → String → Prop
  | row {pos : Position} {word name place : String} {fill fill' : Nat}
      (stands : place =
        pos.file ++ ":" ++ toString pos.line.toNat ++ ":" ++ toString pos.column.toNat)
      (first : place.length + fill = max place.length 12)
      (second : word.length + fill' = max word.length 6) :
      Prints ⟨pos, word, name⟩ (place ++ String.ofList (List.replicate fill ' ') ++ " " ++
        word ++ String.ofList (List.replicate fill' ' ') ++ " " ++ name ++ "\n")

theorem Summarised.positions {ns : List (Node Position)} {es : List SummaryEntry}
    (h : List.Forall₂ Summarised ns es) : es.map (·.pos) = ns.map (·.pos) := by
  induction h with
  | nil => rfl
  | cons hn _ ih =>
    rw [List.map_cons, List.map_cons, ih]
    cases hn <;> rfl

/-! Collecting -/

theorem SummaryEntry.ofNode?_declares {n : Node Position} (h : n.kind.declares = true) :
    ∃ e, ofNode? n = some e ∧ Summarised n e := by
  cases n with
  | importDecl d =>
    obtain ⟨pos, given, path⟩ := d
    cases given with
    | none => exact ⟨_, rfl, .importPath⟩
    | some name => exact ⟨_, rfl, .importAs⟩
  | enumDecl d =>
    cases d
    exact ⟨_, rfl, .enumDecl⟩
  | caseDecl d => exact ⟨_, rfl, .caseDecl⟩
  | classDecl d =>
    cases d
    exact ⟨_, rfl, .classDecl⟩
  | initialiserDecl d =>
    cases d
    exact ⟨_, rfl, .initialiserDecl⟩
  | varBinding v => exact ⟨_, rfl, .varBinding⟩
  | funcDecl d =>
    cases d
    exact ⟨_, rfl, .funcDecl⟩
  | _ => cases h

theorem SummaryEntry.ofNode?_other {n : Node Position} (h : n.kind.declares = false) :
    ofNode? n = none := by
  cases n <;> first | rfl | cases h

theorem SummaryEntry.filterMap_ofNode? (ns : List (Node Position)) :
    List.Forall₂ Summarised (ns.filter (·.kind.declares)) (ns.filterMap ofNode?) := by
  induction ns with
  | nil => exact .nil
  | cons n ns ih =>
    cases h : n.kind.declares with
    | false =>
      rwa [List.filter_cons_of_neg (by simp [h]), List.filterMap_cons_none (ofNode?_other h)]
    | true =>
      obtain ⟨e, he, hn⟩ := ofNode?_declares h
      rw [List.filter_cons_of_pos (by simp [h]), List.filterMap_cons_some he]
      exact .cons hn ih

/-- The visitor is shown every node of a tree, and puts what it collects in front. -/
theorem Ast.visit_collect (n : Node Position) (entries : List SummaryEntry) :
    visit collect n entries =
      (.ok (), (n.subtree.filterMap SummaryEntry.ofNode?).reverse ++ entries) := by
  have inChildren (cs : List (Node Position)) (hc : ∀ c ∈ cs, ∀ entries, visit collect c entries =
      (.ok (), (c.subtree.filterMap SummaryEntry.ofNode?).reverse ++ entries))
      (entries : List SummaryEntry) : inTurn (visit collect) cs entries = (.ok (),
        ((cs.flatMap Node.subtree).filterMap SummaryEntry.ofNode?).reverse ++ entries) := by
    induction cs generalizing entries with
    | nil => rfl
    | cons c cs ih =>
      rw [inTurn, hc c List.mem_cons_self, List.flatMap_cons, List.filterMap_append,
        List.reverse_append, List.append_assoc]
      exact ih (fun c h => hc c (List.mem_cons_of_mem _ h)) _
  induction n using Node.induction generalizing entries with
  | step n ih =>
    rw [visit_eq, collect, Node.subtree_eq]
    simp only [inChildren n.children ih]
    cases he : SummaryEntry.ofNode? n with
    | none => rw [List.filterMap_cons_none he]; rfl
    | some e => simp [List.filterMap_cons_some he]

theorem Ast.summary_eq (a : Ast Position) :
    a.summary = (Node.ast a).subtree.filterMap SummaryEntry.ofNode? := by
  rw [summary, visit_collect, List.append_nil, List.reverse_reverse]

theorem SummaryEntry.prints_line (e : SummaryEntry) : e.Prints e.line := by
  obtain ⟨pos, word, name⟩ := e
  have hline : line ⟨pos, word, name⟩ =
      pos.shown ++ String.ofList (List.replicate (12 - pos.shown.length) ' ') ++ " " ++
        word ++ String.ofList (List.replicate (6 - word.length) ' ') ++ " " ++ name ++ "\n" := by
    simp only [line, Text.padRight, String.append_assoc]
  rw [hline]
  exact .row rfl (by omega) (by omega)

/-! Order -/

namespace Node

variable {π ρ : Type} {key : π → Nat} {n : Node π}

theorem kind_map (f : π → ρ) (n : Node π) : (n.map f).kind = n.kind := by
  cases n <;> rfl

/-- Whether a declaration stands before everything in it. -/
def Leads (key : π → Nat) (n : Node π) : Prop :=
  n.kind.declares = true → ∀ c ∈ n.children, ∀ m ∈ c.subtree, key n.pos < key m.pos

/-- In preorder everything behind a declaration stands further on. -/
theorem subtree_leads (h : ∀ m ∈ n.subtree, m.InOrder key ∧ m.Leads key) :
    n.subtree.Pairwise fun m m' => m.kind.declares = true → key m.pos < key m'.pos := by
  induction n using induction with
  | step n ih =>
    have hchild {c : Node π} (hc : c ∈ n.children) : ∀ m ∈ c.subtree, m.InOrder key ∧ m.Leads key :=
      fun m hm => h m (mem_subtree.mpr (.inr ⟨c, hc, hm⟩))
    obtain ⟨hin, hleads⟩ := h n n.self_mem_subtree
    rw [subtree_eq]
    refine List.pairwise_cons.mpr ⟨fun m hm hd => ?_, ?_⟩
    · obtain ⟨c, hc, hm⟩ := List.mem_flatMap.mp hm
      exact hleads hd c hc m hm
    · refine List.pairwise_flatMap.mpr ⟨fun c hc => ih c hc (hchild hc), ?_⟩
      refine hin.next.imp_of_mem fun hc hc' hlt m hm m' hm' _ => ?_
      have hle := pos_le_of_inOrder (fun m hm => (hchild hc' m hm).1) m' hm'
      exact Nat.lt_of_lt_of_le (hlt m hm) hle

end Node

section Words

variable {input : Array Lexeme} {r : Rule} {v : r.Result} {i j : Nat} {w : List Slot}

/-- A token is behind where its phrase starts. -/
theorem Derives.literal_lt {text : String} {limits : Limits} {u : Unit}
    (h : Derives limits input (.literal text) i w j u) : i < j := by
  cases h
  exact Nat.lt_succ_self i

theorem Laid.leads {n : Node Nat} {ns : List (Node Nat)} {k : Nat} (h : Laid input ns j k)
    (hc : n.children = ns) (hlt : n.pos < j) : n.Leads id := by
  subst hc
  exact fun _ c hc m hm => Nat.lt_of_lt_of_le hlt (h.within c hc m hm).1

section

attribute [local simp] Rule.toNode Node.children Phrase.nodes List.map_eq_flatMap

/-- The first word of a declaration belongs to none of its children. -/
theorem Derives.leads (h : Derives .standard input (.rule r) i w j v) :
    (r.toNode v).Leads id := by
  cases h with
  | importDecl => exact fun _ => by simp
  | enumDecl mark type members | classDecl mark type members =>
    exact (type.laid.append members.laid).leads (by simp) mark.literal_lt
  | caseDecl mark name payload =>
    exact (name.laid.append payload.laid).leads (by simp) mark.literal_lt
  | initialiserDecl mark parameters throws body =>
    exact ((parameters.laid.append throws.laid).append body.laid).leads (by simp) mark.literal_lt
  | varBinding name type value =>
    cases name
    exact (type.laid.append value.laid).leads (by simp) (Nat.lt_succ_self i)
  | funcDecl mark name parameters throws result body =>
    have hc := name.laid.append parameters.laid
    exact (((hc.append throws.laid).append result.laid).append body.laid).leads (by simp)
      mark.literal_lt
  | _ => exact fun hd => absurd hd Bool.false_ne_true

end

end Words

/-- The tokens of a source stand further on the higher their index. -/
theorem TokenStream.offset_lt {file source : String} {tokens : List Token}
    (h : tokenize file source = .ok tokens) (hsize : source.utf8ByteSize < 2 ^ 32) {i j : Nat}
    (hij : i < j) (hj : j < tokens.length) :
    ((TokenStream.ofTokens tokens).position i).offset <
      ((TokenStream.ofTokens tokens).position j).offset := by
  have hat {k : Nat} (hk : k < tokens.length) :
      (TokenStream.ofTokens tokens).position k = tokens[k].span.start :=
    TokenStream.position_of_getElem? (by simp [tokenize_stream h, hk])
  rw [hat (Nat.lt_trans hij hj), hat hj]
  exact List.pairwise_iff_getElem.mp (tokenize_increasing h hsize) i j _ _ hij

theorem parse_declarations_increasing {file source : String} {a : Ast Position}
    (h : parse file source = .ok a) (hsize : source.utf8ByteSize < 2 ^ 32) :
    (((Node.ast a).subtree.filter (·.kind.declares)).map (·.pos)).Pairwise fun p p' =>
      p.offset < p'.offset := by
  obtain ⟨tokens, ht, ha⟩ := parse_ok h
  obtain ⟨b, rfl, hin⟩ := TokenStream.tree_inside (tokenize_lawful ht) ha
  have hlength : (TokenStream.ofTokens tokens).tokens.size = tokens.length := by
    rw [tokenize_stream ht, List.size_toArray]
  have hleads : ∀ n ∈ (Node.ast b).subtree, n.InOrder id ∧ n.Leads id := by
    intro n hn
    obtain ⟨-, ⟨r, v, w, j, rfl, hd⟩, ho⟩ := hin n hn
    exact ⟨ho, hd.leads⟩
  have hmap : Node.ast (b.map (TokenStream.ofTokens tokens).position) =
      (Node.ast b).map (TokenStream.ofTokens tokens).position := rfl
  rw [hmap, Node.subtree_map, List.pairwise_map, List.pairwise_filter, List.pairwise_map]
  refine (Node.subtree_leads hleads).imp_of_mem fun hm hm' hlt hd _ => ?_
  rw [Node.kind_map] at hd
  rw [Node.pos_map, Node.pos_map]
  exact TokenStream.offset_lt ht hsize (hlt hd) (hlength ▸ (hin _ hm').1)

/-- A summary lists the declarations of a tree one by one, at whatever depth, in the order of the
source. It prints a row for each of them and counts them. -/
theorem summary_complete {file source : String} {a : Ast Position}
    (h : parse file source = .ok a) (hsize : source.utf8ByteSize < 2 ^ 32) :
    List.Forall₂ Summarised ((Node.ast a).held.filter (·.kind.declares)) a.summary ∧
    a.summary.Pairwise (fun e e' => e.pos.offset < e'.pos.offset) ∧
    ∃ rows, List.Forall₂ SummaryEntry.Prints a.summary rows ∧
      a.summaryText = String.join rows ++
        toString ((Node.ast a).held.countP (·.kind.declares)) ++ " declarations\n" := by
  rw [Node.held_eq_subtree]
  have hall : List.Forall₂ Summarised ((Node.ast a).subtree.filter (·.kind.declares))
      a.summary := by
    rw [Ast.summary_eq]
    exact SummaryEntry.filterMap_ofNode? _
  refine ⟨hall, ?_, a.summary.map SummaryEntry.line, ?_, ?_⟩
  · have hincreasing := parse_declarations_increasing h hsize
    rwa [← Summarised.positions hall, List.pairwise_map] at hincreasing
  · rw [List.forall₂_map_right_iff, List.forall₂_same]
    exact fun e _ => e.prints_line
  · rw [Ast.summaryText, List.countP_eq_length_filter, hall.length_eq]

/-- A class and a variable inside a function. -/
theorem summary_complete_nested :
    ∃ a rows, parse "f" "fn f(x: T) \x7b class A \x7b init() \x7b\x7d \x7d; let y \x7d" = .ok a ∧
      a.summary.map (fun e => (e.pos.offset.toNat, e.word, e.name)) =
        [(0, "fn", "f(x)"), (13, "class", "A"), (23, "init", "init"), (40, "let", "y")] ∧
      List.Forall₂ Summarised ((Node.ast a).held.filter (·.kind.declares)) a.summary ∧
      a.summary.Pairwise (fun e e' => e.pos.offset < e'.pos.offset) ∧
      List.Forall₂ SummaryEntry.Prints a.summary rows ∧
      a.summaryText = String.join rows ++ "4 declarations\n" ∧
      a.summaryText = "f:1:1        fn     f(x)\nf:1:14       class  A\n" ++
        "f:1:24       init   init\nf:1:41       let    y\n4 declarations\n" := by
  have hok : (parse "f"
      "fn f(x: T) \x7b class A \x7b init() \x7b\x7d \x7d; let y \x7d").isOk = true := by
    decide +kernel
  have hshown : (parse "f"
      "fn f(x: T) \x7b class A \x7b init() \x7b\x7d \x7d; let y \x7d").toOption.map
      (fun a => (a.summary.map (fun e => (e.pos.offset.toNat, e.word, e.name)),
        (Node.ast a).held.countP (·.kind.declares), a.summaryText)) =
      some ([(0, "fn", "f(x)"), (13, "class", "A"), (23, "init", "init"), (40, "let", "y")], 4,
        "f:1:1        fn     f(x)\nf:1:14       class  A\n" ++
          "f:1:24       init   init\nf:1:41       let    y\n4 declarations\n") := by
    decide +kernel
  obtain ⟨a, ha⟩ := Except.exists_of_isOk hok
  obtain ⟨hall, hincreasing, rows, hrows, htext⟩ := summary_complete ha (by decide +kernel)
  rw [ha] at hshown
  obtain ⟨hentries, hrest⟩ := Prod.mk.inj (Option.some.inj hshown)
  obtain ⟨hcount, hlisting⟩ := Prod.mk.inj hrest
  rw [hcount, String.append_assoc] at htext
  exact ⟨a, rows, ha, hentries, hall, hincreasing, hrows, htext, hlisting⟩

end Syntree
