import Syntree.Proofs.Follow
import Syntree.Proofs.Soundness
import Syntree.Proofs.Subtrees
import Syntree.Proofs.Tiling

/-!
Where nodes stand.

A node stands at the first token of its own word, and the words of its children lie behind one
another within it. Tokens stand further on in the source the higher their index, so that what holds
of indices holds of offsets.
-/

namespace Syntree

open Grammar (tokenAt)

/-- Whether the children of a node stand where it does or behind it, and each of them behind all of
the ones before it. -/
structure Node.InOrder {π : Type} (key : π → Nat) (n : Node π) : Prop where
  first : ∀ c ∈ n.children, key n.pos ≤ key c.pos
  next : n.children.Pairwise fun c c' => ∀ m ∈ c.subtree, key m.pos < key c'.pos

namespace Node

variable {π ρ : Type} {key : π → Nat} {n : Node π}

theorem pos_le_of_inOrder (h : ∀ m ∈ n.subtree, m.InOrder key) :
    ∀ m ∈ n.subtree, key n.pos ≤ key m.pos := by
  induction n using induction with
  | step n ih =>
    intro m hm
    rcases mem_subtree.mp hm with rfl | ⟨c, hc, hm⟩
    · exact Nat.le_refl _
    · have hc' : ∀ m ∈ c.subtree, m.InOrder key := fun m hm =>
        h m (mem_subtree.mpr (.inr ⟨c, hc, hm⟩))
      exact Nat.le_trans ((h n n.self_mem_subtree).first c hc) (ih c hc hc' m hm)

/-- In preorder the nodes of an ordered tree never go back. -/
theorem subtree_sorted (h : ∀ m ∈ n.subtree, m.InOrder key) :
    n.subtree.Pairwise fun m m' => key m.pos ≤ key m'.pos := by
  induction n using induction with
  | step n ih =>
    have hchild {c : Node π} (hc : c ∈ n.children) : ∀ m ∈ c.subtree, m.InOrder key :=
      fun m hm => h m (mem_subtree.mpr (.inr ⟨c, hc, hm⟩))
    have hroot := pos_le_of_inOrder h
    rw [subtree_eq] at hroot ⊢
    refine List.pairwise_cons.mpr ⟨fun m hm => hroot m (List.mem_cons_of_mem _ hm), ?_⟩
    refine List.pairwise_flatMap.mpr ⟨fun c hc => ih c hc (hchild hc), ?_⟩
    refine ((h n n.self_mem_subtree).next.imp_of_mem fun hc hc' hlt m hm m' hm' => ?_)
    exact Nat.le_trans (Nat.le_of_lt (hlt m hm)) (pos_le_of_inOrder (hchild hc') m' hm')

/-- Order does not depend on how positions are counted, up to a bound on all of them. -/
theorem InOrder.map {n : Node Nat} {f : Nat → π} {bound : Nat}
    (hf : ∀ i j, i < j → j ≤ bound → key (f i) < key (f j)) (h : n.InOrder id)
    (hb : ∀ m ∈ n.subtree, m.pos ≤ bound) : (n.map f).InOrder key := by
  have hchild {c : Node Nat} (hc : c ∈ n.children) : c.pos ≤ bound :=
    hb c (mem_subtree.mpr (.inr ⟨c, hc, c.self_mem_subtree⟩))
  constructor
  · rw [children_map, List.forall_mem_map]
    intro c hc
    rw [pos_map, pos_map]
    rcases Nat.lt_or_eq_of_le (h.first c hc) with hlt | heq
    · exact Nat.le_of_lt (hf _ _ hlt (hchild hc))
    · exact Nat.le_of_eq (congrArg (key ∘ f) heq)
  · rw [children_map, List.pairwise_map]
    refine h.next.imp_of_mem fun hc hc' hlt => ?_
    rw [subtree_map, List.forall_mem_map]
    intro m hm
    rw [pos_map, pos_map]
    exact hf _ _ (hlt m hm) (hchild hc')

end Node

/-! Words -/

/-- The nodes that a phrase adds to the children of the node it is part of. A whole tree is part of
none. -/
def Phrase.nodes : (p : Phrase) → p.Result → List (Node Nat)
  | literal _, _ | token _, _ | flag _, _ | separator _, _ | modifiers, _ | rule .ast, _ => []
  | rule r, v => [r.toNode v]
  | optional p, o => o.toList.flatMap p.nodes
  | after _ p, v | between _ _ p, v => p.nodes v
  | star p, vs | separated _ p, vs | listed _ _ p, vs | body p, vs => vs.flatMap p.nodes
  | typeParameters, vs => vs.flatMap fun v => [.typeParam v]
  | rootKind, d | classKind, d | enumKind, d => [d.node]
  | caseHead, c => c.toList.flatMap fun v => [.caseSelect v]

theorem flatMap_getD {α β : Type} (f : α → List β) (o : Option (List α)) :
    (o.getD []).flatMap f = o.toList.flatMap (·.flatMap f) := by
  cases o <;> simp

/-- Whether a rule has read a node from the tokens behind where it stands. -/
def Node.Read (input : Array Lexeme) (n : Node Nat) : Prop :=
  ∃ r v w j, n = r.toNode v ∧ Derives .standard input (.rule r) n.pos w j v

/-- Nodes whose words lie behind one another between the indices `i` and `j`. -/
structure Laid (input : Array Lexeme) (ns : List (Node Nat)) (i j : Nat) : Prop where
  le : i ≤ j
  within : ∀ n ∈ ns, ∀ m ∈ n.subtree, i ≤ m.pos ∧ m.pos < j
  apart : ns.Pairwise fun n n' => ∀ m ∈ n.subtree, m.pos < n'.pos
  inside : ∀ n ∈ ns, ∀ m ∈ n.subtree, m.Read input ∧ m.InOrder id

section Words

variable {input : Array Lexeme} {p : Phrase} {v : p.Result} {ns ns' : List (Node Nat)}
  {i j k : Nat} {w : List Slot}

/-- What a rule reads stands where its word starts. -/
def Phrase.Begins : (p : Phrase) → p.Result → Nat → Prop
  | rule r, v, i => (r.toNode v).pos = i
  | _, _, _ => True

theorem Derives.begins {limits : Limits} (h : Derives limits input p i w j v) : p.Begins v i := by
  induction h with
  | expr _ ih | operand _ ih | operation _ _ _ _ _ ih | terminal _ ih => exact ih
  | _ => first | exact trivial | exact rfl

namespace Laid

theorem nil (h : i ≤ j) : Laid input [] i j := ⟨h, (by simp), .nil, (by simp)⟩

theorem append (h : Laid input ns i j) (h' : Laid input ns' j k) : Laid input (ns ++ ns') i k where
  le := Nat.le_trans h.le h'.le
  within n hn m hm := by
    have hle := h.le
    have hle' := h'.le
    rcases List.mem_append.mp hn with hn | hn
    · have hb := h.within n hn m hm
      omega
    · have hb := h'.within n hn m hm
      omega
  apart := by
    refine List.pairwise_append.mpr ⟨h.apart, h'.apart, fun n hn n' hn' m hm => ?_⟩
    exact Nat.lt_of_lt_of_le (h.within n hn m hm).2 (h'.within n' hn' n' n'.self_mem_subtree).1
  inside n hn := (List.mem_append.mp hn).elim (h.inside n) (h'.inside n)

theorem before (h : Laid input ns i j) (hk : j ≤ k) : Laid input ns i k := by
  simpa using h.append (.nil hk)

theorem behind (h : Laid input ns j k) (hi : i ≤ j) : Laid input ns i k :=
  (nil hi).append h

/-- A node around nodes that are laid out within its word. -/
theorem node {r : Rule} {v : r.Result} (h : Derives .standard input (.rule r) i w j v)
    (hr : r ≠ .ast) (hc : Laid input (r.toNode v).children i j) :
    Laid input [r.toNode v] i j := by
  have hpos : (r.toNode v).pos = i := h.begins
  have hlt : i < j := by
    rcases h.first with ⟨hlt, -⟩ | ⟨-, hn⟩
    · exact hlt
    · cases r <;> first | exact absurd rfl hr | cases hn
  have hin : (r.toNode v).InOrder id :=
    ⟨fun c hm => by
      rw [hpos]
      exact (hc.within c hm c c.self_mem_subtree).1, hc.apart⟩
  have hread : (r.toNode v).Read input := ⟨r, v, w, j, rfl, by rwa [hpos]⟩
  refine ⟨h.le, ?_, List.pairwise_singleton _ _, ?_⟩ <;>
    refine List.forall_mem_singleton.mpr fun m hm => ?_ <;>
    rcases Node.mem_subtree.mp hm with rfl | ⟨c, hm, hm'⟩
  · exact ⟨Nat.le_of_eq hpos.symm, hpos ▸ hlt⟩
  · exact hc.within c hm m hm'
  · exact ⟨hread, hin⟩
  · exact hc.inside c hm m hm'

end Laid

/-- The nodes of a phrase are laid out within its word. -/
theorem Derives.laid (h : Derives .standard input p i w j v) : Laid input (p.nodes v) i j := by
  induction h with
  | literal | token | separatorPresent => exact .nil (Nat.le_succ _)
  | flagAbsent | separatorAbsent | modifiersNil | optionalNone | starNil | bodyEmpty =>
    exact .nil (Nat.le_refl _)
  | flagPresent mark => exact .nil mark.le
  | modifiersCons _ rest => exact .nil (Nat.le_trans (Nat.le_succ _) rest.le)
  | ast declarations => exact .nil declarations.le
  -- Phrases
  | optionalSome _ ih => simpa [Phrase.nodes] using ih
  | memberKind _ ih | caseKind _ ih | varKind _ ih | funcKind _ ih | innerClass _ ih
  | innerEnum _ ih | initialiserKind _ ih | expr _ ih => exact ih
  | after _ _ ihm ih => exact ihm.append ih
  | between _ _ _ iho ih ihc => exact (iho.append ih).before ihc.le
  | starCons _ _ ihf ihr | separated _ _ ihf ihr => exact ihf.append ihr
  | listed _ _ last closed iho ihi =>
    have hitems := (iho.append ihi).before (Nat.le_trans last.le closed.le)
    rwa [Phrase.nodes, flatMap_getD]
  | body _ last ih => exact ih.before last.le
  | typeParameters _ _ _ last closed iho ihi =>
    exact (iho.append ihi).before (Nat.le_trans last.le closed.le)
  | rootClass _ last ih | rootImport _ last ih | rootEnum _ last ih | rootFunc _ last ih
  | rootVar _ last ih => exact ih.before last.le
  | defaultHead mark => exact .nil mark.le
  | selectHead _ ih => exact ih
  -- Types
  | typeDecl name parameters ihn ihp =>
    refine .node (.typeDecl name parameters) (by simp) ?_
    simpa [Rule.toNode, Node.children, Phrase.nodes, List.map_eq_flatMap, flatMap_getD] using
      ihn.append ihp
  | typeParam name constraints ihn ihc =>
    refine .node (.typeParam name constraints) (by simp) ?_
    simpa [Rule.toNode, Node.children, Phrase.nodes, List.map_eq_flatMap, flatMap_getD] using
      ihn.append ihc
  -- Declarations
  | rootDecl modifiers decl ihm ihd =>
    exact .node (.rootDecl modifiers decl) (by simp) (ihm.append ihd)
  | enumMember modifiers decl ihm ihd =>
    exact .node (.enumMember modifiers decl) (by simp) (ihm.append ihd)
  | classMember modifiers decl ihm ihd =>
    exact .node (.classMember modifiers decl) (by simp) (ihm.append ihd)
  | importDecl mark given text =>
    have h : Derives .standard input _ _ _ _ _ := .importDecl mark given text
    exact .node h (by simp) (.nil h.le)
  | enumDecl mark type members ihk iht ihm =>
    refine .node (.enumDecl mark type members) (by simp) ?_
    simpa [Rule.toNode, Node.children, Phrase.nodes, List.map_eq_flatMap] using
      (ihk.append iht).append ihm
  | classDecl mark type members ihk iht ihm =>
    refine .node (.classDecl mark type members) (by simp) ?_
    simpa [Rule.toNode, Node.children, Phrase.nodes, List.map_eq_flatMap] using
      (ihk.append iht).append ihm
  | caseDecl mark name payload ihk ihn ihp =>
    refine .node (.caseDecl mark name payload) (by simp) ?_
    simpa [Rule.toNode, Node.children, Phrase.nodes, List.map_eq_flatMap] using
      (ihk.append ihn).append ihp
  | initialiserDecl mark parameters throws body ihk ihp iht ihb =>
    refine .node (.initialiserDecl mark parameters throws body) (by simp) ?_
    simpa [Rule.toNode, Node.children, Phrase.nodes, List.map_eq_flatMap] using
      ((ihk.append ihp).append iht).append ihb
  | parameters names mark type _ _ iht =>
    exact .node (.parameters names mark type) (by simp) (iht.behind (Nat.le_trans names.le mark.le))
  | varDecl mark vars ihk ihv =>
    refine .node (.varDecl mark vars) (by simp) ?_
    simpa [Rule.toNode, Node.children, Phrase.nodes, List.map_eq_flatMap] using ihk.append ihv
  | varBinding name type value ihn iht ihv =>
    refine .node (.varBinding name type value) (by simp) ?_
    simpa [Rule.toNode, Node.children, Phrase.nodes, List.map_eq_flatMap] using
      (ihn.append iht).append ihv
  | funcDecl mark name parameters throws result body ihk ihn ihp iht ihr ihb =>
    refine .node (.funcDecl mark name parameters throws result body) (by simp) ?_
    simpa [Rule.toNode, Node.children, Phrase.nodes, List.map_eq_flatMap] using
      ((((ihk.append ihn).append ihp).append iht).append ihr).append ihb
  -- Statements
  | retStmt part ih => exact .node (.retStmt part) (by simp) ih
  | condStmt part ih => exact .node (.condStmt part) (by simp) ih
  | loopStmt part ih => exact .node (.loopStmt part) (by simp) ih
  | chooseStmt part ih => exact .node (.chooseStmt part) (by simp) ih
  | blockStmt part ih => exact .node (.blockStmt part) (by simp) ih
  | varStmt part ih => exact .node (.varStmt part) (by simp) ih
  | funcStmt part ih => exact .node (.funcStmt part) (by simp) ih
  | classStmt part ih => exact .node (.classStmt part) (by simp) ih
  | enumStmt part ih => exact .node (.enumStmt part) (by simp) ih
  | exprStmt opens part ih => exact .node (.exprStmt opens part) (by simp) ih
  | block statements ih =>
    refine .node (.block statements) (by simp) ?_
    rwa [Rule.toNode, Node.children, List.map_eq_flatMap]
  | returnStmt mark value ihk ihv =>
    refine .node (.returnStmt mark value) (by simp) ?_
    rw [Rule.toNode, Node.children, List.map_eq_flatMap]
    exact ihk.append ihv
  | ifStmt mark condition main otherwise ihk ihc ihm iho =>
    refine .node (.ifStmt mark condition main otherwise) (by simp) ?_
    rw [Rule.toNode, Node.children, List.map_eq_flatMap]
    exact ((ihk.append ihc).append ihm).append iho
  | forStmt mark target inside source body ihk iht ihi ihs ihb =>
    exact .node (.forStmt mark target inside source body) (by simp)
      ((((ihk.append iht).append ihi).append ihs).append ihb)
  | switchStmt mark target cases ihk iht ihc =>
    refine .node (.switchStmt mark target cases) (by simp) ?_
    rw [Rule.toNode, Node.children, List.map_eq_flatMap]
    exact (ihk.append iht).append ihc
  | caseStmt selector mark body ihs ihk ihb =>
    refine .node (.caseStmt selector mark body) (by simp) ?_
    rw [Rule.toNode, Node.children, List.map_eq_flatMap, List.map_eq_flatMap]
    exact (ihs.before mark.le).append ihb
  | enumSelect part ih => exact .node (.enumSelect part) (by simp) ih
  | exprSelect part ih => exact .node (.exprSelect part) (by simp) ih
  | enumCase mark variant binding =>
    have h : Derives .standard input _ _ _ _ _ := .enumCase mark variant binding
    exact .node h (by simp) (.nil h.le)
  -- Expressions
  | operand part ih => exact .node (.operand part) (by simp) ih
  | operation left found above leaves right ihl ihr =>
    exact .node (.operation left found above leaves right) (by simp)
      ((ihl.before (Nat.le_succ _)).append ihr)
  | prefixed known spelt operand ih =>
    exact .node (.prefixed known spelt operand) (by simp) (ih.behind (Nat.le_succ _))
  | terminal part ih => exact .node (.terminal part) (by simp) ih
  | arrayTerminal part ih => exact .node (.arrayTerminal part) (by simp) ih
  | dictTerminal part ih => exact .node (.dictTerminal part) (by simp) ih
  | parenTerminal part ih => exact .node (.parenTerminal part) (by simp) ih
  | literalTerminal part ih => exact .node (.literalTerminal part) (by simp) ih
  | referenceTerminal part ih => exact .node (.referenceTerminal part) (by simp) ih
  | number part denotes => exact .node (.number part denotes) (by simp) (.nil part.le)
  | string part => exact .node (.string part) (by simp) (.nil part.le)
  | reference name next ihn ihs =>
    refine .node (.reference name next) (by simp) ?_
    rw [Rule.toNode, Node.children, List.map_eq_flatMap]
    exact ihn.append ihs
  | memberSelector part => exact .node (.memberSelector part) (by simp) (.nil part.le)
  | indexSelector part ih => exact .node (.indexSelector part) (by simp) ih
  | callSelector part ih => exact .node (.callSelector part) (by simp) ih
  | call part ih =>
    refine .node (.call part) (by simp) ?_
    rwa [Rule.toNode, Node.children, List.map_eq_flatMap]
  | arrayLiteral part ih =>
    refine .node (.arrayLiteral part) (by simp) ?_
    rwa [Rule.toNode, Node.children, List.map_eq_flatMap]
  | dictOrSetLiteral part ih =>
    refine .node (.dictOrSetLiteral part) (by simp) ?_
    rwa [Rule.toNode, Node.children, List.map_eq_flatMap]
  | entry key value ihk ihv =>
    refine .node (.entry key value) (by simp) ?_
    rw [Rule.toNode, Node.children, List.map_eq_flatMap]
    exact ihk.append ihv

/-- The whole tree. -/
theorem Derives.ast_inside {b : Ast Nat} (h : Derives .standard input (.rule .ast) i w j b) :
    ∀ n ∈ (Node.ast b).subtree, n.pos ≤ j ∧ n.Read input ∧ n.InOrder id := by
  have hpos : (Node.ast b).pos = i := h.begins
  have hroot : (Node.ast b).Read input := ⟨.ast, b, w, j, rfl, by rwa [hpos]⟩
  have hle := h.le
  cases h with
  | @ast _ _ _ ds declarations ended =>
    have hlaid := declarations.laid
    have hc : (Node.ast ⟨i, ds⟩).children = ds.flatMap (Phrase.rule .rootDecl).nodes :=
      List.map_eq_flatMap ..
    rw [Phrase.nodes, ← hc] at hlaid
    intro n hn
    rcases Node.mem_subtree.mp hn with rfl | ⟨c, hm, hn⟩
    · exact ⟨hle, hroot, fun c hm => (hlaid.within c hm c c.self_mem_subtree).1, hlaid.apart⟩
    · exact ⟨Nat.le_of_lt (hlaid.within c hm n hn).2, hlaid.inside c hm n hn⟩

end Words

/-! Offsets -/

namespace Lexical

variable {file : String} {before : List Char} {ps : List Piece}

/-- Nothing that is placed behind a text stands within it. -/
theorem placed_offset_le (hsize : bytes (before ++ ps.flatMap (·.text)) < 2 ^ 32) :
    ∀ t ∈ placed file (.behind before) ps ++
      [eofAt (.ofPlace file (.behind (before ++ ps.flatMap (·.text))))],
      bytes before ≤ t.span.start.offset.toNat := by
  induction ps generalizing before with
  | nil =>
    have hb : bytes before < 2 ^ 32 := by simpa using hsize
    intro t ht
    rw [List.flatMap_nil, List.append_nil] at ht
    obtain rfl := List.mem_singleton.mp ht
    exact Nat.le_of_eq (Position.marks_behind file hb).offset.symm
  | cons q ps ih =>
    rw [List.flatMap_cons, ← List.append_assoc] at hsize
    have hle : bytes before ≤ bytes (before ++ q.text) := by
      rw [bytes_append]
      exact Nat.le_add_right ..
    have hb : bytes before < 2 ^ 32 := by
      rw [bytes_append] at hsize
      omega
    intro t ht
    rw [placed, Place.behind_after, List.cons_append, List.flatMap_cons, ← List.append_assoc before]
      at ht
    rcases List.mem_cons.mp ht with rfl | ht
    · exact Nat.le_of_eq (Position.marks_behind file hb).offset.symm
    · exact Nat.le_trans hle (ih hsize t ht)

/-- Of two pieces the later one stands further on. -/
theorem placed_increasing (hc : ∀ q ∈ ps, Cut q)
    (hsize : bytes (before ++ ps.flatMap (·.text)) < 2 ^ 32) :
    (placed file (.behind before) ps ++
      [eofAt (.ofPlace file (.behind (before ++ ps.flatMap (·.text))))]).Pairwise
      fun t t' => t.span.start.offset < t'.span.start.offset := by
  induction ps generalizing before with
  | nil => exact List.pairwise_singleton _ _
  | cons q ps ih =>
    rw [List.flatMap_cons, ← List.append_assoc] at hsize
    have hlt : bytes before < bytes (before ++ q.text) := by
      have hp := bytes_pos (hc q List.mem_cons_self).text_ne_nil
      rw [bytes_append]
      omega
    have hb : bytes before < 2 ^ 32 := by
      rw [bytes_append] at hsize
      omega
    rw [placed, Place.behind_after, List.cons_append, List.flatMap_cons, ← List.append_assoc before]
    refine List.pairwise_cons.mpr ⟨fun t ht => ?_, ih (fun r hr => hc r (by simp [hr])) hsize⟩
    rw [UInt32.lt_iff_toNat_lt, (Position.marks_behind file hb).offset]
    exact Nat.lt_of_lt_of_le hlt (placed_offset_le hsize t ht)

end Lexical

theorem tokenize_increasing {file source : String} {tokens : List Token}
    (h : tokenize file source = .ok tokens) (hsize : source.utf8ByteSize < 2 ^ 32) :
    tokens.Pairwise fun t t' => t.span.start.offset < t'.span.start.offset := by
  unfold tokenize at h
  cases hs : scan file source with
  | error e => simp [hs, Except.map] at h
  | ok all =>
    obtain ⟨ps, hp, rfl⟩ := scan_eq hs
    have htext : ps.flatMap (·.text) = source.toList := Lexical.text_of_pieces hp
    have hb : bytes ([] ++ ps.flatMap (·.text)) < 2 ^ 32 := by
      rwa [List.nil_append, htext, bytes_toList]
    have hc : ∀ q ∈ ps, Lexical.Cut q := fun q hq => Lexical.cut_of_mem_pieces (by rwa [hp])
    simp only [hs, Except.map, Except.ok.injEq] at h
    have hall := @Lexical.placed_increasing file [] ps hc hb
    rw [← Lexical.endOf_behind] at hall
    rw [← h]
    exact hall.filter _

theorem TokenStream.position_of_getElem? {ts : TokenStream} {i : Nat} {t : Token}
    (h : ts.tokens[i]? = some t) : ts.position i = t.span.start := by
  have hi : i < ts.tokens.size := (Array.getElem?_eq_some_iff.mp h).1
  have hmin : min i (ts.tokens.size - 1) = i := Nat.min_eq_left (by omega)
  rw [position, hmin, h]

theorem tokenize_stream {file source : String} {tokens : List Token}
    (h : tokenize file source = .ok tokens) :
    (TokenStream.ofTokens tokens).tokens = tokens.toArray := by
  obtain ⟨ps, p, -, rfl⟩ := tokenize_eq h
  exact TokenStream.ofTokens_eof ..

/-- A tree that was found, with indices of tokens as positions, and what holds of all its nodes. -/
theorem TokenStream.tree_inside {ts : TokenStream} {a : Ast Position} (hi : LawfulInput ts.lexemes)
    (h : ts.tree = .ok a) : ∃ b, a = b.map ts.position ∧
      ∀ n ∈ (Node.ast b).subtree, n.pos < ts.tokens.size ∧ n.Read ts.lexemes ∧ n.InOrder id := by
  obtain ⟨b, s, hs, rfl⟩ := tree_ok h
  rw [reply_eq] at hs
  obtain ⟨w, hw⟩ := Rule.run_sound hi _ .ast .start b s hs
  obtain ⟨-, hlast⟩ := Derives.ast_word hi hw
  rw [lexemes, Array.size_map] at hlast
  refine ⟨b, rfl, fun n hn => ?_⟩
  obtain ⟨hle, hinside⟩ := hw.ast_inside n hn
  exact ⟨by omega, hinside⟩

/-- Every node stands at the first token of the text it was read from. So offsets never go back in
preorder, and a node stands behind all of the children before it of the same parent. -/
theorem parse_positions {file source : String} {a : Ast Position}
    (h : parse file source = .ok a) (hsize : source.utf8ByteSize < 2 ^ 32) :
    (∃ tokens b, tokenize file source = .ok tokens ∧
      a = b.map (TokenStream.ofTokens tokens).position ∧
      ∀ n ∈ (Node.ast b).subtree, ∃ r v w j t, n = r.toNode v ∧
        Derives .standard (TokenStream.ofTokens tokens).lexemes (.rule r) n.pos w j v ∧
        ((TokenStream.ofTokens tokens).lexemes.extract n.pos j).toList = Slot.yield w ∧
        tokens[n.pos]? = some t ∧
        (n.map (TokenStream.ofTokens tokens).position).pos = t.span.start) ∧
    (∀ n ∈ (Node.ast a).subtree,
      (∀ c, n.children.head? = some c → n.pos.offset ≤ c.pos.offset) ∧
      (n.children.Pairwise fun c c' => c.pos.offset < c'.pos.offset) ∧
      n.children.Pairwise fun c c' => ∀ m ∈ c.subtree, m.pos.offset < c'.pos.offset) ∧
    ((Node.ast a).preorder 0).Pairwise fun e e' => e.2.pos.offset ≤ e'.2.pos.offset := by
  obtain ⟨tokens, ht, ha⟩ := parse_ok h
  have hi := tokenize_lawful ht
  have hts := tokenize_stream ht
  obtain ⟨b, s, hs, rfl⟩ := TokenStream.tree_ok ha
  rw [TokenStream.reply_eq] at hs
  obtain ⟨w, hw⟩ := Rule.run_sound hi _ .ast .start b s hs
  have hin := hw.ast_inside
  obtain ⟨-, hlast⟩ := Derives.ast_word hi hw
  simp only [TokenStream.lexemes, Array.size_map, hts, List.size_toArray] at hlast
  have hat {i : Nat} (hi : i < tokens.length) :
      (TokenStream.ofTokens tokens).position i = tokens[i].span.start :=
    TokenStream.position_of_getElem? (by simp [hts, hi])
  have hmono (i j : Nat) (hij : i < j) (hj : j ≤ s.cursor) :
      ((TokenStream.ofTokens tokens).position i).offset.toNat <
        ((TokenStream.ofTokens tokens).position j).offset.toNat := by
    rw [hat (by omega), hat (by omega)]
    exact List.pairwise_iff_getElem.mp (tokenize_increasing ht hsize) i j _ _ hij
  have hordered : ∀ n ∈ (Node.ast (b.map ((TokenStream.ofTokens tokens).position))).subtree,
      n.InOrder fun p => p.offset.toNat := by
    rw [← Node.map, Node.subtree_map, List.forall_mem_map]
    exact fun n hn =>
      (hin n hn).2.2.map hmono fun m hm => (hin m (Node.subtree_trans hn hm)).1
  refine ⟨⟨tokens, b, ht, rfl, fun n hn => ?_⟩, fun n hn => ?_, ?_⟩
  · obtain ⟨hle, ⟨r, v, w, j, rfl, hd⟩, -⟩ := hin n hn
    have hlt : (r.toNode v).pos < tokens.length := by omega
    exact ⟨r, v, w, j, tokens[(r.toNode v).pos], rfl, hd, hd.word,
      List.getElem?_eq_getElem hlt, (Node.pos_map _ _).trans (hat hlt)⟩
  · have ho := hordered n hn
    refine ⟨fun c hc => ho.first c (List.mem_of_mem_head? hc), ?_, ho.next⟩
    exact ho.next.imp fun h => h _ (Node.self_mem_subtree _)
  · have hsorted := Node.subtree_sorted hordered
    rwa [Node.subtree, List.pairwise_map] at hsorted

/-- An operand with a sign, whose place is also that of the operation. -/
theorem parse_positions_operands :
    ∃ a, parse "f" "pub let x = -y*z;" = .ok a ∧
      ((Node.ast a).preorder 0).map (fun e => (e.2.kind, e.2.pos.offset.toNat)) =
        [(.ast, 0), (.rootDecl, 0), (.varDecl, 4), (.varBinding, 8), (.expr, 12), (.expr, 12),
          (.unary, 12), (.unary, 13), (.terminal, 13), (.reference, 13), (.expr, 15), (.unary, 15),
          (.terminal, 15), (.reference, 15)] ∧
      ((Node.ast a).preorder 0).Pairwise fun e e' => e.2.pos.offset ≤ e'.2.pos.offset := by
  have hok : (parse "f" "pub let x = -y*z;").isOk = true := by decide +kernel
  have hoffsets : (parse "f" "pub let x = -y*z;").toOption.map
      (fun a => ((Node.ast a).preorder 0).map fun e => (e.2.kind, e.2.pos.offset.toNat)) =
      some [(.ast, 0), (.rootDecl, 0), (.varDecl, 4), (.varBinding, 8), (.expr, 12), (.expr, 12),
        (.unary, 12), (.unary, 13), (.terminal, 13), (.reference, 13), (.expr, 15), (.unary, 15),
        (.terminal, 15), (.reference, 15)] := by decide +kernel
  obtain ⟨a, ha⟩ := Except.exists_of_isOk hok
  obtain ⟨-, -, hsorted⟩ := parse_positions ha (by decide +kernel)
  rw [ha] at hoffsets
  exact ⟨a, ha, Option.some.inj hoffsets, hsorted⟩

end Syntree
