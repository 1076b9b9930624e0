import Syntree.Proofs.Follow
import Syntree.Proofs.Positions

/-!
A word whose separators are put in and left out anew is derived again, from the same phrase and with
the same tree up to positions.
-/

namespace Syntree

open Grammar (tokenAt)

/-- `Moved input w i w' j`: the word `w'` is `w` with separators put in and left out anew, and its
tokens stand in the input from index `i` up to index `j`. -/
inductive Moved (input : Array Lexeme) : List Slot → Nat → List Slot → Nat → Prop where
  | nil : Moved input [] i [] i
  | token {l : Lexeme} (found : tokenAt input i = l) (rest : Moved input w (i + 1) w' j) :
      Moved input (.token l :: w) i (.token l :: w') j
  | present {text : String} {b : Bool} (found : tokenAt input i = ⟨.punct, text⟩)
      (rest : Moved input w (i + 1) w' j) :
      Moved input (.separator text b :: w) i (.separator text true :: w') j
  | absent {text : String} {b : Bool} (rest : Moved input w i w' j) :
      Moved input (.separator text b :: w) i (.separator text false :: w') j

variable {limits : Limits} {input : Array Lexeme} {w w' u : List Slot} {i j k : Nat}

theorem Moved.split (h : Moved input (w ++ u) i w' k) :
    ∃ v j v', w' = v ++ v' ∧ Moved input w i v j ∧ Moved input u j v' k := by
  induction w generalizing i w' with
  | nil => exact ⟨[], i, w', rfl, .nil, h⟩
  | cons s w ih =>
    cases h with
    | token found rest =>
      obtain ⟨v, j, v', rfl, hv, hv'⟩ := ih rest
      exact ⟨_, j, v', rfl, .token found hv, hv'⟩
    | present found rest =>
      obtain ⟨v, j, v', rfl, hv, hv'⟩ := ih rest
      exact ⟨_, j, v', rfl, .present found hv, hv'⟩
    | absent rest =>
      obtain ⟨v, j, v', rfl, hv, hv'⟩ := ih rest
      exact ⟨_, j, v', rfl, .absent hv, hv'⟩

/-- What is derived from a word is derived, up to `erase`, from every word that it moves to. -/
structure Again {α β : Type} (input : Array Lexeme) (derives : Nat → List Slot → Nat → α → Prop)
    (erase : α → β) (w : List Slot) (v : α) : Prop where
  derive {i j : Nat} {w' : List Slot} (moved : Moved input w i w' j) :
    ∃ v', derives i w' j v' ∧ erase v' = erase v

/-- One part after the other. -/
def Followed {α β : Type} (first : Nat → List Slot → Nat → α → Prop)
    (second : Nat → List Slot → Nat → β → Prop) (i : Nat) (w : List Slot) (k : Nat)
    (v : α × β) : Prop :=
  ∃ u j u', w = u ++ u' ∧ first i u j v.1 ∧ second j u' k v.2

theorem Again.followed {α β γ δ : Type} {first : Nat → List Slot → Nat → α → Prop}
    {second : Nat → List Slot → Nat → β → Prop} {erase : α → γ} {erase' : β → δ} {a : α} {b : β}
    (ha : Again input first erase w a) (hb : Again input second erase' u b) :
    Again input (Followed first second) (Prod.map erase erase') (w ++ u) (a, b) := by
  refine ⟨fun hm => ?_⟩
  obtain ⟨v, j, v', rfl, hv, hv'⟩ := hm.split
  obtain ⟨a', da, ea⟩ := ha.derive hv
  obtain ⟨b', db, eb⟩ := hb.derive hv'
  exact ⟨(a', b'), ⟨v, j, v', rfl, da, db⟩, by simp [ea, eb]⟩

section

variable {α β γ δ : Type} {first : Nat → List Slot → Nat → α → Prop}
  {second : Nat → List Slot → Nat → β → Prop} {third : Nat → List Slot → Nat → γ → Prop}
  {derives : Nat → List Slot → Nat → δ → Prop} {erase : α → α} {erase' : β → β} {erase'' : γ → γ}
  {erased : δ → δ} {a : α} {b : β} {c : γ} {d : δ}

/-- A node at some position, made of a part that is derived again. To erase the node is to erase the
part and to put the position to 0. -/
theorem Again.node (ha : Again input first erase w a) (node : Nat → α → δ)
    (build : ∀ {i w j x}, first i w j x → derives i w j (node i x))
    (herase : ∀ i x, erased (node i x) = node 0 (erase x)) (hd : ∃ i, node i a = d) :
    Again input derives erased w d := by
  obtain ⟨i, rfl⟩ := hd
  refine ⟨fun hm => ?_⟩
  obtain ⟨a', da, ea⟩ := ha.derive hm
  exact ⟨_, build da, by rw [herase, herase, ea]⟩

/-- A node made of two parts, one after the other. -/
theorem Again.node₂ (ha : Again input first erase w a) (hb : Again input second erase' u b)
    (node : Nat → α → β → δ)
    (build : ∀ {i w j u k x y}, first i w j x → second j u k y → derives i (w ++ u) k (node i x y))
    (herase : ∀ i x y, erased (node i x y) = node 0 (erase x) (erase' y))
    (hd : ∃ i, node i a b = d) : Again input derives erased (w ++ u) d := by
  refine (ha.followed hb).node (fun i x => node i x.1 x.2) ?_ (fun i x => herase i x.1 x.2) hd
  rintro i _ k x ⟨v, j, v', rfl, d₁, d₂⟩
  exact build d₁ d₂

theorem Again.node₃ (ha : Again input first erase w a) (hb : Again input second erase' w' b)
    (hc : Again input third erase'' u c) (node : Nat → α → β → γ → δ)
    (build : ∀ {i w j w' k u l x y z}, first i w j x → second j w' k y → third k u l z →
      derives i (w ++ w' ++ u) l (node i x y z))
    (herase : ∀ i x y z, erased (node i x y z) = node 0 (erase x) (erase' y) (erase'' z))
    (hd : ∃ i, node i a b c = d) : Again input derives erased (w ++ w' ++ u) d := by
  refine (ha.followed hb).node₂ hc (fun i x z => node i x.1 x.2 z) ?_
    (fun i x z => herase i x.1 x.2 z) hd
  rintro i _ k u l x z ⟨v, j, v', rfl, d₁, d₂⟩ d₃
  exact build d₁ d₂ d₃

end

/-- Whether a phrase asks for the end of the input. -/
def Phrase.closes : Phrase → Bool
  | rule .ast => true
  | optional p | after _ p | between _ _ p | star p | separated _ p | listed _ _ p | body p =>
    p.closes
  | _ => false

variable {p : Phrase} {v : p.Result} {input' : Array Lexeme}

theorem map_getD_nil {α β : Type} (f : α → β) (o : Option (List α)) :
    (o.getD []).map f = (o.map (List.map f)).getD [] := by
  cases o <;> rfl

/-- Only the last type parameter has constraints, wherever positions are. -/
theorem greedy_again {ps qs : List (TypeParam Nat)}
    (h : qs.map (TypeParam.map fun _ => 0) = ps.map (TypeParam.map fun _ => 0))
    (hg : ∀ p ∈ ps.dropLast, p.constraints = []) : ∀ q ∈ qs.dropLast, q.constraints = [] := by
  intro q hq
  have hm : q.map (fun _ => 0) ∈ ps.dropLast.map (TypeParam.map fun _ => 0) := by
    rw [List.map_dropLast, ← h, ← List.map_dropLast]
    exact List.mem_map_of_mem hq
  obtain ⟨p, hp, he⟩ := List.mem_map.mp hm
  have hc := congrArg TypeParam.constraints he
  simpa [TypeParam.map, hg p hp] using hc

/-- Which operators an expression leaves depends on its last operator only. -/
theorem leaves_again {a b : Expr Nat} {q : Power}
    (h : b.map (fun _ => 0) = a.map fun _ => 0) (ha : a.leaves q) : b.leaves q := by
  cases a with
  | unary =>
    cases b with
    | unary => trivial
    | binary => simp [Expr.map] at h
  | binary =>
    cases b with
    | unary => simp [Expr.map] at h
    | binary =>
      simp only [Expr.map, Expr.binary.injEq] at h
      obtain ⟨-, -, rfl, -⟩ := h
      exact ha

/-- Phrases that may start with a literal in braces. -/
def Phrase.maybeBrace : Phrase → Bool
  | rule .expr | rule (.binary _) | rule .unary | rule .terminal | rule .dictOrSetLiteral => true
  | _ => false

/-- A brace that a comma follows at the start of an expression is an empty literal. -/
theorem Derives.brace (hi : LawfulInput input) (h : Derives limits input p i w j v)
    (hp : p.maybeBrace = true) (hb : (tokenAt input i).spells "\x7b" = true)
    (hc : (tokenAt input (i + 1)).spells "," = true) :
    ∃ u, w = .token (tokenAt input i) :: .separator "," true :: u := by
  have hbrace := Lexeme.eq_of_spells (hi.lawful i) hb
  have hcomma := Lexeme.eq_of_spells (hi.lawful (i + 1)) hc
  induction h with
  | expr _ ih | operand _ ih | terminal _ ih | dictTerminal _ ih => exact ih rfl hb hc hbrace hcomma
  | operation _ _ _ _ _ ih =>
    obtain ⟨u, rfl⟩ := ih rfl hb hc hbrace hcomma
    exact ⟨_, rfl⟩
  | prefixed known spelt =>
    have hop : ∀ op ∈ unaryOperators, op.spelling ≠ "\x7b" := by decide
    exact absurd (Lexeme.spells_unique spelt hb) (hop _ known)
  | arrayTerminal part | parenTerminal part | literalTerminal part | referenceTerminal part =>
    have hs := part.starts rfl
    rw [hbrace] at hs
    cases hs
  | dictOrSetLiteral part =>
    cases part with
    | listed opened items last closed =>
      cases opened
      cases items with
      | optionalSome items =>
        have hs := items.starts rfl
        rw [hcomma] at hs
        cases hs
      | optionalNone =>
        cases last with
        | separatorPresent => exact ⟨_, rfl⟩
        | separatorAbsent =>
          have hs := closed.starts rfl
          rw [hcomma] at hs
          cases hs
  | _ => cases hp

theorem Slot.pinned_brace {l : Lexeme} (hl : l.spells "\x7b" = true) (text : String)
    (u : List Slot) :
    pinned (.token l :: .separator text true :: u) = .token l :: .token ⟨.punct, text⟩ :: u :=
  if_pos hl

theorem Slot.pinned_other {l : Lexeme} (hl : l.spells "\x7b" = false) (u : List Slot) :
    pinned (.token l :: u) = .token l :: u := by
  unfold pinned
  split
  · next heq =>
    cases heq
    simp [hl]
  · rfl

theorem exprStmt_again (hi : LawfulInput input) (hl : limits.lookahead = some 1) {e : Expr Nat}
    {i' j' : Nat} (opens : limits.opens (tokenAt input i) (tokenAt input (i + 1)))
    (part : Derives limits input (.rule .expr) i w j e)
    (ih : Again input' (Derives limits input' (.rule .expr)) (Phrase.rule .expr).erase w e)
    (hm : Moved input' (Slot.pinned w) i' w' j') :
    ∃ v, Derives limits input' (.rule .stmt) i' w' j' v ∧
      (Phrase.rule .stmt).erase v = (Phrase.rule .stmt).erase (.expression i e) := by
  have hexpression {e' : Expr Nat}
      (he : (Phrase.rule .expr).erase e' = (Phrase.rule .expr).erase e) :
      (Phrase.rule .stmt).erase (.expression i' e') =
        (Phrase.rule .stmt).erase (.expression i e) := congrArg (Stmt.expression 0) he
  cases hb : (tokenAt input i).spells "\x7b" with
  | true =>
    obtain ⟨u, rfl⟩ := part.brace hi rfl hb (opens.2 hl hb)
    rw [Slot.pinned_brace hb] at hm
    cases hm with
    | token first hm =>
      cases hm with
      | token second rest =>
        obtain ⟨e', d, he⟩ := ih.derive (.token first (.present second rest))
        have hopens : limits.opens (tokenAt input' i') (tokenAt input' (i' + 1)) := by
          rw [first, second]
          exact ⟨opens.1, fun _ _ => rfl⟩
        have hd := Derives.exprStmt hopens d
        rw [Slot.pinned_brace hb] at hd
        exact ⟨_, hd, hexpression he⟩
  | false =>
    obtain ⟨u, rfl⟩ : ∃ u, w = .token (tokenAt input i) :: u := by
      rcases part.first with ⟨-, -, hw⟩ | ⟨-, hn⟩
      · exact hw rfl
      · cases hn
    rw [Slot.pinned_other hb] at hm
    cases hm with
    | token first rest =>
      obtain ⟨e', d, he⟩ := ih.derive (.token first rest)
      have hopens : limits.opens (tokenAt input' i') (tokenAt input' (i' + 1)) := by
        rw [first]
        exact ⟨opens.1, fun _ h => absurd h (by simp [hb])⟩
      have hd := Derives.exprStmt hopens d
      rw [Slot.pinned_other hb] at hd
      exact ⟨_, hd, hexpression he⟩

/-- Separators carry no information: a word that is moved is derived again. -/
theorem Derives.again (hi : LawfulInput input) (hl : limits.lookahead = some 1)
    (h : Derives limits input p i w j v) (hp : p.closes = false) :
    Again input' (Derives limits input' p) p.erase w v := by
  induction h with
  -- Tokens
  | literal spelt =>
    refine ⟨fun hm => ?_⟩
    cases hm with
    | token found rest =>
      cases rest
      rw [← found] at spelt ⊢
      exact ⟨_, .literal spelt, rfl⟩
  | token solid found =>
    refine ⟨fun hm => ?_⟩
    cases hm with
    | token here rest =>
      cases rest
      rw [← here] at found ⊢
      exact ⟨_, .token solid found, rfl⟩
  | flagAbsent =>
    refine ⟨fun hm => ?_⟩
    cases hm
    exact ⟨_, .flagAbsent, rfl⟩
  | separatorAbsent | separatorPresent =>
    refine ⟨fun hm => ?_⟩
    cases hm with
    | present found rest =>
      cases rest
      exact ⟨_, .separatorPresent found, rfl⟩
    | absent rest =>
      cases rest
      exact ⟨_, .separatorAbsent, rfl⟩
  | modifiersNil =>
    refine ⟨fun hm => ?_⟩
    cases hm
    exact ⟨_, .modifiersNil, rfl⟩
  | modifiersCons found rest ih =>
    refine ⟨fun hm => ?_⟩
    cases hm with
    | token here hm =>
      obtain ⟨ms, d, rfl⟩ := (ih rfl).derive hm
      rw [← here] at found ⊢
      exact ⟨_, .modifiersCons found d, rfl⟩
  | flagPresent _ ih => exact (ih rfl).node (fun _ _ => true) .flagPresent (fun _ _ => rfl) ⟨0, rfl⟩
  -- Options and lists
  | optionalNone =>
    refine ⟨fun hm => ?_⟩
    cases hm
    exact ⟨_, .optionalNone, rfl⟩
  | optionalSome _ ih => exact (ih hp).node (fun _ => some) .optionalSome (fun _ _ => rfl) ⟨0, rfl⟩
  | after _ _ ih₁ ih₂ =>
    exact (ih₁ rfl).node₂ (ih₂ hp) (fun _ _ v => v) .after (fun _ _ _ => rfl) ⟨0, rfl⟩
  | between _ _ _ ih₁ ih₂ ih₃ =>
    exact (ih₁ rfl).node₃ (ih₂ hp) (ih₃ rfl) (fun _ _ v _ => v) .between (fun _ _ _ _ => rfl)
      ⟨0, rfl⟩
  | starNil =>
    refine ⟨fun hm => ?_⟩
    cases hm
    exact ⟨_, .starNil, rfl⟩
  | starCons _ _ ih₁ ih₂ =>
    exact (ih₁ hp).node₂ (ih₂ hp) (fun _ => List.cons) .starCons (fun _ _ _ => rfl) ⟨0, rfl⟩
  | separated _ _ ih₁ ih₂ =>
    exact (ih₁ hp).node₂ (ih₂ hp) (fun _ => List.cons) .separated (fun _ _ _ => rfl) ⟨0, rfl⟩
  | listed _ _ _ _ ih₁ ih₂ ih₃ ih₄ =>
    exact ((ih₁ rfl).followed (ih₂ hp)).node₃ (ih₃ rfl) (ih₄ rfl) (fun _ x _ _ => x.2.getD [])
      (fun ⟨_, _, _, hw, d₁, d₂⟩ d₃ d₄ => hw ▸ .listed d₁ d₂ d₃ d₄)
      (fun _ _ _ _ => map_getD_nil _ _) ⟨0, rfl⟩
  | bodyEmpty =>
    refine ⟨fun hm => ?_⟩
    cases hm
    exact ⟨_, .bodyEmpty, rfl⟩
  | body _ _ ih₁ ih₂ =>
    exact (ih₁ hp).node₂ (ih₂ rfl) (fun _ vs _ => vs) .body (fun _ _ _ => rfl) ⟨0, rfl⟩
  -- Types
  | typeParameters _ _ greedy _ _ ih₁ ih₂ ih₃ ih₄ =>
    refine ⟨fun hm => ?_⟩
    obtain ⟨⟨⟨⟨_, v⟩, _⟩, _⟩,
        ⟨_, _, _, rfl, ⟨_, _, _, rfl, ⟨_, _, _, rfl, d₁, d₂⟩, d₃⟩, d₄⟩, e⟩ :=
      ((((ih₁ rfl).followed (ih₂ rfl)).followed (ih₃ rfl)).followed (ih₄ rfl)).derive hm
    have he : v.map (TypeParam.map fun _ => 0) = _ := congrArg (·.1.1.2) e
    exact ⟨_, .typeParameters d₁ d₂ (greedy_again he greedy) d₃ d₄, he⟩
  | typeDecl _ _ ih₁ ih₂ =>
    exact (ih₁ rfl).node₂ (ih₂ rfl) (fun i x ps => ⟨i, x, ps.getD []⟩) .typeDecl
      (fun _ _ _ => congrArg (TypeDecl.mk 0 _) (map_getD_nil _ _)) ⟨_, rfl⟩
  | typeParam _ _ ih₁ ih₂ =>
    exact (ih₁ rfl).node₂ (ih₂ rfl) (fun i x cs => ⟨i, x, cs.getD []⟩) .typeParam
      (fun _ _ _ => congrArg (TypeParam.mk 0 _) (map_getD_nil _ _)) ⟨_, rfl⟩
  -- Declarations
  | ast => cases hp
  | rootDecl _ _ ih₁ ih₂ =>
    exact (ih₁ rfl).node₂ (ih₂ rfl) RootDecl.mk .rootDecl (fun _ _ _ => rfl) ⟨_, rfl⟩
  | rootClass _ _ ih₁ ih₂ =>
    exact (ih₁ rfl).node₂ (ih₂ rfl) (fun _ d _ => Decl.classDecl d) .rootClass (fun _ _ _ => rfl)
      ⟨0, rfl⟩
  | rootImport _ _ ih₁ ih₂ =>
    exact (ih₁ rfl).node₂ (ih₂ rfl) (fun _ d _ => Decl.importDecl d) .rootImport (fun _ _ _ => rfl)
      ⟨0, rfl⟩
  | rootEnum _ _ ih₁ ih₂ =>
    exact (ih₁ rfl).node₂ (ih₂ rfl) (fun _ d _ => Decl.enumDecl d) .rootEnum (fun _ _ _ => rfl)
      ⟨0, rfl⟩
  | rootFunc _ _ ih₁ ih₂ =>
    exact (ih₁ rfl).node₂ (ih₂ rfl) (fun _ d _ => Decl.funcDecl d) .rootFunc (fun _ _ _ => rfl)
      ⟨0, rfl⟩
  | rootVar _ _ ih₁ ih₂ =>
    exact (ih₁ rfl).node₂ (ih₂ rfl) (fun _ d _ => Decl.varDecl d) .rootVar (fun _ _ _ => rfl)
      ⟨0, rfl⟩
  | importDecl _ _ _ ih₁ ih₂ ih₃ =>
    exact (ih₁ rfl).node₃ (ih₂ rfl) (ih₃ rfl) (fun i _ => ImportDecl.mk i) .importDecl
      (fun _ _ _ _ => congrArg (ImportDecl.mk 0 · _) Option.map_id'.symm) ⟨_, rfl⟩
  | enumDecl _ _ _ ih₁ ih₂ ih₃ =>
    exact (ih₁ rfl).node₃ (ih₂ rfl) (ih₃ rfl) (fun i _ => EnumDecl.mk i) .enumDecl
      (fun _ _ _ _ => congrArg (EnumDecl.mk 0 _) (EnumMember.mapList_eq _ _)) ⟨_, rfl⟩
  | classDecl _ _ _ ih₁ ih₂ ih₃ =>
    exact (ih₁ rfl).node₃ (ih₂ rfl) (ih₃ rfl) (fun i _ => ClassDecl.mk i) .classDecl
      (fun _ _ _ _ => congrArg (ClassDecl.mk 0 _) (ClassMember.mapList_eq _ _)) ⟨_, rfl⟩
  | enumMember _ _ ih₁ ih₂ =>
    exact (ih₁ rfl).node₂ (ih₂ rfl) EnumMember.mk .enumMember (fun _ _ _ => rfl) ⟨_, rfl⟩
  | classMember _ _ ih₁ ih₂ =>
    exact (ih₁ rfl).node₂ (ih₂ rfl) ClassMember.mk .classMember (fun _ _ _ => rfl) ⟨_, rfl⟩
  | caseKind _ ih =>
    exact (ih rfl).node (fun _ => Decl.caseDecl) .caseKind (fun _ _ => rfl) ⟨0, rfl⟩
  | varKind _ ih => exact (ih rfl).node (fun _ => Decl.varDecl) .varKind (fun _ _ => rfl) ⟨0, rfl⟩
  | funcKind _ ih =>
    exact (ih rfl).node (fun _ => Decl.funcDecl) .funcKind (fun _ _ => rfl) ⟨0, rfl⟩
  | innerClass _ ih =>
    exact (ih rfl).node (fun _ => Decl.classDecl) .innerClass (fun _ _ => rfl) ⟨0, rfl⟩
  | innerEnum _ ih =>
    exact (ih rfl).node (fun _ => Decl.enumDecl) .innerEnum (fun _ _ => rfl) ⟨0, rfl⟩
  | initialiserKind _ ih =>
    exact (ih rfl).node (fun _ => Decl.initialiser) .initialiserKind (fun _ _ => rfl) ⟨0, rfl⟩
  | memberKind _ ih => exact (ih rfl).node (fun _ d => d) .memberKind (fun _ _ => rfl) ⟨0, rfl⟩
  | caseDecl _ _ _ ih₁ ih₂ ih₃ =>
    exact (ih₁ rfl).node₃ (ih₂ rfl) (ih₃ rfl) (fun i _ => CaseDecl.mk i) .caseDecl
      (fun _ _ _ _ => rfl) ⟨_, rfl⟩
  | initialiserDecl _ _ _ _ ih₁ ih₂ ih₃ ih₄ =>
    exact ((ih₁ rfl).followed (ih₂ rfl)).node₃ (ih₃ rfl) (ih₄ rfl)
      (fun i x => InitialiserDecl.mk i x.2)
      (fun ⟨_, _, _, hw, d₁, d₂⟩ d₃ d₄ => hw ▸ .initialiserDecl d₁ d₂ d₃ d₄)
      (fun _ _ _ _ => rfl) ⟨_, rfl⟩
  | parameters _ _ _ ih₁ ih₂ ih₃ =>
    exact (ih₁ rfl).node₃ (ih₂ rfl) (ih₃ rfl) (fun i xs _ => Parameters.mk i xs) .parameters
      (fun _ xs _ _ => congrArg (Parameters.mk 0 · _) (List.map_id' xs).symm) ⟨_, rfl⟩
  | varDecl _ _ ih₁ ih₂ =>
    exact (ih₁ rfl).node₂ (ih₂ rfl) (fun i _ => VarDecl.mk i) .varDecl (fun _ _ _ => rfl) ⟨_, rfl⟩
  | varBinding _ _ _ ih₁ ih₂ ih₃ =>
    exact (ih₁ rfl).node₃ (ih₂ rfl) (ih₃ rfl) VarBinding.mk .varBinding (fun _ _ _ _ => rfl)
      ⟨_, rfl⟩
  | funcDecl _ _ _ _ _ _ ih₁ ih₂ ih₃ ih₄ ih₅ ih₆ =>
    exact ((((ih₁ rfl).followed (ih₂ rfl)).followed (ih₃ rfl)).followed (ih₄ rfl)).node₃
      (ih₅ rfl) (ih₆ rfl) (fun i x => FuncDecl.mk i x.1.1.2 x.1.2 x.2)
      (fun ⟨_, _, _, hw, ⟨_, _, _, hw', ⟨_, _, _, hw'', d₁, d₂⟩, d₃⟩, d₄⟩ d₅ d₆ =>
        hw ▸ hw' ▸ hw'' ▸ .funcDecl d₁ d₂ d₃ d₄ d₅ d₆)
      (fun _ _ _ _ => rfl) ⟨_, rfl⟩
  -- Statements
  | retStmt _ ih => exact (ih rfl).node Stmt.ret .retStmt (fun _ _ => rfl) ⟨_, rfl⟩
  | condStmt _ ih => exact (ih rfl).node Stmt.cond .condStmt (fun _ _ => rfl) ⟨_, rfl⟩
  | loopStmt _ ih => exact (ih rfl).node Stmt.loop .loopStmt (fun _ _ => rfl) ⟨_, rfl⟩
  | chooseStmt _ ih => exact (ih rfl).node Stmt.switch .chooseStmt (fun _ _ => rfl) ⟨_, rfl⟩
  | blockStmt _ ih => exact (ih rfl).node Stmt.block .blockStmt (fun _ _ => rfl) ⟨_, rfl⟩
  | varStmt _ ih => exact (ih rfl).node Stmt.varDecl .varStmt (fun _ _ => rfl) ⟨_, rfl⟩
  | funcStmt _ ih => exact (ih rfl).node Stmt.funcDecl .funcStmt (fun _ _ => rfl) ⟨_, rfl⟩
  | classStmt _ ih => exact (ih rfl).node Stmt.classDecl .classStmt (fun _ _ => rfl) ⟨_, rfl⟩
  | enumStmt _ ih => exact (ih rfl).node Stmt.enumDecl .enumStmt (fun _ _ => rfl) ⟨_, rfl⟩
  | exprStmt opens part ih =>
    refine ⟨fun hm => ?_⟩
    obtain ⟨_, d, e⟩ := exprStmt_again hi hl opens part (ih rfl) hm
    exact ⟨_, d, e⟩
  | block _ ih =>
    exact (ih rfl).node Block.mk .block (fun _ _ => congrArg (Block.mk 0) (Stmt.mapList_eq _ _))
      ⟨_, rfl⟩
  | returnStmt _ _ ih₁ ih₂ =>
    exact (ih₁ rfl).node₂ (ih₂ rfl) (fun i _ => ReturnStmt.mk i) .returnStmt (fun _ _ _ => rfl)
      ⟨_, rfl⟩
  | ifStmt _ _ _ _ ih₁ ih₂ ih₃ ih₄ =>
    exact ((ih₁ rfl).followed (ih₂ rfl)).node₃ (ih₃ rfl) (ih₄ rfl) (fun i x => IfStmt.mk i x.2)
      (fun ⟨_, _, _, hw, d₁, d₂⟩ d₃ d₄ => hw ▸ .ifStmt d₁ d₂ d₃ d₄)
      (fun _ _ _ _ => congrArg (IfStmt.mk 0 _ _) (Block.mapOption_eq _ _)) ⟨_, rfl⟩
  | forStmt _ _ _ _ _ ih₁ ih₂ ih₃ ih₄ ih₅ =>
    exact (((ih₁ rfl).followed (ih₂ rfl)).followed (ih₃ rfl)).node₃ (ih₄ rfl) (ih₅ rfl)
      (fun i x => ForStmt.mk i x.1.2)
      (fun ⟨_, _, _, hw, ⟨_, _, _, hw', d₁, d₂⟩, d₃⟩ d₄ d₅ => hw ▸ hw' ▸ .forStmt d₁ d₂ d₃ d₄ d₅)
      (fun _ _ _ _ => rfl) ⟨_, rfl⟩
  | switchStmt _ _ _ ih₁ ih₂ ih₃ =>
    exact (ih₁ rfl).node₃ (ih₂ rfl) (ih₃ rfl) (fun i _ => SwitchStmt.mk i) .switchStmt
      (fun _ _ _ _ => congrArg (SwitchStmt.mk 0 _) (CaseStmt.mapList_eq _ _)) ⟨_, rfl⟩
  | caseStmt _ _ _ ih₁ ih₂ ih₃ =>
    exact (ih₁ rfl).node₃ (ih₂ rfl) (ih₃ rfl) (fun i c _ => CaseStmt.mk i c) .caseStmt
      (fun _ _ _ _ => congrArg (CaseStmt.mk 0 _) (Stmt.mapList_eq _ _)) ⟨_, rfl⟩
  | defaultHead _ ih => exact (ih rfl).node (fun _ _ => none) .defaultHead (fun _ _ => rfl) ⟨0, rfl⟩
  | selectHead _ ih => exact (ih rfl).node (fun _ => some) .selectHead (fun _ _ => rfl) ⟨0, rfl⟩
  | enumSelect _ ih =>
    exact (ih rfl).node CaseSelect.enumCase .enumSelect (fun _ _ => rfl) ⟨_, rfl⟩
  | exprSelect _ ih => exact (ih rfl).node CaseSelect.expr .exprSelect (fun _ _ => rfl) ⟨_, rfl⟩
  | enumCase _ _ _ ih₁ ih₂ ih₃ =>
    exact (ih₁ rfl).node₃ (ih₂ rfl) (ih₃ rfl) (fun i _ => EnumCase.mk i) .enumCase
      (fun _ _ _ _ => congrArg (EnumCase.mk 0 _) Option.map_id'.symm) ⟨_, rfl⟩
  -- Expressions
  | expr _ ih => exact (ih rfl).node (fun _ e => e) .expr (fun _ _ => rfl) ⟨0, rfl⟩
  | operand _ ih =>
    exact (ih rfl).node (fun _ u => Expr.unary u.pos u) .operand
      (fun _ u => by cases u <;> rfl) ⟨0, rfl⟩
  | operation _ found above leaves _ ihl ihr =>
    refine ⟨fun hm => ?_⟩
    obtain ⟨_, _, _, rfl, hl, hm⟩ := hm.split
    cases hm with
    | token here hr =>
      obtain ⟨a, da, ea⟩ := (ihl rfl).derive hl
      obtain ⟨b, db, eb⟩ := (ihr rfl).derive hr
      rw [← here] at found ⊢
      refine ⟨_, .operation da found above (leaves_again ea leaves) db, ?_⟩
      have ha : a.map (fun _ => 0) = _ := ea
      have hb : b.map (fun _ => 0) = _ := eb
      change Expr.binary 0 (a.map _) _ (b.map _) = _
      rw [ha, hb]
      rfl
  | prefixed known spelt operand ih =>
    refine ⟨fun hm => ?_⟩
    cases hm with
    | token here hm =>
      obtain ⟨u, d, e⟩ := (ih rfl).derive hm
      rw [← here] at spelt ⊢
      exact ⟨_, .prefixed known spelt d, congrArg (Unary.prefixed 0 _) e⟩
  | terminal _ ih =>
    exact (ih rfl).node (fun _ t => Unary.terminal t.pos t) .terminal
      (fun _ t => by cases t <;> rfl) ⟨0, rfl⟩
  | arrayTerminal _ ih =>
    exact (ih rfl).node Terminal.array .arrayTerminal (fun _ _ => rfl) ⟨_, rfl⟩
  | dictTerminal _ ih =>
    exact (ih rfl).node Terminal.dictOrSet .dictTerminal (fun _ _ => rfl) ⟨_, rfl⟩
  | parenTerminal _ ih =>
    exact (ih rfl).node Terminal.paren .parenTerminal (fun _ _ => rfl) ⟨_, rfl⟩
  | literalTerminal _ ih =>
    exact (ih rfl).node Terminal.literal .literalTerminal (fun _ _ => rfl) ⟨_, rfl⟩
  | referenceTerminal _ ih =>
    exact (ih rfl).node Terminal.reference .referenceTerminal (fun _ _ => rfl) ⟨_, rfl⟩
  | number part denotes ih =>
    refine ⟨fun hm => ?_⟩
    obtain ⟨x, d, rfl⟩ := (ih rfl).derive hm
    exact ⟨_, .number d denotes, rfl⟩
  | string _ ih =>
    exact (ih rfl).node (fun i x => Literal.mk i (.string x)) .string (fun _ _ => rfl) ⟨_, rfl⟩
  | reference _ _ ih₁ ih₂ =>
    exact (ih₁ rfl).node₂ (ih₂ rfl) Reference.mk .reference
      (fun _ _ _ => congrArg (Reference.mk 0 _) (Selector.mapList_eq _ _)) ⟨_, rfl⟩
  | memberSelector _ ih =>
    exact (ih rfl).node Selector.member .memberSelector (fun _ _ => rfl) ⟨_, rfl⟩
  | indexSelector _ ih =>
    exact (ih rfl).node Selector.index .indexSelector (fun _ _ => rfl) ⟨_, rfl⟩
  | callSelector _ ih => exact (ih rfl).node Selector.call .callSelector (fun _ _ => rfl) ⟨_, rfl⟩
  | call _ ih =>
    exact (ih rfl).node Call.mk .call (fun _ _ => congrArg (Call.mk 0) (Expr.mapList_eq _ _))
      ⟨_, rfl⟩
  | arrayLiteral _ ih =>
    exact (ih rfl).node ArrayLiteral.mk .arrayLiteral
      (fun _ _ => congrArg (ArrayLiteral.mk 0) (Expr.mapList_eq _ _)) ⟨_, rfl⟩
  | dictOrSetLiteral _ ih =>
    exact (ih rfl).node DictOrSetLiteral.mk .dictOrSetLiteral
      (fun _ _ => congrArg (DictOrSetLiteral.mk 0) (Entry.mapList_eq _ _)) ⟨_, rfl⟩
  | entry _ _ ih₁ ih₂ =>
    exact (ih₁ rfl).node₂ (ih₂ rfl) Entry.mk .entry
      (fun _ _ _ => congrArg (Entry.mk 0 _) (Expr.mapOption_eq _ _)) ⟨_, rfl⟩

end Syntree
