import Syntree.Proofs.Found.Declarations
import Syntree.Proofs.Found.Expressions
import Syntree.Proofs.Found.Statements
import Syntree.Proofs.Paths

/-!
Every derivation is found: with one token of lookahead, a rule reads any word that is derived from
it, provided that something follows before which the rule halts, and that there is room for the
constructs it opens.
-/

namespace Syntree

open Grammar (tokenAt)

variable {limits₀ limits : Limits} {room : Nat} {input : Array Lexeme} {p : Phrase} {v : p.Result}
  {i j : Nat} {w : List Slot}

theorem Derives.spells {text : String} {u : Unit}
    (h : Derives limits input (.literal text) i w j u) :
    (tokenAt input i).spells text = true ∧ j = i + 1 := by
  cases h with
  | literal spelt => exact ⟨spelt, rfl⟩

/-- Phrases that may be no more than a name. -/
def Phrase.maybeName : Phrase → Bool
  | rule .expr | rule (.binary _) | rule .unary | rule .terminal | rule .reference => true
  | _ => false

/-- Behind a name that starts an expression no other name follows. -/
theorem Derives.second (hi : LawfulInput input) (h : Derives limits input p i w j v)
    (hp : p.maybeName = true) (hk : (tokenAt input i).kind = .ident) :
    i + 1 = j ∨ (tokenAt input (i + 1)).kind ≠ .ident := by
  have hne {text : String} {i : Nat} (hs : (tokenAt input i).spells text = true)
      (ht : Lexical.kindOf text ≠ .ident) : (tokenAt input i).kind ≠ .ident := by
    rwa [(hi.lawful i).kind_eq hs]
  induction h with
  | expr _ ih | operand _ ih | terminal _ ih | referenceTerminal _ ih => exact ih rfl hk
  | operation left found _ _ _ ih =>
    rcases ih rfl hk with rfl | h
    · exact .inr (by simp [Lexeme.kind_of_binaryOperator found])
    · exact .inr h
  | prefixed known spelt =>
    have hop : ∀ op ∈ unaryOperators, Lexical.kindOf op.spelling ≠ .ident := by decide
    exact absurd hk (hne spelt (hop _ known))
  | arrayTerminal part => exact absurd hk (hne (part.starts rfl) (by decide))
  | dictTerminal part => exact absurd hk (hne (part.starts rfl) (by decide))
  | parenTerminal part => exact absurd hk (hne (part.starts rfl) (by decide))
  | literalTerminal part =>
    have hs := part.starts rfl
    simp [Phrase.starts, Rule.starts, hk] at hs
  | reference name next =>
    cases name with
    | token =>
      cases next with
      | starNil => exact .inl rfl
      | starCons first =>
        have hs := kind_of_startsSelector (hi.lawful _) (first.starts rfl)
        exact .inr (by simp [hs])
  | _ => cases hp

/-- Whether a node that is derived with the first limits can be derived with the second. -/
def Limits.Admits (limits₀ limits : Limits) (input : Array Lexeme) : Node Nat → Prop
  | .stmt (.expression i _) => limits₀.opens (tokenAt input i) (tokenAt input (i + 1)) →
    limits.opens (tokenAt input i) (tokenAt input (i + 1))
  | _ => True

theorem Limits.admits_of_lookahead (h : limits₀.lookahead = limits.lookahead) (n : Node Nat) :
    limits₀.Admits limits input n := by
  unfold Limits.Admits
  split
  · exact fun ho => ⟨ho.1, h ▸ ho.2⟩
  · trivial

theorem forall_mem_of_getD {α : Type} {os : Option (List α)} {P : α → Prop}
    (h : ∀ v ∈ os.getD [], P v) : ∀ vs, os = some vs → ∀ v ∈ vs, P v := by
  rintro vs rfl
  exact h

section

attribute [local simp] Rule.toNode Node.children Node.stmtChild Node.terminalChild

/-- With one token of lookahead, what is derived is found. -/
theorem Derives.found (hi : LawfulInput input) (hl : limits.lookahead = some 1)
    (h : Derives limits₀ input p i w j v)
    (hv : p.Every (Rule.Fits (limits₀.Admits limits input) room) v) :
    p.Found limits room input i v j := by
  induction h generalizing room with
  -- Tokens
  | literal spelt => exact fun _ _ => Grammar.reads_literal spelt
  | token solid found => exact fun _ _ => Grammar.reads_token solid found
  | flagAbsent => exact fun hh _ => reads_optional_absent hh
  | flagPresent mark =>
    obtain ⟨hm, rfl⟩ := mark.spells
    exact fun _ _ => reads_optional_present hm
  | separatorAbsent => exact fun hh _ => reads_optional_absent hh
  | separatorPresent found =>
    exact fun _ _ => reads_optional_present (by simp [found, Lexeme.spells])
  | modifiersNil => exact fun hh _ => .nil (Grammar.stops_token hh).fails
  | modifiersCons found _ ih => exact found_modifiersCons found (ih hv)
  -- Options and lists
  | optionalNone => exact found_optionalNone hl
  | optionalSome _ ih => exact found_optionalSome hi (ih (hv _ rfl))
  | after mark _ _ ih =>
    obtain ⟨hm, rfl⟩ := mark.spells
    exact ⟨hm, ih hv⟩
  | between opened _ closed _ ih =>
    obtain ⟨ho, rfl⟩ := opened.spells
    obtain ⟨hc, rfl⟩ := closed.spells
    exact ⟨ho, _, ih hv, hc, rfl⟩
  | starNil => exact fun hh n => .nil (fails_phrase hl n hh.1)
  | starCons _ rest ihf ihr =>
    obtain ⟨hf, hr⟩ := List.forall_mem_cons.mp hv
    exact found_starCons hi rest (ihf hf) (ihr hr)
  | separated _ rest ihf ihr =>
    obtain ⟨hf, hr⟩ := List.forall_mem_cons.mp hv
    exact found_separated hi rest (ihf hf) (ihr hr)
  | listed opened _ last closed _ ih =>
    obtain ⟨ho, rfl⟩ := opened.spells
    obtain ⟨hc, rfl⟩ := closed.spells
    exact found_listed hi ho (ih (forall_mem_of_getD hv)) last hc
  | bodyEmpty => exact found_bodyEmpty
  | body items last ih => exact found_body hi items (ih hv) last
  -- Types
  | typeParameters opened _ greedy last closed _ ih =>
    obtain ⟨ho, rfl⟩ := opened.spells
    obtain ⟨hc, rfl⟩ := closed.spells
    exact found_typeParameters hi ho (ih hv) greedy last hc
  | typeDecl _ _ ihx ihp =>
    exact found_typeDecl (ihx trivial)
      (ihp (forall_mem_of_getD fun _ hm => hv.part rfl (List.mem_map_of_mem hm) rfl))
  | typeParam _ constraints ihx ihc =>
    exact found_typeParam (ihx trivial) constraints
      (ihc (forall_mem_of_getD fun _ hm => hv.part rfl (List.mem_map_of_mem hm) rfl))
  -- Declarations
  | ast _ ended ih =>
    exact found_ast (ih fun _ hm => hv.part rfl (List.mem_map_of_mem hm) rfl) ended
  | rootDecl _ decl ihm ihd =>
    exact found_rootDecl hi (ihm trivial) decl (ihd (hv.decl rfl rfl))
  | rootClass _ last ih => exact found_rootClass (ih hv) last
  | rootImport decl last ih => exact found_rootImport hi (decl.starts rfl) (ih hv) last
  | rootEnum decl last ih => exact found_rootEnum hi (decl.starts rfl) (ih hv) last
  | rootFunc decl last ih => exact found_rootFunc hi (decl.starts rfl) (ih hv) last
  | rootVar decl last ih =>
    obtain ⟨hs, rfl⟩ := last.spells
    exact found_rootVar hi (decl.starts rfl) (ih hv) hs
  | importDecl mark _ text _ ihx iht =>
    obtain ⟨hm, rfl⟩ := mark.spells
    exact found_importDecl hm (ihx fun _ _ => trivial)
      (by simpa [Phrase.starts] using text.starts rfl) (iht trivial)
  | enumDecl mark _ _ _ iht ihm =>
    obtain ⟨hm, rfl⟩ := mark.spells
    obtain ⟨room, rfl⟩ := hv.roomy rfl
    exact found_enumDecl hi hm (iht (hv.part rfl (by simp) rfl))
      (ihm fun _ hm => hv.inside rfl rfl (by simp [hm]) rfl)
  | classDecl mark _ _ _ iht ihm =>
    obtain ⟨hm, rfl⟩ := mark.spells
    obtain ⟨room, rfl⟩ := hv.roomy rfl
    exact found_classDecl hi hm (iht (hv.part rfl (by simp) rfl))
      (ihm fun _ hm => hv.inside rfl rfl (by simp [hm]) rfl)
  | enumMember _ decl ihm ihd =>
    exact found_enumMember hi (ihm trivial) decl (ihd (hv.decl rfl rfl))
  | classMember _ decl ihm ihd =>
    exact found_classMember hi (ihm trivial) decl (ihd (hv.decl rfl rfl))
  | caseKind _ ih => exact found_caseKind hi (ih hv)
  | memberKind decl ih => exact found_memberKind hi decl (ih hv)
  | varKind _ ih => exact found_varKind hi (ih hv)
  | funcKind decl ih => exact found_funcKind hi (decl.starts rfl) (ih hv)
  | innerClass decl ih => exact found_innerClass hi (decl.starts rfl) (ih hv)
  | innerEnum decl ih => exact found_innerEnum hi (decl.starts rfl) (ih hv)
  | initialiserKind decl ih => exact found_initialiserKind hi (decl.starts rfl) (ih hv)
  | caseDecl mark _ _ _ ihx iht =>
    obtain ⟨hm, rfl⟩ := mark.spells
    exact found_caseDecl hm (ihx trivial) (iht fun _ hm => hv.part rfl (by simp [hm]) rfl)
  | initialiserDecl mark _ _ body _ ihp iht ihb =>
    obtain ⟨hm, rfl⟩ := mark.spells
    exact found_initialiserDecl hi hm (ihp fun _ hm => hv.part rfl (by simp [hm]) rfl) (iht trivial)
      (body.starts rfl) (ihb (hv.part rfl (by simp) rfl))
  | parameters _ mark _ ihx _ iht =>
    obtain ⟨hm, rfl⟩ := mark.spells
    exact found_parameters hi (ihx fun _ _ => trivial) hm (iht (hv.part rfl (by simp) rfl))
  | varDecl mark _ _ ih =>
    obtain ⟨hm, rfl⟩ := mark.spells
    exact found_varDecl hm (ih fun _ hm => hv.part rfl (List.mem_map_of_mem hm) rfl)
  | varBinding _ _ value ihx iht ihe =>
    exact found_varBinding hi (ihx trivial) (iht fun _ hm => hv.part rfl (by simp [hm]) rfl) value
      (ihe fun _ hm => hv.part rfl (by simp [hm]) rfl)
  | funcDecl mark _ _ _ result body _ ihx ihp ihb iht iha =>
    obtain ⟨hm, rfl⟩ := mark.spells
    exact found_funcDecl hi hm (ihx trivial) (ihp fun _ hm => hv.part rfl (by simp [hm]) rfl)
      (ihb trivial) result (iht fun _ hm => hv.part rfl (by simp [hm]) rfl) (body.starts rfl)
      (iha (hv.part rfl (by simp) rfl))
  -- Statements
  | retStmt part ih =>
    exact found_announced hi 0 rfl (part.starts rfl) (by decide) (fun _ => ⟨rfl, rfl, rfl, rfl⟩)
      (ih (hv.part rfl (by simp) rfl))
  | condStmt part ih =>
    exact found_announced hi 1 rfl (part.starts rfl) (by decide) (fun _ => ⟨rfl, rfl, rfl, rfl⟩)
      (ih (hv.part rfl (by simp) rfl))
  | loopStmt part ih =>
    exact found_announced hi 2 rfl (part.starts rfl) (by decide) (fun _ => ⟨rfl, rfl, rfl, rfl⟩)
      (ih (hv.part rfl (by simp) rfl))
  | chooseStmt part ih =>
    exact found_announced hi 3 rfl (part.starts rfl) (by decide) (fun _ => ⟨rfl, rfl, rfl, rfl⟩)
      (ih (hv.part rfl (by simp) rfl))
  | blockStmt part ih =>
    exact found_announced hi 4 rfl (part.starts rfl) (by decide) (fun _ => ⟨rfl, rfl, rfl, rfl⟩)
      (ih (hv.part rfl (by simp) rfl))
  | varStmt part ih =>
    exact found_announced hi 5 rfl (part.starts rfl) (by decide) (fun _ => ⟨rfl, rfl, rfl, rfl⟩)
      (ih (hv.part rfl (by simp) rfl))
  | funcStmt part ih =>
    exact found_announced hi 6 rfl (part.starts rfl) (by decide) (fun _ => ⟨rfl, rfl, rfl, rfl⟩)
      (ih (hv.part rfl (by simp) rfl))
  | classStmt part ih =>
    exact found_announced hi 7 rfl (part.starts rfl) (by decide) (fun _ => ⟨rfl, rfl, rfl, rfl⟩)
      (ih (hv.part rfl (by simp) rfl))
  | enumStmt part ih =>
    exact found_announced hi 8 rfl (part.starts rfl) (by decide) (fun _ => ⟨rfl, rfl, rfl, rfl⟩)
      (ih (hv.part rfl (by simp) rfl))
  | exprStmt opens part ih =>
    have he : Rule.expr.Fits _ room _ := hv.part rfl (List.mem_singleton_self _) rfl
    obtain ⟨room, rfl⟩ := he.roomy rfl
    exact found_exprStmt hi hl (hv.2.own.2 opens) (part.starts rfl) (part.second hi rfl) (ih he)
  | block _ ih =>
    obtain ⟨room, rfl⟩ := hv.roomy rfl
    exact found_block hi (ih fun _ hm => hv.inside rfl rfl (by simp [hm]) rfl)
  | returnStmt mark _ _ ih =>
    obtain ⟨hm, rfl⟩ := mark.spells
    exact found_returnStmt hm (ih fun _ hm => hv.part rfl (by simp [hm]) rfl)
  | ifStmt mark _ main _ _ ihe iha ihb =>
    obtain ⟨hm, rfl⟩ := mark.spells
    exact found_ifStmt hi hm (ihe (hv.part rfl (by simp) rfl)) (main.starts rfl)
      (iha (hv.part rfl (by simp) rfl)) (ihb fun _ hm => hv.part rfl (by simp [hm]) rfl)
  | forStmt mark _ inside _ body _ iht _ ihe iha =>
    obtain ⟨hm, rfl⟩ := mark.spells
    obtain ⟨hin, rfl⟩ := inside.spells
    exact found_forStmt hi hm (iht (hv.part rfl (by simp) rfl)) hin
      (ihe (hv.part rfl (by simp) rfl)) (body.starts rfl) (iha (hv.part rfl (by simp) rfl))
  | switchStmt mark _ _ _ ihe ihc =>
    obtain ⟨hm, rfl⟩ := mark.spells
    exact found_switchStmt hi hm (ihe (hv.part rfl (by simp) rfl))
      (ihc fun _ hm => hv.part rfl (by simp [hm]) rfl)
  | caseStmt _ mark _ ihc _ ihs =>
    obtain ⟨hm, rfl⟩ := mark.spells
    exact found_caseStmt hi (ihc fun _ hm => hv.part rfl (by simp [hm]) rfl) hm
      (ihs fun _ hm => hv.part rfl (by simp [hm]) rfl)
  | defaultHead mark =>
    obtain ⟨hm, rfl⟩ := mark.spells
    exact found_defaultHead hm
  | selectHead _ ih => exact found_selectHead hi (ih (hv _ rfl))
  | enumSelect _ ih => exact found_enumSelect (ih (hv.part rfl (by simp) rfl))
  | exprSelect part ih =>
    exact found_exprSelect hi (part.starts rfl) (ih (hv.part rfl (by simp) rfl))
  | enumCase mark _ _ _ ihx ihy =>
    obtain ⟨hm, rfl⟩ := mark.spells
    exact found_enumCase hm (ihx trivial) (ihy fun _ _ => trivial)
  -- Expressions
  | expr _ ih =>
    obtain ⟨room, rfl⟩ := hv.roomy rfl
    exact found_expr (ih ⟨Nat.zero_le _, hv.2⟩)
  | operand _ ih => exact found_operand (ih (hv.part rfl (by simp) rfl))
  | operation _ found above leaves _ ihl ihr =>
    exact found_operation hi (ihl (hv.part rfl (by simp) rfl)) found above leaves
      (ihr (hv.part rfl (by simp) rfl))
  | prefixed known spelt _ ih =>
    have hroom : 1 ≤ room := (hv.2.child (List.mem_singleton_self _)).1
    obtain ⟨room, rfl⟩ := Nat.exists_eq_add_of_le' hroom
    exact found_prefixed known spelt (ih (hv.inside rfl rfl (by simp) rfl))
  | terminal part ih =>
    exact found_terminal hi (part.starts rfl) (ih (hv.part rfl (by simp) rfl))
  | arrayTerminal _ ih => exact found_arrayTerminal (ih (hv.part rfl (by simp) rfl))
  | dictTerminal part ih =>
    exact found_dictTerminal hi (part.starts rfl) (ih (hv.part rfl (by simp) rfl))
  | parenTerminal _ ih => exact found_parenTerminal hi (ih (hv.part rfl (by simp) rfl))
  | literalTerminal part ih =>
    exact found_literalTerminal hi (part.starts rfl) (ih (hv.part rfl (by simp) rfl))
  | referenceTerminal part ih =>
    exact found_referenceTerminal hi (by simpa [Phrase.starts, Rule.starts] using part.starts rfl)
      (ih (hv.part rfl (by simp) rfl))
  | number _ denotes ih => exact found_number (ih trivial) denotes
  | string part ih =>
    exact found_string (by simpa [Phrase.starts] using part.starts rfl) (ih trivial)
  | reference _ _ ihx ihs =>
    exact found_reference (ihx trivial) (ihs fun _ hm => hv.part rfl (List.mem_map_of_mem hm) rfl)
  | memberSelector _ ih => exact found_memberSelector (ih trivial)
  | indexSelector _ ih => exact found_indexSelector hi (ih (hv.part rfl (by simp) rfl))
  | callSelector part ih =>
    exact found_callSelector hi (part.starts rfl) (ih (hv.part rfl (by simp) rfl))
  | call _ ih => exact found_call (ih fun _ hm => hv.part rfl (List.mem_map_of_mem hm) rfl)
  | arrayLiteral _ ih =>
    exact found_arrayLiteral (ih fun _ hm => hv.part rfl (List.mem_map_of_mem hm) rfl)
  | dictOrSetLiteral _ ih =>
    exact found_dictOrSetLiteral (ih fun _ hm => hv.part rfl (List.mem_map_of_mem hm) rfl)
  | entry _ value ihk ihv =>
    exact found_entry hi (ihk (hv.part rfl (by simp) rfl)) value
      (ihv fun _ hm => hv.part rfl (by simp [hm]) rfl)

end

/-- A whole input that is derived is read, unless there is no room for it. -/
theorem TokenStream.tree_of_fits {ts : TokenStream} {a : Ast Nat} (hi : LawfulInput ts.lexemes)
    (h : Derives limits₀ ts.lexemes (.rule .ast) 0 w j a)
    (hv : (Node.ast a).Fits (limits₀.Admits .standard ts.lexemes) room) :
    ts.tree = .ok (a.map ts.position) ∨
      128 ≤ room ∧ ∃ limit p, ts.tree = .error ⟨.nestingTooDeep limit, p⟩ := by
  have hr : ts.reply.Ends (Limits.standard.Short 0 (room + 1)) 0 fun o k => o = some a ∧ k = j := by
    rw [ts.reply_eq]
    exact (h.found hi rfl ⟨Nat.zero_le _, hv⟩).1 rfl _ .start rfl
  have hf := ts.reply_ne_exhausted
  rw [ts.tree_eq]
  cases ht : ts.reply with
  | mk o t =>
    rw [ht] at hr hf
    cases o with
    | ok v =>
      cases hr.2.1
      exact .inl rfl
    | mismatch => cases hr.2.1
    | exhausted => exact absurd rfl hf
    | fatal e =>
      cases e with
      | numberOutOfRange => exact absurd hr id
      | nestingTooDeep limit index =>
        obtain ⟨n, hn, hlt⟩ := hr
        cases hn
        exact .inr ⟨by omega, limit, _, rfl⟩

/-- A whole input that is derived is read, unless it is nested too deep. -/
theorem TokenStream.tree_of_derives {ts : TokenStream} {a : Ast Nat} (hi : LawfulInput ts.lexemes)
    (h : Derives .standard ts.lexemes (.rule .ast) 0 w j a) :
    ts.tree = .ok (a.map ts.position) ∨
      ∃ limit p, ts.tree = .error ⟨.nestingTooDeep limit, p⟩ := by
  obtain ⟨room, hv⟩ : ∃ room,
      (Node.ast a).Fits (Limits.standard.Admits .standard ts.lexemes) room :=
    Node.exists_fits fun _ _ m _ => Limits.admits_of_lookahead rfl m
  exact (ts.tree_of_fits hi h hv).imp_right And.right

end Syntree
