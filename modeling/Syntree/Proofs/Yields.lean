import Syntree.Proofs.OtherLimits
import Syntree.Proofs.Paths
import Syntree.Proofs.Session

/-!
How deep a tree can be that was read: no path through it opens more constructs than the limit allows
to be open at once.
-/

namespace Syntree

namespace Grammar

variable {α β : Type} {room : Nat}

/-- The values that a grammar can read while it opens at most `room` constructs at a time, whatever
the tokens are. Of a rule it is assumed that it reads what fits. -/
def Yields : {α : Type} → Nat → Grammar α → α → Prop
  | _, _, done v, u => v = u
  | _, room, bind g f, v => ∃ u, g.Yields room u ∧ (f u).Yields room v
  | _, _, fail, _ | _, _, reject _, _ => False
  | _, room, orElse a b, v => a.Yields room v ∨ b.Yields room v
  -- whatever the first value has and every round keeps, the last value has too
  | _, room, loop v f, u => ∀ I : _ → Prop, I v →
    (∀ x y, I x → (f x).Yields room (some y) → I y) → I u
  | _, 0, nested _, _ => False
  | _, room + 1, nested g, v => g.Yields room v
  | _, room, call r, v => r.Fits (fun _ => True) room v
  | _, room, observe _ _ _ g, v => g.Yields room v
  | _, _, here, _ | _, _, peek, _ | _, _, advance, _ | _, _, expect _, _
  | _, _, operatorAbove _, _ => True

section Syntax

variable {g : Grammar α} {v : α} {vs : List α} {o : Option α}

@[simp] theorem yields_pure {u : α} : (pure v : Grammar α).Yields room u ↔ v = u := .rfl

@[simp] theorem yields_bind {g : Grammar β} {f : β → Grammar α} :
    (g >>= f).Yields room v ↔ ∃ u, g.Yields room u ∧ (f u).Yields room v := .rfl

@[simp] theorem yields_nested_zero : (nested g).Yields 0 v ↔ False := .rfl

@[simp] theorem yields_nested : (nested g).Yields (room + 1) v ↔ g.Yields room v := .rfl

@[simp] theorem yields_literal {text : String} {u : Unit} :
    (literal text).Yields room u ↔ True := by
  simp only [literal, yields_bind, yields_pure, iff_true]
  exact ⟨.eof, trivial, trivial⟩

@[simp] theorem yields_attempt : (attempt g).Yields room o ↔ ∀ v, o = some v → g.Yields room v := by
  change (∃ u, g.Yields room u ∧ some u = o) ∨ none = o ↔ _
  cases o <;> simp

@[simp] theorem yields_introduced {text : String} :
    (introduced text g).Yields room o ↔ ∀ v, o = some v → g.Yields room v := by
  simp [introduced]

@[simp] theorem yields_optional {text : String} {b : Bool} :
    (Grammar.optional text).Yields room b ↔ True := by
  simp only [Grammar.optional, yields_bind, yields_attempt, yields_literal, yields_pure,
    implies_true, true_and, iff_true]
  cases b with
  | false => exact ⟨none, rfl⟩
  | true => exact ⟨some (), rfl⟩

@[simp] theorem yields_many : (many g).Yields room vs ↔ ∀ v ∈ vs, g.Yields room v := by
  have hround (x y : List α) :
      (attempt g >>= fun o => pure (o.map (· :: x)) : Grammar _).Yields room (some y) ↔
        ∃ v, g.Yields room v ∧ y = v :: x := by
    simp only [yields_bind, yields_attempt, yields_pure, Option.map_eq_some_iff]
    constructor
    · rintro ⟨-, hv, v, rfl, rfl⟩
      exact ⟨v, hv v rfl, rfl⟩
    · rintro ⟨v, hv, rfl⟩
      exact ⟨some v, fun u hu => Option.some.inj hu ▸ hv, v, rfl, rfl⟩
  constructor
  · rintro ⟨items, hloop, rfl⟩
    have hitems := hloop (fun items => ∀ v ∈ items, g.Yields room v) (by simp) fun x y hx hy => by
      obtain ⟨v, hv, rfl⟩ := (hround x y).mp hy
      simpa using ⟨hv, hx⟩
    simpa using hitems
  · intro h
    refine ⟨vs.reverse, fun I hnil hcons => ?_, List.reverse_reverse vs⟩
    rw [← vs.reverse_reverse] at h
    generalize vs.reverse = items at h
    simp only [List.mem_reverse] at h
    induction items with
    | nil => exact hnil
    | cons v items ih =>
      obtain ⟨hv, h⟩ := List.forall_mem_cons.mp h
      exact hcons items _ (ih h) ((hround _ _).mpr ⟨v, hv, rfl⟩)

@[simp] theorem yields_separated {separator : String} :
    (separated separator g).Yields room vs ↔ vs ≠ [] ∧ ∀ v ∈ vs, g.Yields room v := by
  cases vs <;> simp [separated]

@[simp] theorem yields_optionalSeparated {separator : String} :
    (optionalSeparated separator g).Yields room vs ↔ ∀ v ∈ vs, g.Yields room v := by
  simp only [optionalSeparated, yields_bind, yields_attempt, yields_separated, yields_pure]
  constructor
  · rintro ⟨o, ho, rfl⟩
    cases o with
    | none => simp
    | some vs => exact (ho vs rfl).2
  · intro h
    cases vs with
    | nil => exact ⟨none, by simp, rfl⟩
    | cons v vs =>
      refine ⟨some (v :: vs), ?_, rfl⟩
      rintro - ⟨⟩
      exact ⟨List.cons_ne_nil v vs, h⟩

@[simp] theorem yields_listed {opening closing : String} :
    (listed opening closing g).Yields room vs ↔ ∀ v ∈ vs, g.Yields room v := by
  simp [listed]

@[simp] theorem yields_trailing {separator : String} {items : List α} :
    (trailing separator items).Yields room vs ↔ items = vs := by
  cases items <;> simp [trailing]

end Syntax

end Grammar

open Grammar

variable {room : Nat} {r : Rule} {v : r.Result}

/-- A rule that opens nothing by itself reads what fits if all parts of it do. -/
theorem Rule.fits_of_parts (hr : r.levels = 0) (ho : (r.toNode v).opensList ≤ room)
    (hc : ∀ m ∈ (r.toNode v).children, (r.toNode v).opens m ≤ room ∧
      m.Fits (fun _ => True) (room - (r.toNode v).opens m)) : r.Fits (fun _ => True) room v := by
  refine ⟨hr ▸ Nat.zero_le _, ?_⟩
  rw [hr]
  exact Node.fits_of_children ho trivial hc

/-- A part that is read one level deeper. -/
theorem Rule.Fits.deeper (h : r.Fits (fun _ => True) room v) (hr : r.levels = 0) :
    1 ≤ room + 1 ∧ (r.toNode v).Fits (fun _ => True) (room + 1 - 1) := by
  have hv := h.2
  rw [hr] at hv
  exact ⟨Nat.le_add_left 1 room, hv⟩

theorem forall_mem_optional {α : Type} {o : Option α} {f : α → Node Nat} {P : Node Nat → Prop}
    (h : ∀ v, o = some v → P (f v)) : ∀ m ∈ o.toList.map f, P m := by
  simpa using h

/-- The members of a class or an enum are read one level deeper. -/
theorem Grammar.yields_members {α : Type} {g : Grammar α} {vs : List α}
    (h : (members g).Yields room vs) : ∃ room', room = room' + 1 ∧ ∀ v ∈ vs, g.Yields room' v := by
  cases room with
  | zero => simp [members] at h
  | succ room => exact ⟨room, rfl, by simpa [members] using h⟩

/-- What each rule reads fits, if the rules do of which it consists. -/
theorem Rule.production_fits (h : r.production.Yields room v) : r.Fits (fun _ => True) room v := by
  cases r
  -- Declarations
  case ast =>
    obtain ⟨pos, -, ds, hd, -, -, rfl⟩ := h
    exact fits_of_parts rfl (Nat.zero_le _) (List.forall_mem_map.mpr (yields_many.mp hd))
  case rootDecl =>
    obtain ⟨pos, -, ms, -, d, hd, rfl⟩ := h
    refine fits_of_parts rfl (Nat.zero_le _) (List.forall_mem_singleton.mpr ?_)
    obtain ⟨d, hd, -, -, rfl⟩ | ⟨d, hd, -, -, rfl⟩ | ⟨d, hd, -, -, rfl⟩ | ⟨d, hd, -, -, rfl⟩ |
      ⟨d, hd, -, -, rfl⟩ | ⟨⟨⟩⟩ := hd <;> exact hd
  case importDecl =>
    obtain ⟨pos, -, -, -, o, -, path, -, rfl⟩ := h
    exact fits_of_parts rfl (Nat.zero_le _) nofun
  case enumDecl | classDecl =>
    obtain ⟨pos, -, -, -, t, ht, ms, hm, rfl⟩ := h
    obtain ⟨room, rfl, hm'⟩ := yields_members hm
    refine fits_of_parts rfl (Nat.le_add_left 1 room) (List.forall_mem_cons.mpr ⟨ht, ?_⟩)
    exact List.forall_mem_map.mpr fun m h => Rule.Fits.deeper (hm' m h) rfl
  case enumMember =>
    obtain ⟨pos, -, ms, -, d, hd, rfl⟩ := h
    refine fits_of_parts rfl (Nat.zero_le _) (List.forall_mem_singleton.mpr ?_)
    obtain ⟨d, hd, rfl⟩ | ⟨d, hd, rfl⟩ | ⟨d, hd, rfl⟩ | ⟨d, hd, rfl⟩ | ⟨d, hd, rfl⟩ |
      ⟨d, hd, rfl⟩ | ⟨⟨⟩⟩ := hd <;> exact hd
  case classMember =>
    obtain ⟨pos, -, ms, -, d, hd, rfl⟩ := h
    refine fits_of_parts rfl (Nat.zero_le _) (List.forall_mem_singleton.mpr ?_)
    obtain ⟨d, hd, rfl⟩ | ⟨d, hd, rfl⟩ | ⟨d, hd, rfl⟩ | ⟨d, hd, rfl⟩ | ⟨d, hd, rfl⟩ | ⟨⟨⟩⟩ := hd <;>
      exact hd
  case caseDecl =>
    obtain ⟨pos, -, -, -, x, -, o, ho, rfl⟩ := h
    refine fits_of_parts rfl (Nat.zero_le _) (forall_mem_optional fun t hsome => ?_)
    obtain ⟨-, -, t, ht, -, -, rfl⟩ := yields_attempt.mp ho t hsome
    exact ht
  case initialiserDecl =>
    obtain ⟨pos, -, -, -, ps, hp, throws, -, b, hb, rfl⟩ := h
    exact fits_of_parts rfl (Nat.zero_le _) (List.forall_mem_append.mpr
      ⟨List.forall_mem_map.mpr (yields_listed.mp hp), List.forall_mem_singleton.mpr hb⟩)
  case parameters =>
    obtain ⟨pos, -, xs, -, -, -, t, ht, rfl⟩ := h
    exact fits_of_parts rfl (Nat.zero_le _) (List.forall_mem_singleton.mpr ht)
  case varDecl =>
    obtain ⟨pos, -, -, -, bs, hb, rfl⟩ := h
    exact fits_of_parts rfl (Nat.zero_le _) (List.forall_mem_map.mpr (yields_separated.mp hb).2)
  case varBinding =>
    obtain ⟨pos, -, x, -, t, ht, e, he, rfl⟩ := h
    exact fits_of_parts rfl (Nat.zero_le _) (List.forall_mem_append.mpr
      ⟨forall_mem_optional (yields_introduced.mp ht),
        forall_mem_optional (yields_introduced.mp he)⟩)
  case funcDecl =>
    obtain ⟨pos, -, -, -, x, -, ps, hp, throws, -, t, ht, b, hb, rfl⟩ := h
    refine fits_of_parts rfl (Nat.zero_le _) (List.forall_mem_append.mpr
      ⟨List.forall_mem_append.mpr ⟨?_, ?_⟩, List.forall_mem_singleton.mpr hb⟩)
    · exact List.forall_mem_map.mpr (yields_listed.mp hp)
    · exact forall_mem_optional (yields_introduced.mp ht)
  case typeDecl =>
    obtain ⟨pos, -, x, -, o, ho, rfl⟩ := h
    refine fits_of_parts rfl (Nat.zero_le _) (List.forall_mem_map.mpr ?_)
    cases o with
    | none => nofun
    | some ps =>
      obtain ⟨-, -, ps, hp, -, -, -, -, rfl⟩ := yields_attempt.mp ho ps rfl
      exact (yields_separated.mp hp).2
  case typeParam =>
    obtain ⟨pos, -, x, -, o, ho, rfl⟩ := h
    refine fits_of_parts rfl (Nat.zero_le _) (List.forall_mem_map.mpr ?_)
    cases o with
    | none => nofun
    | some cs => exact (yields_separated.mp (yields_introduced.mp ho cs rfl)).2
  -- Statements
  case stmt =>
    obtain ⟨pos, -, h⟩ := h
    refine fits_of_parts rfl (Nat.zero_le _) (List.forall_mem_singleton.mpr ?_)
    obtain ⟨s, hs, rfl⟩ | ⟨s, hs, rfl⟩ | ⟨s, hs, rfl⟩ | ⟨s, hs, rfl⟩ | ⟨s, hs, rfl⟩ | ⟨s, hs, rfl⟩ |
      ⟨s, hs, rfl⟩ | ⟨s, hs, rfl⟩ | ⟨s, hs, rfl⟩ | ⟨s, hs, rfl⟩ | ⟨⟨⟩⟩ := h <;> exact hs
  case block =>
    obtain ⟨pos, -, -, -, ss, hs, -, -, rfl⟩ := h
    cases room with
    | zero => exact hs.elim
    | succ room =>
      obtain ⟨ss, hs, ht⟩ := hs
      obtain rfl := yields_trailing.mp ht
      have hs := yields_optionalSeparated.mp hs
      refine fits_of_parts rfl (Nat.le_add_left 1 room) (List.forall_mem_map.mpr fun s h => ?_)
      exact Rule.Fits.deeper (hs s h) rfl
  case returnStmt =>
    obtain ⟨pos, -, -, -, o, ho, rfl⟩ := h
    exact fits_of_parts rfl (Nat.zero_le _) (forall_mem_optional (yields_attempt.mp ho))
  case ifStmt =>
    obtain ⟨pos, -, -, -, c, hc, m, hm, o, ho, rfl⟩ := h
    exact fits_of_parts rfl (Nat.zero_le _) (List.forall_mem_cons.mpr ⟨hc, List.forall_mem_cons.mpr
      ⟨hm, forall_mem_optional (yields_introduced.mp ho)⟩⟩)
  case forStmt =>
    obtain ⟨pos, -, -, -, t, ht, -, -, e, he, b, hb, rfl⟩ := h
    exact fits_of_parts rfl (Nat.zero_le _) (List.forall_mem_cons.mpr ⟨ht, List.forall_mem_cons.mpr
      ⟨he, List.forall_mem_singleton.mpr hb⟩⟩)
  case switchStmt =>
    obtain ⟨pos, -, -, -, e, he, -, -, cs, hc, -, -, rfl⟩ := h
    exact fits_of_parts rfl (Nat.zero_le _) (List.forall_mem_cons.mpr
      ⟨he, List.forall_mem_map.mpr (yields_many.mp hc)⟩)
  case caseStmt =>
    obtain ⟨pos, -, o, ho, -, -, ss', ⟨ss, hs, ht⟩, rfl⟩ := h
    obtain rfl := yields_trailing.mp ht
    refine fits_of_parts rfl (Nat.zero_le _) (List.forall_mem_append.mpr
      ⟨forall_mem_optional ?_, List.forall_mem_map.mpr (yields_optionalSeparated.mp hs)⟩)
    obtain ⟨-, -, rfl⟩ | ⟨-, -, c, hc, rfl⟩ | ⟨⟨⟩⟩ := ho
    · nofun
    · exact fun s hs => Option.some.inj hs ▸ hc
  case caseSelect =>
    obtain ⟨pos, -, ⟨c, hc, rfl⟩ | ⟨e, he, rfl⟩ | ⟨⟨⟩⟩⟩ := h
    · exact fits_of_parts rfl (Nat.zero_le _) (List.forall_mem_singleton.mpr hc)
    · exact fits_of_parts rfl (Nat.zero_le _) (List.forall_mem_singleton.mpr he)
  case enumCase =>
    obtain ⟨pos, -, -, -, x, -, o, -, rfl⟩ := h
    exact fits_of_parts rfl (Nat.zero_le _) nofun
  -- Expressions
  case expr =>
    cases room with
    | zero => exact h.elim
    | succ room => exact Rule.Fits.deeper (r := .binary .lowest) h rfl
  case binary min =>
    obtain ⟨u, hu, hloop⟩ := h
    refine hloop ((Rule.binary min).Fits (fun _ => True) room) ?_ ?_
    · exact fits_of_parts rfl (Nat.zero_le _) (List.forall_mem_singleton.mpr hu)
    · rintro left e hl ⟨_ | ⟨op, p⟩, -, he⟩
      · cases he
      · obtain ⟨right, hr, he⟩ := he
        cases he
        exact fits_of_parts rfl (Nat.zero_le _) (List.forall_mem_cons.mpr
          ⟨hl, List.forall_mem_singleton.mpr hr⟩)
  case unary =>
    obtain ⟨pos, -, sign, -, u, hu, rfl⟩ | ⟨t, ht, rfl⟩ | ⟨⟨⟩⟩ := h
    · cases room with
      | zero => exact hu.elim
      | succ room =>
        exact fits_of_parts rfl (Nat.zero_le _) (List.forall_mem_singleton.mpr
          (Rule.Fits.deeper (r := .unary) hu rfl))
    · exact fits_of_parts rfl (Nat.zero_le _) (List.forall_mem_singleton.mpr ht)
  case terminal =>
    obtain ⟨pos, -, h⟩ := h
    refine fits_of_parts rfl (Nat.zero_le _) (List.forall_mem_singleton.mpr ?_)
    obtain ⟨t, ht, rfl⟩ | ⟨t, ht, rfl⟩ | ⟨-, -, t, ht, -, -, rfl⟩ | ⟨t, ht, rfl⟩ | ⟨t, ht, rfl⟩ |
      ⟨⟨⟩⟩ := h <;> exact ht
  case literal =>
    obtain ⟨pos, -, x, -, rfl⟩ := h
    exact fits_of_parts rfl (Nat.zero_le _) nofun
  case reference =>
    obtain ⟨pos, -, x, -, ss, hs, rfl⟩ := h
    exact fits_of_parts rfl (Nat.zero_le _) (List.forall_mem_map.mpr (yields_many.mp hs))
  case selector =>
    obtain ⟨pos, -, ⟨-, -, x, -, rfl⟩ | ⟨-, -, e, he, -, -, rfl⟩ | ⟨c, hc, rfl⟩ | ⟨⟨⟩⟩⟩ := h
    · exact fits_of_parts rfl (Nat.zero_le _) nofun
    · exact fits_of_parts rfl (Nat.zero_le _) (List.forall_mem_singleton.mpr he)
    · exact fits_of_parts rfl (Nat.zero_le _) (List.forall_mem_singleton.mpr hc)
  case call | arrayLiteral | dictOrSetLiteral =>
    obtain ⟨pos, -, es, he, rfl⟩ := h
    exact fits_of_parts rfl (Nat.zero_le _) (List.forall_mem_map.mpr (yields_listed.mp he))
  case entry =>
    obtain ⟨pos, -, k, hk, o, ho, rfl⟩ := h
    exact fits_of_parts rfl (Nat.zero_le _) (List.forall_mem_cons.mpr
      ⟨hk, forall_mem_optional (yields_introduced.mp ho)⟩)

/-! What runs read -/

section

variable {α : Type} {ts : TokenStream} {limits : Limits} {g g' : Grammar α} {p q : Point} {v : α}
  {n : Nat}

theorem Grammar.yields_of_act? (h : g.act? ts p = some (.ok v, q)) : g.Yields room v := by
  cases g with
  | done =>
    cases h
    rfl
  | here | peek | advance | expect | operatorAbove => trivial
  | _ => cases h

theorem Grammar.yields_of_body? (h : g.body? = some g') (hv : g'.Yields room v) :
    g.Yields room v := by
  cases g with
  | call r =>
    cases h
    exact Rule.production_fits hv
  | observe =>
    cases h
    exact hv
  | _ => cases h

/-- The constructs that a run has open when it opens another are counted by its depth. -/
theorem Runs.yields {r : Except Error α} (h : Runs ts limits g p r q) (hl : limits.nesting = some n)
    (hroom : p.depth + room = n) (hv : r = .ok v) : g.Yields room v := by
  induction h generalizing room with
  | act step =>
    subst hv
    exact Grammar.yields_of_act? step
  | body meant _ ih => exact Grammar.yields_of_body? meant (ih hroom hv)
  | bind first _ ihf ihr =>
    exact ⟨_, ihf hroom rfl, ihr (first.onward.depth_eq ▸ hroom) hv⟩
  | first _ ih => exact .inl (ih hroom hv)
  | second failed _ _ _ _ ih => exact .inr (ih (failed.onward.depth_eq ▸ hroom) hv)
  | loopEnd _ =>
    cases hv
    exact fun I hI _ => hI
  | loopNext round _ ih ihr =>
    intro I hI hstep
    exact ihr (round.onward.depth_eq ▸ hroom) hv I (hstep _ _ hI (ih hroom rfl)) hstep
  | nested fits _ ih =>
    have hlt := Limits.lt_of_exceeded? fits hl
    obtain ⟨room, rfl⟩ : ∃ room', room = room' + 1 := ⟨room - 1, by omega⟩
    exact ih ((Nat.succ_add_eq_add_succ _ _).trans hroom) hv
  | bindError | lost | commit | loopError | tooDeep => cases hv

end

/-- Under a limit on nesting, no path through a tree that was read opens more constructs. -/
theorem TokenStream.opened_le {ts : TokenStream} {limits : Limits} {n : Nat} {a : Ast Nat}
    {ns : List (Node Nat)} (h : ts.indexedTreeUnder limits = .ok a) (hl : limits.nesting = some n)
    (hp : (Node.ast a).Path ns) : Node.opened ns ≤ n := by
  obtain ⟨q, hrun⟩ := ts.indexedTreeUnder_runs limits
  have hfits : Rule.ast.Fits (fun _ => True) n a := hrun.yields hl (Nat.zero_add n) h
  exact (hfits.2 ns hp).1

end Syntree
