import Syntree.Proofs.Commitment
import Syntree.Proofs.Layout
import Syntree.Proofs.Placement
import Syntree.Proofs.Rounding

/-!
Numbers of a source.

A number token is read as the number nearest to what its digits stand for. Past the largest number
that is an error, and no run around it makes anything else of it.
-/

namespace Syntree

open Decimal (Binary64 Writes)
open Grammar (exec tokenAt here_bind token_ok)

variable {ts : TokenStream} {limits : Limits}

/-! The digits of a token -/

theorem Lexical.Recognised.writes {text u : List Char} (h : Recognised .number text u) :
    ∃ q, Writes text q := by
  cases h with
  | whole inside => exact ⟨_, .whole (List.cons_ne_nil _ _) inside⟩
  | fraction inside behind digits =>
    exact ⟨_, .fraction (List.cons_ne_nil _ _) inside behind digits⟩
  | word starts _ _ known =>
    unfold kindOf at known
    repeat' split at known
    all_goals simp_all

/-- A token that the grammar sees was recognised somewhere. -/
theorem seen_of_tokenize {file source : String} {tokens : List Token} {t : Token}
    (h : tokenize file source = .ok tokens) (ht : t ∈ tokens) (hk : t.kind ≠ .eof) :
    ∃ p, Lexical.Seen p ∧ p.toLexeme = t.toLexeme := by
  obtain ⟨ps, stop, hp, rfl⟩ := tokenize_eq h
  rcases List.mem_append.mp ht with ht | ht
  · obtain ⟨hplaced, hl⟩ := List.mem_filter.mp ht
    have hmem : t.toLexeme ∈ (Lexical.placed file .start ps).map (·.toLexeme) :=
      List.mem_map.mpr ⟨t, hplaced, rfl⟩
    rw [Lexical.placed_lexemes] at hmem
    obtain ⟨p, hm, heq⟩ := List.mem_map.mp hmem
    refine ⟨p, Lexical.seen_of_pieces hp p (List.mem_filter.mpr ⟨hm, ?_⟩), heq⟩
    rw [heq]
    exact hl
  · obtain rfl := List.mem_singleton.mp ht
    exact absurd rfl hk

theorem writes_of_tokenize {file source : String} {tokens : List Token} {t : Token}
    (h : tokenize file source = .ok tokens) (ht : t ∈ tokens) (hk : t.kind = .number) :
    ∃ q, Writes t.value.toList q := by
  obtain ⟨p, ⟨-, ⟨u, hrec⟩, hvalue⟩, heq⟩ := seen_of_tokenize h ht (by simp [hk])
  rw [heq, hk] at hrec hvalue
  rw [Lexical.valueOf, if_neg (by decide), Except.ok.injEq] at hvalue
  rw [← hvalue, String.toList_ofList]
  exact hrec.writes

/-! Reading a number -/

namespace TokenStream

theorem exists_token {i : Nat} (h : (ts.lexeme i).kind ≠ .eof) :
    ∃ t, ts.tokens[i]? = some t ∧ ts.lexeme i = t.toLexeme := by
  cases ht : ts.tokens[i]? with
  | some t => exact ⟨t, rfl, lexeme_of_getElem? ht⟩
  | none => simp [lexeme, lexemes, tokenAt, ht, Lexeme.eof] at h

end TokenStream

namespace Grammar

theorem token_bind {α : Type} {input : Array Lexeme} {rules : (r : Rule) → State → Reply r.Result}
    {s : State} {l : Lexeme} (hl : tokenAt input s.cursor = l) (hne : l.kind ≠ .eof)
    (f : String → Grammar α) :
    exec input limits rules (token l.kind >>= f) s =
      exec input limits rules (f l.value) { s with cursor := s.cursor + 1 } := by
  have htoken : exec input limits rules (token l.kind) s =
      ⟨.ok l.value, { s with cursor := s.cursor + 1 }⟩ :=
    (token_ok hne).mpr ⟨congrArg Lexeme.kind hl, congrArg Lexeme.value hl.symm, rfl⟩
  rw [exec_bind, htoken]
  rfl

/-- Reading a number token takes the token and nothing else. -/
theorem number_run {s : State} {l : Lexeme} (hl : ts.lexeme s.cursor = l) (hk : l.kind = .number) :
    number.run ts.lexemes limits s =
      ⟨match Binary64.ofText? l.value.toList with
        | some x => .ok x
        | none => .fatal (.numberOutOfRange l.value s.cursor),
        { s with cursor := s.cursor + 1 }⟩ := by
  have hat : tokenAt ts.lexemes s.cursor = l := hl
  unfold run number
  rw [here_bind, ← hk, token_bind hat (by simp [hk])]
  cases Binary64.ofText? l.value.toList <;> rfl

section Token

variable {i : Nat} {t : Token} {q : ℚ}

theorem number_past (ht : ts.tokens[i]? = some t) (hk : t.kind = .number)
    (hq : Writes t.value.toList q) (hpast : 2 ^ 1024 - 2 ^ 970 ≤ q) {s : State}
    (hs : s.cursor = i) :
    number.run ts.lexemes limits s =
      ⟨.fatal (.numberOutOfRange t.value i), { s with cursor := i + 1 }⟩ := by
  subst hs
  rw [number_run (TokenStream.lexeme_of_getElem? ht) hk, hq.past_iff.mpr hpast]

theorem number_runs_past (ht : ts.tokens[i]? = some t) (hk : t.kind = .number)
    (hq : Writes t.value.toList q) (hpast : 2 ^ 1024 - 2 ^ 970 ≤ q) {p : Point}
    (hp : p.cursor = i) :
    ∃ p', Runs ts limits number p (.error ⟨.numberOutOfRange t.value, t.span.start⟩) p' := by
  have hran : (number.run ts.lexemes limits ⟨p.cursor, p.failure, p.depth, []⟩).Ran ts limits number
      p := run_ran number _ p.failed
  rw [number_past ht hk hq hpast hp] at hran
  obtain ⟨failed, hrun⟩ := hran nofun
  rw [← TokenStream.position_of_getElem? ht]
  exact ⟨_, hrun⟩

theorem number_nearest (ht : ts.tokens[i]? = some t) (hk : t.kind = .number)
    (hq : Writes t.value.toList q) (hbelow : q < 2 ^ 1024 - 2 ^ 970) :
    ∃ x : Binary64, x.Nearest q ∧ ∀ s : State, s.cursor = i →
      number.run ts.lexemes limits s = ⟨.ok x, { s with cursor := i + 1 }⟩ := by
  cases hread : Binary64.ofText? t.value.toList with
  | none => exact absurd (hq.past_iff.mp hread) (not_le.mpr hbelow)
  | some x =>
    refine ⟨x, hq.nearest hread, ?_⟩
    rintro s rfl
    rw [number_run (TokenStream.lexeme_of_getElem? ht) hk, hread]

end Token

end Grammar

/-- A run inside the one that reads the whole source decides what comes of the source, if it ends
with an error that is no mismatch. -/
theorem Enters.decides {β : Type} {h : Grammar β} {q q' : Point} {e : Error}
    (he : Enters ts .standard h q (.call .ast) .start) (hr : Runs ts .standard h q (.error e) q')
    (hf : e.cause.recoverable = false) : ts.tree = .error e := by
  obtain ⟨p', hast⟩ := he.final hr hf
  exact TokenStream.treeUnder_error.mpr (TokenStream.indexedTreeUnder_eq hast)

/-! Numbers in the tree -/

/-- A number in a tree was read from a number token. -/
theorem Node.Read.numeral {i : Nat} {x : Binary64}
    (h : (Node.literal ⟨i, .number x⟩).Read ts.lexemes) :
    (ts.lexeme i).kind = .number ∧
      Binary64.ofText? (ts.lexeme i).value.toList = some x := by
  obtain ⟨r, v, w, j, hv, hd⟩ := h
  cases r <;> cases hv
  change Derives .standard ts.lexemes (.rule .literal) i w j ⟨i, .number x⟩ at hd
  cases hd with
  | number part denotes =>
    cases part with
    | token _ found => exact ⟨found, denotes⟩

theorem Node.map_eq_literal {π ρ : Type} {f : π → ρ} {n : Node π} {l : Literal ρ}
    (h : n.map f = .literal l) : ∃ m : Literal π, n = .literal m ∧ l = ⟨f m.pos, m.value⟩ := by
  cases n <;> cases h
  exact ⟨_, rfl, rfl⟩

/-- For every source whose scanning succeeds, and every number token of it, with `q` what its digits
stand for. Past the middle between the largest number and the power of two above it, reading the
token is an error, which is that of every run around it and of the source. Else the token is read as
the one number that is nearest to `q`. The numbers in a tree are those of number tokens. -/
theorem numbers_nearest {file source : String} {tokens : List Token}
    (h : tokenize file source = .ok tokens) :
    let ts := TokenStream.ofTokens tokens
    (∀ (i : Nat) (t : Token), tokens[i]? = some t → t.kind = .number →
      ∃ q : ℚ, Writes t.value.toList q ∧
        (2 ^ 1024 - 2 ^ 970 ≤ q →
          (∀ s : State, s.cursor = i →
            let reply := Grammar.number.run ts.lexemes .standard s
            ts.result reply.outcome reply.state.failure =
              .error ⟨.numberOutOfRange t.value, t.span.start⟩) ∧
          ∀ p : Point, p.cursor = i →
            (∀ {α : Type} {g : Grammar α} {p₀ : Point}, Enters ts .standard Grammar.number p g p₀ →
              ∃ p₁, Runs ts .standard g p₀
                (.error ⟨.numberOutOfRange t.value, t.span.start⟩) p₁) ∧
            (Enters ts .standard Grammar.number p (.call .ast) .start →
              parse file source = .error ⟨.numberOutOfRange t.value, t.span.start⟩)) ∧
        (q < 2 ^ 1024 - 2 ^ 970 → ∃ x : Binary64, (∀ y : Binary64, y.Nearest q ↔ y = x) ∧
          ∀ s : State, s.cursor = i →
            Grammar.number.run ts.lexemes .standard s = ⟨.ok x, { s with cursor := i + 1 }⟩)) ∧
    ∀ a, parse file source = .ok a → ∀ (l : Literal Position) (x : Binary64),
      Node.literal l ∈ (Node.ast a).subtree → l.value = .number x →
      ∃ (i : Nat) (t : Token) (q : ℚ), tokens[i]? = some t ∧ t.kind = .number ∧
        l.pos = t.span.start ∧ Writes t.value.toList q ∧ ∀ y : Binary64, y.Nearest q ↔ y = x := by
  intro ts
  have htokens (i : Nat) : ts.tokens[i]? = tokens[i]? := by
    rw [show ts.tokens = tokens.toArray from tokenize_stream h, List.getElem?_toArray]
  have hparse : parse file source = ts.tree := by
    rw [parse, h]
    rfl
  have honly {q : ℚ} {x : Binary64} (hx : x.Nearest q) (y : Binary64) : y.Nearest q ↔ y = x :=
    ⟨fun hy => hy.unique hx, fun heq => heq ▸ hx⟩
  refine ⟨fun i t ht hk => ?_, fun a ha l x hl hx => ?_⟩
  · obtain ⟨q, hq⟩ := writes_of_tokenize h (List.mem_of_getElem? ht) hk
    rw [← htokens] at ht
    refine ⟨q, hq, fun hpast => ?_, fun hbelow => ?_⟩
    · have herror (s : State) (hs : s.cursor = i) :
          let reply := Grammar.number.run ts.lexemes .standard s
          ts.result reply.outcome reply.state.failure =
            .error ⟨.numberOutOfRange t.value, t.span.start⟩ := by
        rw [Grammar.number_past ht hk hq hpast hs, ← TokenStream.position_of_getElem? ht]
        rfl
      refine ⟨herror, fun p hp => ?_⟩
      obtain ⟨p', hrun⟩ := Grammar.number_runs_past ht hk hq hpast hp
      exact ⟨fun hin => hin.final hrun rfl, fun hin => hparse.trans (hin.decides hrun rfl)⟩
    · obtain ⟨x, hx, hrun⟩ := Grammar.number_nearest ht hk hq hbelow
      exact ⟨x, honly hx, hrun⟩
  · rw [hparse] at ha
    obtain ⟨b, rfl, hin⟩ := TokenStream.tree_inside (tokenize_lawful h) ha
    rw [← Node.map, Node.subtree_map] at hl
    obtain ⟨m, hm, hml⟩ := List.mem_map.mp hl
    obtain ⟨⟨i, value⟩, rfl, rfl⟩ := Node.map_eq_literal hml
    obtain rfl : value = .number x := hx
    obtain ⟨hk, hvalue⟩ := (hin _ hm).2.1.numeral
    have hne : (ts.lexeme i).kind ≠ .eof := hk ▸ TokenKind.noConfusion
    obtain ⟨t, ht, hlexeme⟩ := TokenStream.exists_token hne
    rw [hlexeme] at hk hvalue
    have ht' : tokens[i]? = some t := (htokens i).symm.trans ht
    obtain ⟨q, hq⟩ := writes_of_tokenize h (List.mem_of_getElem? ht') hk
    exact ⟨i, t, q, ht', hk, TokenStream.position_of_getElem? ht, hq, honly (hq.nearest hvalue)⟩

/-- Half way between two neighbours, of which the even one is taken. -/
theorem numbers_nearest_tie :
    ∃ tokens t x, tokenize "f" "let x = 9007199254740993.0;" = .ok tokens ∧ tokens[3]? = some t ∧
      x.significand = 2 ^ 52 ∧ x.exponent = 1075 ∧
      Writes t.value.toList (2 ^ 53 + 1) ∧ (∀ y : Binary64, y.Nearest (2 ^ 53 + 1) ↔ y = x) ∧
      ∀ s : State, s.cursor = 3 →
        Grammar.number.run (TokenStream.ofTokens tokens).lexemes .standard s =
          ⟨.ok x, { s with cursor := 4 }⟩ := by
  have hscan : (tokenize "f" "let x = 9007199254740993.0;").isOk = true := by decide +kernel
  have hnumber : (tokenize "f" "let x = 9007199254740993.0;").toOption.bind
      (fun tokens => tokens[3]?.map (·.toLexeme)) = some ⟨.number, "9007199254740993.0"⟩ := by
    decide +kernel
  have hread : (Binary64.ofText? "9007199254740993.0".toList).map (fun x =>
      (x.significand, x.exponent)) = some (2 ^ 52, 1075) := by
    decide +kernel
  have hnumeral : Decimal.Numeral.ofText? "9007199254740993.0".toList =
      some ⟨90071992547409930, -1⟩ := by
    decide +kernel
  obtain ⟨tokens, ht⟩ := Except.exists_of_isOk hscan
  rw [ht] at hnumber
  obtain ⟨t, hat, htext⟩ := Option.map_eq_some_iff.mp hnumber
  have hvalue : t.value = "9007199254740993.0" := congrArg Lexeme.value htext
  obtain ⟨x, hx, hparts⟩ := Option.map_eq_some_iff.mp hread
  obtain ⟨hsignificand, hexponent⟩ := Prod.mk.inj hparts
  obtain ⟨q, hq, -, hnear⟩ := (numbers_nearest ht).1 3 t hat (congrArg Lexeme.kind htext)
  obtain rfl : q = 2 ^ 53 + 1 := by
    obtain ⟨n, hn, rfl⟩ := hq.ofText?
    rw [hvalue, hnumeral] at hn
    rw [← Option.some.inj hn, Decimal.Numeral.value]
    norm_num
  have hbelow : (2 ^ 53 + 1 : ℚ) < 2 ^ 1024 - 2 ^ 970 := by
    have hone : (1 : ℚ) ≤ 2 ^ 970 := one_le_pow₀ one_le_two
    rw [Binary64.middle_eq]
    calc (2 ^ 53 + 1 : ℚ) < (2 ^ 54 - 1) * 1 := by norm_num
      _ ≤ (2 ^ 54 - 1) * 2 ^ 970 := mul_le_mul_of_nonneg_left hone (by norm_num)
  obtain ⟨y, hy, hrun⟩ := hnear hbelow
  obtain rfl := (hy _).mp (hq.nearest (hvalue ▸ hx))
  exact ⟨tokens, t, x, ht, hat, hsignificand, hexponent, hq, hy, hrun⟩

end Syntree
