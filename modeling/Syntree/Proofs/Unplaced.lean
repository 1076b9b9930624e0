import Syntree.Proofs.Placement
import Syntree.Proofs.Relocation
import Syntree.Proofs.Session

/-!
Positions have no part in parsing. What is made of some tokens, be it a tree or an error, says of
every position in it which token it is taken from, and that is the same for all tokens of the same
kinds and values, wherever in a source they stand.
-/

namespace Syntree

open Grammar (tokenAt)

theorem Node.pos_of_map_eq {n : Node Nat} {f : Nat → Nat} (h : n.map f = n) :
    ∀ m ∈ n.subtree, f m.pos = m.pos := by
  have hs : n.subtree.map (map f) = n.subtree.map id := by
    rw [← subtree_map, h, List.map_id]
  intro m hm
  have hm' := congrArg Node.pos (List.map_inj_left.mp hs m hm)
  rwa [pos_map] at hm'

namespace TokenStream

variable (ts : TokenStream)

/-- No run gets past the first end of the input, so that positions behind it do not occur. -/
def upToEof : Relocation ts.lexemes ts.lexemes where
  shift := 0
  last := ts.firstEof
  place i := min i ts.firstEof
  place_eq _ h := Nat.min_eq_left h
  token_eq _ _ := rfl
  ends := ts.kind_firstEof
  size_eq := rfl

theorem reply_alike :
    ts.upToEof.Alike (Rule.ast.relocate ts.upToEof.place) ts.reply ts.reply := by
  rw [ts.reply_eq]
  exact ts.upToEof.run_alike _ _ .ast ⟨rfl, rfl, Nat.zero_le _⟩

variable {ts} {b : Ast Nat} {e : Fatal} {s : State}

/-- Every node of a tree stands at a token up to the first end of the input. -/
theorem pos_le_firstEof (h : ts.reply = ⟨.ok b, s⟩) :
    ∀ n ∈ (Node.ast b).subtree, n.pos ≤ ts.firstEof := by
  have ha := ts.reply_alike
  rw [h] at ha
  obtain ⟨s', heq, -⟩ := ha.of_ok nofun
  have hb : b.map ts.upToEof.place = b := (Outcome.ok.inj (congrArg Reply.outcome heq)).symm
  have hn : (Node.ast b).map ts.upToEof.place = .ast b := congrArg Node.ast hb
  intro n hm
  rw [← Node.pos_of_map_eq hn n hm]
  exact Nat.min_le_right ..

/-- So does an error that ends a run at once. -/
theorem index_le_firstEof (h : ts.reply = ⟨.fatal e, s⟩) : e.index ≤ ts.firstEof := by
  have ha := ts.reply_alike
  rw [h] at ha
  obtain ⟨s', heq⟩ := ha.of_fatal nofun
  have he : e.relocate ts.upToEof.place = e :=
    (Outcome.fatal.inj (congrArg Reply.outcome heq)).symm
  rw [← he]
  cases e <;> exact Nat.min_le_right ..

/-- The run that reads a source sees kinds and values only. -/
theorem reply_congr {ts' : TokenStream} (h : ts.lexemes = ts'.lexemes) : ts.reply = ts'.reply := by
  unfold reply
  rw [h]

end TokenStream

/-- What is made of two lists of tokens, be it trees or errors, that differ in positions alone.
These are those of tokens at the same index. -/
inductive ReadAlike (T T' : List Token) :
    Except Error (Ast Position) → Except Error (Ast Position) → Prop where
  | ok {b : Ast Nat} {f f' : Nat → Position}
      (places : ∀ n ∈ (Node.ast b).subtree, ∃ t t', T[n.pos]? = some t ∧ T'[n.pos]? = some t' ∧
        f n.pos = t.span.start ∧ f' n.pos = t'.span.start) :
      ReadAlike T T' (.ok (b.map f)) (.ok (b.map f'))
  | error {cause : Cause} {i : Nat} {t t' : Token} (first : T[i]? = some t)
      (second : T'[i]? = some t') :
      ReadAlike T T' (.error ⟨cause, t.span.start⟩) (.error ⟨cause, t'.span.start⟩)

theorem readAlike_of_lexemes {ts ts' : TokenStream} (h : ts.lexemes = ts'.lexemes) :
    ReadAlike ts.tokens.toList ts'.tokens.toList ts.tree ts'.tree := by
  have hsize : ts.tokens.size = ts'.tokens.size := by
    simpa [TokenStream.lexemes] using congrArg Array.size h
  have hat {i : Nat} (hi : i < ts.tokens.size) : ∃ t t', ts.tokens.toList[i]? = some t ∧
      ts'.tokens.toList[i]? = some t' ∧
      ts.position i = t.span.start ∧ ts'.position i = t'.span.start := by
    have ht := Array.getElem?_eq_getElem hi
    have ht' := Array.getElem?_eq_getElem (hsize ▸ hi)
    exact ⟨_, _, Array.getElem?_toList.trans ht, Array.getElem?_toList.trans ht',
      TokenStream.position_of_getElem? ht, TokenStream.position_of_getElem? ht'⟩
  have herror (cause : Cause) {i : Nat} (hi : i < ts.tokens.size) :
      ReadAlike ts.tokens.toList ts'.tokens.toList (.error ⟨cause, ts.position i⟩)
        (.error ⟨cause, ts'.position i⟩) := by
    obtain ⟨t, t', ht, ht', hp, hp'⟩ := hat hi
    rw [hp, hp']
    exact .error ht ht'
  have heof := ts.firstEof_lt
  have hf := ts.furthest_lt
  have hne := ts.reply_ne_exhausted
  rw [ts.tree_eq, ts'.tree_eq, ← TokenStream.reply_congr h]
  cases hr : ts.reply with
  | mk o s =>
    rw [hr] at hf hne
    cases o with
    | ok b =>
      exact .ok fun n hn =>
        hat (Nat.lt_of_le_of_lt (TokenStream.pos_le_firstEof hr n hn) heof)
    | fatal e =>
      exact herror e.cause (Nat.lt_of_le_of_lt (TokenStream.index_le_firstEof hr) heof)
    | mismatch =>
      have hsecond : ts'.mismatch s.failure =
          ⟨(ts.mismatch s.failure).cause, ts'.position s.failure.furthest⟩ := by
        simp only [TokenStream.mismatch, TokenStream.lexeme, h]
      change ReadAlike _ _ (.error (ts.mismatch s.failure)) (.error (ts'.mismatch s.failure))
      rw [hsecond]
      exact herror _ hf
    | exhausted => exact absurd rfl hne

/-- Sources that consist of tokens of the same kinds and values are read alike. -/
theorem parse_alike {file source file' source' : String} {T T' : List Token}
    (hs : tokenize file source = .ok T) (hs' : tokenize file' source' = .ok T')
    (h : T.map (·.toLexeme) = T'.map (·.toLexeme)) :
    ReadAlike T T' (parse file source) (parse file' source') := by
  have hp : parse file source = (TokenStream.ofTokens T).tree := by unfold parse; rw [hs]; rfl
  have hp' : parse file' source' = (TokenStream.ofTokens T').tree := by
    unfold parse; rw [hs']; rfl
  have hts := tokenize_stream hs
  have hts' := tokenize_stream hs'
  have hlex : (TokenStream.ofTokens T).lexemes = (TokenStream.ofTokens T').lexemes := by
    simp [hts, hts', TokenStream.lexemes, h]
  have halike := readAlike_of_lexemes hlex
  rwa [hts, hts', ← hp, ← hp'] at halike

/-- Two lists of tokens of the same kinds and values, which end with the end of the input, are read
alike, and so are two sources that consist of them. -/
theorem parse_unplaced {T T' : List Token} (h : T.map (·.toLexeme) = T'.map (·.toLexeme))
    (hlast : (T.map (·.kind)).getLast? = some .eof) :
    let ts := TokenStream.ofTokens T
    let ts' := TokenStream.ofTokens T'
    ts.reply.state.cursor = ts'.reply.state.cursor ∧
    ts.reply.state.failure = ts'.reply.state.failure ∧
    ReadAlike T T' ts.tree ts'.tree ∧
    (∀ a a', ts.tree = .ok a → ts'.tree = .ok a' →
      a.map (fun _ => ()) = a'.map fun _ => ()) ∧
    ∀ file source file' source', tokenize file source = .ok T → tokenize file' source' = .ok T' →
      ReadAlike T T' (parse file source) (parse file' source') := by
  have hkinds : T.map (·.kind) = T'.map (·.kind) := by
    simpa [Function.comp_def] using congrArg (List.map (·.kind)) h
  have hlast' : (T'.map (·.kind)).getLast? = some .eof := by rw [← hkinds, hlast]
  intro ts ts'
  have hts : ts.tokens = T.toArray := TokenStream.ofTokens_tokens hlast
  have hts' : ts'.tokens = T'.toArray := TokenStream.ofTokens_tokens hlast'
  have hlex : ts.lexemes = ts'.lexemes := by simp [hts, hts', TokenStream.lexemes, h]
  have hreply : ts.reply = ts'.reply := TokenStream.reply_congr hlex
  have hread : ReadAlike T T' ts.tree ts'.tree := by
    have halike := readAlike_of_lexemes hlex
    rwa [hts, hts'] at halike
  refine ⟨by rw [hreply], by rw [hreply], hread, ?_, ?_⟩
  · intro a a' ha ha'
    rw [ha, ha'] at hread
    cases hread with
    | ok => simp only [Ast.map_map, Function.comp_def]
  · intro file source file' source' hs hs'
    exact parse_alike hs hs' h

/-- The same tokens with comments, blanks and a line continuation between them. -/
theorem parse_unplaced_layout :
    ∃ T T' a a', tokenize "f" "let x=-y;" = .ok T ∧
      tokenize "g" "/*c*/let x\\\n= - y //d\n;" = .ok T' ∧
      T.map (·.toLexeme) = T'.map (·.toLexeme) ∧ T ≠ T' ∧
      parse "f" "let x=-y;" = .ok a ∧ parse "g" "/*c*/let x\\\n= - y //d\n;" = .ok a' ∧
      ReadAlike T T' (.ok a) (.ok a') := by
  have hscan : (tokenize "f" "let x=-y;").isOk = true := by decide +kernel
  have hscan' : (tokenize "g" "/*c*/let x\\\n= - y //d\n;").isOk = true := by decide +kernel
  have hparse : (parse "f" "let x=-y;").isOk = true := by decide +kernel
  have hparse' : (parse "g" "/*c*/let x\\\n= - y //d\n;").isOk = true := by decide +kernel
  obtain ⟨T, hT⟩ := Except.exists_of_isOk hscan
  obtain ⟨T', hT'⟩ := Except.exists_of_isOk hscan'
  obtain ⟨a, ha⟩ := Except.exists_of_isOk hparse
  obtain ⟨a', ha'⟩ := Except.exists_of_isOk hparse'
  have hsame : ((tokenize "f" "let x=-y;").toOption.map (·.map (·.toLexeme))) =
      ((tokenize "g" "/*c*/let x\\\n= - y //d\n;").toOption.map (·.map (·.toLexeme))) := by
    decide +kernel
  have hne : (tokenize "f" "let x=-y;").toOption ≠
      (tokenize "g" "/*c*/let x\\\n= - y //d\n;").toOption := by decide +kernel
  have heof : ((tokenize "f" "let x=-y;").toOption.bind (·.map (·.kind) |>.getLast?)) =
      some .eof := by decide +kernel
  rw [hT, hT'] at hsame hne
  rw [hT] at heof
  obtain ⟨-, -, -, -, hread⟩ := parse_unplaced (Option.some.inj hsame) heof
  have halike := hread _ _ _ _ hT hT'
  rw [ha, ha'] at halike
  exact ⟨T, T', a, a', hT, hT', Option.some.inj hsame, fun h => hne (congrArg some h), ha,
    ha', halike⟩

end Syntree
