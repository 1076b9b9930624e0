import Syntree.Proofs.Runs
import Syntree.Proofs.Soundness

/-!
What the same rules make of the same tokens under other limits.
-/

namespace Syntree

namespace TokenStream

variable {ts : TokenStream} {limits : Limits}

/-- The tree that the rules find under other limits, with token indices as positions. -/
def indexedTreeUnder (limits : Limits) (ts : TokenStream) : Except Error (Ast Nat) :=
  let reply := (Grammar.call .ast).run ts.lexemes limits .start
  ts.result reply.outcome reply.state.failure

def treeUnder (limits : Limits) (ts : TokenStream) : Except Error (Ast Position) :=
  (ts.indexedTreeUnder limits).map (·.map ts.position)

theorem treeUnder_ok {a : Ast Position} :
    ts.treeUnder limits = .ok a ↔
      ∃ b, ts.indexedTreeUnder limits = .ok b ∧ a = b.map ts.position := by
  unfold treeUnder
  cases ts.indexedTreeUnder limits <;> simp [Except.map, eq_comm]

theorem treeUnder_error {e : Error} :
    ts.treeUnder limits = .error e ↔ ts.indexedTreeUnder limits = .error e := by
  unfold treeUnder
  cases ts.indexedTreeUnder limits <;> simp [Except.map]

theorem indexedTreeUnder_runs (limits : Limits) (ts : TokenStream) :
    ∃ q, Runs ts limits (.call .ast) .start (ts.indexedTreeUnder limits) q := by
  have hran : ((Grammar.call .ast).run ts.lexemes limits .start).Ran ts limits (.call .ast)
      .start := Grammar.run_ran _ .start []
  obtain ⟨failed, hrun⟩ := hran (Rule.run_openRules .ast .start)
  exact ⟨_, hrun⟩

theorem indexedTreeUnder_eq {r : Except Error (Ast Nat)} {q : Point}
    (h : Runs ts limits (.call .ast) .start r q) : ts.indexedTreeUnder limits = r := by
  obtain ⟨q', h'⟩ := ts.indexedTreeUnder_runs limits
  exact (h'.unique h).1

/-- A tree under any limits records a derivation. -/
theorem indexedTreeUnder_derives (hi : LawfulInput ts.lexemes) {a : Ast Nat}
    (h : ts.indexedTreeUnder limits = .ok a) :
    ∃ w j, Derives limits ts.lexemes (.rule .ast) 0 w j a := by
  have hreply : ∃ s, (Grammar.call .ast).run ts.lexemes limits .start = ⟨.ok a, s⟩ := by
    unfold indexedTreeUnder at h
    cases hr : (Grammar.call .ast).run ts.lexemes limits .start with
    | mk o s =>
      rw [hr] at h
      cases o with
      | ok b =>
        cases h
        exact ⟨s, rfl⟩
      | mismatch | fatal | exhausted => cases h
  obtain ⟨s, hs⟩ := hreply
  obtain ⟨w, hw⟩ := Rule.run_sound hi _ .ast .start a s hs
  exact ⟨w, s.cursor, hw⟩

end TokenStream

end Syntree
