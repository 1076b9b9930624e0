import Syntree.Line
import Syntree.Proofs.Expected
import Syntree.Proofs.Faults
import Syntree.Proofs.Unplaced

/-!
Lines of a source. What is found at an offset is the line between two newlines that the offset lies
on, and wherever reading a source names a position, it is the line and the column named there.
-/

namespace Syntree

/-! Bytes -/

/-- A text that is no longer than another beginning of the same source is a beginning of it. -/
theorem prefix_of_bytes_le {a b cs : List Char} (ha : a <+: cs) (hb : b <+: cs)
    (h : bytes a ≤ bytes b) : a <+: b := by
  rcases List.prefix_or_prefix_of_prefix ha hb with hab | ⟨r, rfl⟩
  · exact hab
  · rw [bytes_append] at h
    have hr : r = [] := by
      by_contra hne
      have hpos := bytes_pos hne
      omega
    simp [hr]

namespace Line

variable {u rest : List Char} {n o : Nat}

/-- A line that the offset `o` lies on: what a source has between `before`, which is nothing or ends
a line itself, and `behind`. It is `body` and the newline that ends it, or `body` and the last. -/
structure Holds (source before body behind : List Char) (o : Nat) (l : Line) : Prop where
  source_eq : source = before ++ (l.text ++ behind)
  starts : before = [] ∨ before.getLast? = some '\n'
  body_line : '\n' ∉ body
  ends : l.text = body ++ ['\n'] ∨ l.text = body ∧ behind = []
  offset_eq : o = bytes before + l.offset
  offset_le : l.offset ≤ bytes body

variable {cs before body behind : List Char} {l : Line}

theorem Holds.body_prefix (h : l.Holds cs before body behind o) : body <+: l.text := by
  rcases h.ends with htext | ⟨htext, -⟩
  · exact ⟨_, htext.symm⟩
  · exact htext ▸ List.prefix_refl _

/-- What stands before the offset is the lines before its line and a part of this. -/
theorem Holds.split {pre post : List Char} (h : l.Holds cs before body behind (bytes pre))
    (hcs : cs = pre ++ post) : ∃ left right, pre = before ++ left ∧ l.text = left ++ right ∧
      post = right ++ behind ∧ l.offset = bytes left ∧ '\n' ∉ left := by
  have hbefore : before <+: cs := h.source_eq ▸ List.prefix_append ..
  have hpre : pre <+: cs := hcs ▸ List.prefix_append ..
  have hle : bytes before ≤ bytes pre := h.offset_eq ▸ Nat.le_add_right ..
  obtain ⟨left, rfl⟩ := prefix_of_bytes_le hbefore hpre hle
  have hoffset : l.offset = bytes left := by
    have ho := h.offset_eq
    rw [bytes_append] at ho
    omega
  have hrest : l.text ++ behind = left ++ post := by
    have hsource := h.source_eq.symm.trans hcs
    rwa [List.append_assoc, List.append_cancel_left_eq] at hsource
  have hstart : left <+: l.text ++ behind := hrest ▸ List.prefix_append ..
  have hbody : body <+: l.text ++ behind := h.body_prefix.trans (List.prefix_append ..)
  have hleft : left <+: body := prefix_of_bytes_le hstart hbody (hoffset ▸ h.offset_le)
  obtain ⟨right, hright⟩ := hleft.trans h.body_prefix
  refine ⟨left, right, rfl, hright.symm, ?_, hoffset, fun hm => h.body_line (hleft.subset hm)⟩
  rw [← hright, List.append_assoc, List.append_cancel_left_eq] at hrest
  exact hrest.symm

end Line

/-! Places of errors -/

theorem ReadAlike.of_error {T T' : List Token} {e : Error} {r' : Except Error (Ast Position)}
    (h : ReadAlike T T' (.error e) r') :
    ∃ (i : Nat) (t t' : Token), T[i]? = some t ∧ T'[i]? = some t' ∧
      e.position = t.span.start ∧ r' = .error ⟨e.cause, t'.span.start⟩ := by
  cases h with
  | error first second => exact ⟨_, _, _, first, second, rfl, rfl⟩

end Syntree
