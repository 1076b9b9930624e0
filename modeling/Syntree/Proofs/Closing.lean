import Syntree.Proofs.Tiling

/-!
Marks that close a comment or a string. Where they are found does not depend on what stands behind
them.
-/

namespace Syntree

theorem Except.exists_of_map_ok {ε α β : Type} {x : Except ε α} {f : α → β} {b : β}
    (h : x.map f = .ok b) : ∃ a, x = .ok a := by
  cases x with
  | error e => cases h
  | ok a => exact ⟨a, rfl⟩

namespace Lexical

open Text

variable {c : Char} {cs : List Char}

/-- A text around a character at a known distance. -/
theorem split_at {n : Nat} {q : Char} (h : cs[n]? = some q) :
    cs = cs.take n ++ [q] ++ cs.drop (n + 1) ∧ (cs.take n).length = n := by
  obtain ⟨hn, -⟩ := List.getElem?_eq_some_iff.mp h
  rw [← take_to h, List.take_append_drop, List.length_take_of_le (Nat.le_of_lt hn)]
  exact ⟨rfl, rfl⟩

/-! Comments -/

theorem closeComment_append {n : Nat} (h : closeComment cs = some n) (u : List Char) :
    closeComment (cs ++ u) = some n := by
  induction cs using closeComment.induct generalizing n with
  | case1 cs => exact h
  | case2 c cs hc ih =>
    rw [closeComment.eq_2 _ _ hc] at h
    obtain ⟨m, hm, rfl⟩ := Option.map_eq_some_iff.mp h
    have hc' : ∀ r, c = '*' → cs ++ u = '/' :: r → False := by
      rintro r rfl hr
      cases cs with
      | nil => cases hm
      | cons d ds => exact hc ds rfl (by rw [(List.cons.inj hr).1])
    rw [List.cons_append, closeComment.eq_2 _ _ hc', ih hm]
    rfl
  | case3 => cases h

theorem closeComment_le {n : Nat} (h : closeComment cs = some n) : n ≤ cs.length := by
  induction cs using closeComment.induct generalizing n with
  | case1 cs =>
    cases h
    simp
  | case2 c cs hc ih =>
    rw [closeComment.eq_2 _ _ hc] at h
    obtain ⟨m, hm, rfl⟩ := Option.map_eq_some_iff.mp h
    exact Nat.succ_le_succ (ih hm)
  | case3 => cases h

theorem closeComment_take {n : Nat} (h : closeComment cs = some n) :
    closeComment (cs.take n) = some n := by
  induction cs using closeComment.induct generalizing n with
  | case1 cs =>
    cases h
    rfl
  | case2 c cs hc ih =>
    rw [closeComment.eq_2 _ _ hc] at h
    obtain ⟨m, hm, rfl⟩ := Option.map_eq_some_iff.mp h
    have hc' : ∀ r, c = '*' → cs.take m = '/' :: r → False := by
      intro r hstar hr
      cases cs with
      | nil => cases hm
      | cons d ds =>
        cases m with
        | zero => cases hr
        | succ m => exact hc ds hstar (by rw [(List.cons.inj hr).1])
    rw [List.take_succ_cons, closeComment.eq_2 _ _ hc', ih hm]
    rfl
  | case3 => cases h

/-! Quotes -/

theorem closingQuote_append {n : Nat} (h : closingQuote cs = some n) (u : List Char) :
    closingQuote (cs ++ u) = some n := by
  induction cs using closingQuote.induct generalizing n with
  | case1 => cases h
  | case2 c cs ih =>
    simp only [closingQuote, Option.map_eq_some_iff] at h
    obtain ⟨m, hm, rfl⟩ := h
    simp [closingQuote, ih hm]
  | case3 cs hn => simp_all [closingQuote]
  | case4 c cs hn hc ih =>
    rw [closingQuote.eq_3 _ _ hn, if_neg hc] at h
    obtain ⟨m, hm, rfl⟩ := Option.map_eq_some_iff.mp h
    have hn' : ∀ d r, c = '\\' → cs ++ u = d :: r → False := by
      rintro d r rfl hr
      cases cs with
      | nil => cases hm
      | cons e es => exact hn e es rfl rfl
    rw [List.cons_append, closingQuote.eq_3 _ _ hn', if_neg hc, ih hm]
    rfl

theorem closingQuote_take {n : Nat} (h : closingQuote cs = some n) :
    closingQuote (cs.take n ++ ['"']) = some n := by
  induction cs using closingQuote.induct generalizing n with
  | case1 => cases h
  | case2 c cs ih =>
    simp only [closingQuote, Option.map_eq_some_iff] at h
    obtain ⟨m, hm, rfl⟩ := h
    simp [closingQuote, ih hm]
  | case3 cs hn =>
    simp only [closingQuote, if_true, Option.some.injEq] at h
    rw [← h]
    rfl
  | case4 c cs hn hc ih =>
    rw [closingQuote.eq_3 _ _ hn, if_neg hc] at h
    obtain ⟨m, hm, rfl⟩ := Option.map_eq_some_iff.mp h
    have hn' : ∀ d r, c = '\\' → cs.take m ++ ['"'] = d :: r → False := by
      intro d r hback hr
      cases cs with
      | nil => cases hm
      | cons e es => exact hn e es hback rfl
    rw [List.take_succ_cons, List.cons_append, closingQuote.eq_3 _ _ hn', if_neg hc, ih hm]
    rfl

theorem singleQuote_content (h : '\x27' ∉ cs) (u : List Char) :
    singleQuote (cs ++ '\x27' :: u) = some cs.length := by
  induction cs with
  | nil => rfl
  | cons c cs ih =>
    obtain ⟨hc, hcs⟩ := not_or.mp (mt List.mem_cons.mpr h)
    rw [List.cons_append, singleQuote, if_neg (Ne.symm hc), ih hcs]
    rfl

theorem singleQuote_take {n : Nat} (h : singleQuote cs = some n) : '\x27' ∉ cs.take n := by
  induction cs generalizing n with
  | nil => cases h
  | cons c cs ih =>
    simp only [singleQuote] at h
    split at h
    · cases h
      simp
    · next hc =>
      obtain ⟨m, hm, rfl⟩ := Option.map_eq_some_iff.mp h
      rw [List.take_succ_cons, List.mem_cons, not_or]
      exact ⟨Ne.symm hc, ih hm⟩

/-! Escapes -/

theorem closingQuote_skip {ds : List Char} (hd : ∀ d ∈ ds, d ≠ '\\' ∧ d ≠ '"') (u : List Char) :
    closingQuote (ds ++ u) = (closingQuote u).map (· + ds.length) := by
  induction ds with
  | nil => simp
  | cons d ds ih =>
    obtain ⟨⟨hb, hq⟩, hds⟩ := List.forall_mem_cons.mp hd
    rw [List.cons_append, closingQuote.eq_3 _ _ (fun _ _ h _ => hb h), if_neg hq, ih hds,
      Option.map_map]
    rfl

theorem not_mark_of_digit {radix : Nat} {d : Char} (h : isDigitOf radix d = true) :
    d ≠ '\\' ∧ d ≠ '"' := by
  constructor
  all_goals
    rintro rfl
    simp [isDigitOf, digitValue] at h

/-- The digits of a numeric escape are as many as its form takes. -/
theorem digits_eq {form : NumericForm} {cs : List Char} {value : Char}
    (h : form.decode? (form.digits cs) = some value) :
    cs = form.digits cs ++ cs.drop form.width ∧ ∀ d ∈ form.digits cs, d ≠ '\\' ∧ d ≠ '"' := by
  have hlen : (form.digits cs).length = form.width := by
    simp only [NumericForm.decode?] at h
    split at h
    · next hl => exact hl.1
    · cases h
  have htake : form.digits cs = cs.take form.width := by
    refine (List.takeWhile_prefix _).eq_of_length_le ?_
    rw [List.length_take]
    unfold NumericForm.digits at hlen
    omega
  constructor
  · rw [htake, List.take_append_drop]
  · intro d hd
    exact not_mark_of_digit (List.all_eq_true.mp List.all_takeWhile d hd)

/-- A text whose escapes can all be resolved does not take the quote behind it along. -/
theorem closingQuote_of_unescape {content value : List Char} (h : unescape content = .ok value)
    (u : List Char) : (closingQuote (content ++ '"' :: u)).isSome = true := by
  fun_induction unescape content generalizing value
  case case1 => simp [closingQuote]
  case case2 | case4 | case5 => cases h
  case case3 c rest v hv ih =>
    obtain ⟨w, hw⟩ := Except.exists_of_map_ok h
    simp [closingQuote, ih hw]
  case case6 c rest hv form hform lead digits v hd ih =>
    obtain ⟨w, hw⟩ := Except.exists_of_map_ok h
    obtain ⟨heq, hmarks⟩ := digits_eq hd
    rw [List.drop_drop] at heq
    -- between the first character of the escape and its end there are only digits
    obtain ⟨ds, hds, hrest⟩ : ∃ ds, (∀ d ∈ ds, d ≠ '\\' ∧ d ≠ '"') ∧
        rest = ds ++ (c :: rest).drop (lead.length + form.width) := by
      by_cases ho : form = .octal
      · have hlead : lead = [] := dif_pos ho
        rw [hlead] at heq hmarks ⊢
        cases hdigits : form.digits ((c :: rest).drop [].length) with
        | nil =>
          rw [hdigits, ho] at heq
          have hlen := congrArg List.length heq
          simp only [NumericForm.octal, List.length_nil, List.drop_zero, List.length_cons,
            List.nil_append, List.length_drop] at hlen
          omega
        | cons d ds =>
          rw [hdigits] at heq hmarks
          exact ⟨ds, (List.forall_mem_cons.mp hmarks).2, (List.cons.inj heq).2⟩
      · have hlead : lead = [c] := dif_neg ho
        rw [hlead] at heq hmarks ⊢
        exact ⟨_, hmarks, heq⟩
    have hskip := closingQuote_skip hds ((c :: rest).drop (lead.length + form.width) ++ '"' :: u)
    rw [← List.append_assoc, ← hrest] at hskip
    simpa [closingQuote, hskip] using ih hw
  case case7 c rest hnil hcons ih =>
    obtain ⟨w, hw⟩ := Except.exists_of_map_ok h
    have hc : ∀ d r, c = '\\' → rest ++ '"' :: u = d :: r → False := by
      rintro d r rfl -
      cases rest with
      | nil => exact hnil rfl rfl
      | cons e es => exact hcons e es rfl rfl
    rw [List.cons_append, closingQuote.eq_3 _ _ hc]
    split
    · rfl
    · rw [Option.isSome_map, ih hw]

end Lexical

end Syntree
