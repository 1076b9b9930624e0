import Syntree.Proofs.Spelling

/-!
What the resolution of escapes accepts, and what it reports of a literal that it does not accept: a
literal is resolved exactly if it is put together from spellings, and otherwise the first place that
has none is named.
-/

namespace Syntree.Text

variable {c d mark : Char} {ds l v w rest seq : List Char} {radix k n : Nat} {form : NumericForm}

/-- `Resolves l v`: the literal `l` is put together from spellings of the characters of `v`. -/
def Resolves (l v : List Char) : Prop :=
  ∃ ws, List.Forall₂ Spells v ws ∧ ws.flatten = l

theorem Resolves.nil : Resolves [] [] := ⟨[], .nil, rfl⟩

theorem Resolves.cons (h : Spells c w) (hl : Resolves l v) : Resolves (w ++ l) (c :: v) := by
  obtain ⟨ws, hws, rfl⟩ := hl
  exact ⟨w :: ws, .cons h hws, rfl⟩

/-! Digits -/

theorem writes_of_digitValue (h : digitValue d = some k) : Writes k d := by
  have hall : ∀ n < 103, ∀ k ∈ digitValue (Char.ofNat n), Writes k (Char.ofNat n) := by decide
  have hlt : d.toNat < 103 := by
    simp only [digitValue, Char.le_def, UInt32.le_iff_toNat_le] at h
    change d.val.toNat < 103
    split at h
    · next hd => exact Nat.lt_of_le_of_lt hd.2 (by decide)
    · split at h
      · next hd => exact Nat.lt_of_le_of_lt hd.2 (by decide)
      · split at h
        · next hd => exact Nat.lt_of_le_of_lt hd.2 (by decide)
        · cases h
  have hd := hall d.toNat hlt k
  rw [Char.ofNat_toNat] at hd
  exact hd h

theorem exists_writes (h : ∀ d ∈ ds, isDigitOf radix d = true) :
    ∃ ks : List Nat, (∀ k ∈ ks, k < radix) ∧ List.Forall₂ Writes ks ds := by
  induction ds with
  | nil => exact ⟨[], by simp, .nil⟩
  | cons d ds ih =>
    obtain ⟨hd, hds⟩ := List.forall_mem_cons.mp h
    obtain ⟨ks, hks, hw⟩ := ih hds
    obtain ⟨k, hk, hlt⟩ := (Option.any_eq_true _ _).mp hd
    exact ⟨k :: ks, List.forall_mem_cons.mpr ⟨of_decide_eq_true hlt, hks⟩,
      .cons (writes_of_digitValue hk) hw⟩

/-- Digits write the number that is read from them. -/
theorem numeral_digitsValue (hr : radix ≤ 16) (h : ∀ d ∈ ds, isDigitOf radix d = true) :
    Numeral radix ds (digitsValue radix ds) := by
  obtain ⟨ks, hks, hw⟩ := exists_writes h
  refine ⟨ks, hks, hw, ?_⟩
  rw [digitsValue, foldl_writes hr hks hw, Nat.zero_mul, Nat.zero_add]

theorem toNat_of_scalar? (h : scalar? n = some c) : c.toNat = n := by
  unfold scalar? at h
  split at h
  · next hn =>
    cases h
    rw [Char.ofNat, dif_pos hn]
    rfl
  · cases h

theorem numeral_of_decode? (hr : form.radix ≤ 16) (h : form.decode? (form.digits l) = some c) :
    (form.digits l).length = form.width ∧ c.toNat ≤ form.limit ∧
      Numeral form.radix (form.digits l) c.toNat := by
  simp only [NumericForm.decode?] at h
  split at h
  · next hfits =>
    rw [toNat_of_scalar? h]
    refine ⟨hfits.1, hfits.2, numeral_digitsValue hr ?_⟩
    exact fun d hd => List.all_eq_true.mp List.all_takeWhile d hd
  · cases h

/-! The head of an escape -/

theorem simple_of_simpleEscape (h : simpleEscape mark = some c) : (mark, c) ∈ simpleEscapes := by
  revert h
  fun_cases simpleEscape mark <;> rintro ⟨⟩ <;> decide

theorem numericEscape_cases (h : numericEscape mark = some form) :
    (∃ width, (mark, width) ∈ hexEscapes ∧ form = .hex width) ∨
      form = .octal ∧ isDigitOf 8 mark = true := by
  revert h
  fun_cases numericEscape mark with
  | case1 | case2 | case3 =>
    intro h
    exact .inl ⟨_, by decide, (Option.some.inj h).symm⟩
  | case4 c _ _ _ hd =>
    intro h
    exact .inr ⟨(Option.some.inj h).symm, hd⟩
  | case5 =>
    intro h
    cases h

/-- What stands between a backslash and the digits of an escape: an octal digit is itself the first
of them. -/
def NumericForm.lead (form : NumericForm) (mark : Char) : List Char :=
  if form = .octal then [] else [mark]

/-- What a numeric escape behind a backslash takes. -/
def NumericForm.taken (form : NumericForm) (mark : Char) (rest : List Char) : List Char :=
  form.digits ((mark :: rest).drop (form.lead mark).length)

theorem lead_octal : NumericForm.octal.lead mark = [] := if_pos rfl

theorem lead_hex {width : Nat} (h : (mark, width) ∈ hexEscapes) :
    (NumericForm.hex width).lead mark = [mark] := by
  have hall : ∀ q ∈ hexEscapes, NumericForm.hex q.2 ≠ .octal := by decide
  exact if_neg (hall _ h)

/-- The digits of an escape stand behind its lead. -/
theorem lead_taken (form : NumericForm) (mark : Char) (rest : List Char) :
    ∃ u, mark :: rest = form.lead mark ++ form.taken mark rest ++ u := by
  have hlead : mark :: rest =
      form.lead mark ++ (mark :: rest).drop (form.lead mark).length := by
    unfold NumericForm.lead
    split <;> rfl
  have hprefix : form.taken mark rest <+: (mark :: rest).drop (form.lead mark).length :=
    (List.takeWhile_prefix _).trans (List.take_prefix ..)
  obtain ⟨u, hu⟩ := hprefix
  exact ⟨u, by rw [List.append_assoc, hu, ← hlead]⟩

/-- What the characters behind a backslash stand for at the head of a literal, if anything. -/
def escapeAt (mark : Char) (rest : List Char) : Option Char :=
  match simpleEscape mark with
  | some c => some c
  | none => (numericEscape mark).bind fun form => form.decode? (form.taken mark rest)

theorem escapeAt_simple (h : simpleEscape mark = some c) : escapeAt mark rest = some c := by
  rw [escapeAt, h]

theorem escapeAt_numeric (h : simpleEscape mark = none) : escapeAt mark rest =
    (numericEscape mark).bind fun form => form.decode? (form.taken mark rest) := by
  rw [escapeAt, h]

/-- Every spelling other than a plain character is seen behind its backslash, whatever follows. -/
theorem Spells.escapeAt (h : Spells c w) (hl : w ++ rest = '\\' :: l) :
    ∃ m r, l = m :: r ∧ Text.escapeAt m r = some c := by
  cases h with
  | plain hc => exact absurd (List.cons.inj hl).1 hc
  | @simple mark known =>
    have hall : ∀ q ∈ simpleEscapes, simpleEscape q.1 = some q.2 := by decide
    exact ⟨mark, rest, (List.cons.inj hl).2.symm, escapeAt_simple (hall _ known)⟩
  | @hex mark width ds known long number =>
    have hall : ∀ q ∈ hexEscapes, simpleEscape q.1 = none ∧
        numericEscape q.1 = some (.hex q.2) := by decide
    obtain ⟨hsimple, hform⟩ := hall _ known
    have hlim : c.toNat ≤ (NumericForm.hex width).limit := by
      have hlt := number.lt (by decide)
      rw [long] at hlt
      exact Nat.le_pred_of_lt hlt
    obtain ⟨hdigits, hdecode⟩ := number.decode (.hex width) (Nat.le_refl 16) long hlim rest
    refine ⟨mark, ds ++ rest, (List.cons.inj hl).2.symm, ?_⟩
    rw [escapeAt_numeric hsimple, hform, Option.bind_some, NumericForm.taken, lead_hex known]
    exact (congrArg _ hdigits).trans hdecode
  | @octal ds long small number =>
    obtain ⟨hdigits, hdecode⟩ := number.decode .octal (by decide) long small rest
    cases ds with
    | nil => cases long
    | cons d ds =>
      obtain ⟨hsimple, hform⟩ := octal_announced (number.isDigitOf (by decide) d List.mem_cons_self)
      refine ⟨d, ds ++ rest, (List.cons.inj hl).2.symm, ?_⟩
      rw [escapeAt_numeric hsimple, hform, Option.bind_some, NumericForm.taken, lead_octal]
      exact (congrArg _ hdigits).trans hdecode

/-- What is seen behind a backslash is spelled there. -/
theorem spells_of_escapeAt (h : escapeAt mark rest = some c) :
    ∃ w u, Spells c w ∧ '\\' :: mark :: rest = w ++ u := by
  cases hs : simpleEscape mark with
  | some v =>
    rw [escapeAt_simple hs, Option.some.injEq] at h
    exact ⟨_, rest, .simple (h ▸ simple_of_simpleEscape hs), rfl⟩
  | none =>
    rw [escapeAt_numeric hs, Option.bind_eq_some_iff] at h
    obtain ⟨form, hform, hdecode⟩ := h
    obtain ⟨u, hu⟩ := lead_taken form mark rest
    rcases numericEscape_cases hform with ⟨width, known, rfl⟩ | ⟨rfl, -⟩
    · obtain ⟨hlen, -, hnumber⟩ := numeral_of_decode? (Nat.le_refl 16) hdecode
      rw [lead_hex known] at hu
      exact ⟨_, u, .hex known hlen hnumber, congrArg _ hu⟩
    · obtain ⟨hlen, hlim, hnumber⟩ := numeral_of_decode? (by decide) hdecode
      rw [lead_octal] at hu
      exact ⟨_, u, .octal hlen hlim hnumber, congrArg _ hu⟩

/-- Where nothing is seen behind a backslash, the literal is refused there. -/
theorem unescape_of_escapeAt (h : escapeAt mark rest = none) :
    ∃ t u, '\\' :: mark :: rest = '\\' :: t ++ u ∧
      unescape ('\\' :: mark :: rest) = .error ('\\' :: t) := by
  cases hs : simpleEscape mark with
  | some v =>
    rw [escapeAt_simple hs] at h
    cases h
  | none =>
    rw [escapeAt_numeric hs] at h
    cases hform : numericEscape mark with
    | none =>
      refine ⟨[mark], rest, rfl, ?_⟩
      simp only [unescape.eq_3, hs, hform]
    | some form =>
      rw [hform, Option.bind_some] at h
      obtain ⟨u, hu⟩ := lead_taken form mark rest
      refine ⟨form.lead mark ++ form.taken mark rest, u, congrArg _ hu, ?_⟩
      unfold NumericForm.taken NumericForm.lead at h
      simp only [unescape.eq_3, hs, hform, h]
      rfl

/-- A literal starts with a spelling, or it is refused at its head, where there is none. -/
theorem spelling_or_fault (hl : l ≠ []) :
    (∃ c w u, Spells c w ∧ l = w ++ u) ∨
      ∃ t u, l = '\\' :: t ++ u ∧ unescape l = .error ('\\' :: t) ∧
        ∀ c w, Spells c w → ¬ w <+: l := by
  cases l with
  | nil => exact absurd rfl hl
  | cons a l =>
    by_cases ha : a = '\\'
    · subst ha
      cases l with
      | nil =>
        refine .inr ⟨[], [], rfl, unescape.eq_2, ?_⟩
        rintro c w hw ⟨u, hu⟩
        obtain ⟨m, r, hr, -⟩ := hw.escapeAt hu
        cases hr
      | cons mark rest =>
        cases he : escapeAt mark rest with
        | some c =>
          obtain ⟨w, u, hw, hu⟩ := spells_of_escapeAt he
          exact .inl ⟨c, w, u, hw, hu⟩
        | none =>
          obtain ⟨t, u, hu, hfault⟩ := unescape_of_escapeAt he
          refine .inr ⟨t, u, hu, hfault, ?_⟩
          rintro c w hw ⟨u', hu'⟩
          obtain ⟨m, r, hr, hc⟩ := hw.escapeAt hu'
          obtain ⟨rfl, rfl⟩ := List.cons.inj hr
          rw [he] at hc
          cases hc
    · exact .inl ⟨a, [a], l, .plain ha, rfl⟩

theorem Spells.length_pos (h : Spells c w) : 0 < w.length := by
  cases h <;> simp

/-- A literal is put together from spellings, or it is up to a place where none starts. -/
theorem resolves_or_fault (l : List Char) :
    (∃ v, Resolves l v ∧ unescape l = .ok v) ∨
      ∃ good t rest v, l = good ++ '\\' :: t ++ rest ∧ Resolves good v ∧
        unescape l = .error ('\\' :: t) ∧ ∀ c w, Spells c w → ¬ w <+: '\\' :: t ++ rest := by
  generalize hn : l.length = n
  induction n using Nat.strongRecOn generalizing l with
  | ind n ih =>
    by_cases hl : l = []
    · exact .inl ⟨[], by rw [hl]; exact .nil, by rw [hl, unescape.eq_1]⟩
    · rcases spelling_or_fault hl with ⟨c, w, u, hw, rfl⟩ | ⟨t, u, hu, hfault, hnone⟩
      · have hshort : u.length < n := by
          have hpos := hw.length_pos
          rw [List.length_append] at hn
          omega
        rw [hw.unescape]
        rcases ih _ hshort u rfl with ⟨v, hv, hok⟩ | ⟨good, t, rest, v, rfl, hv, hfault, hnone⟩
        · exact .inl ⟨c :: v, hv.cons hw, by rw [hok]; rfl⟩
        · refine .inr ⟨w ++ good, t, rest, c :: v, ?_, hv.cons hw, by rw [hfault]; rfl, hnone⟩
          simp only [List.append_assoc]
      · refine .inr ⟨[], t, u, [], hu, .nil, hfault, ?_⟩
        rwa [← hu]

theorem Resolves.unescape (h : Resolves l v) : Text.unescape l = .ok v := by
  obtain ⟨ws, hws, rfl⟩ := h
  induction hws with
  | nil => rw [List.flatten_nil, Text.unescape]
  | cons hw _ ih =>
    rw [List.flatten_cons, hw.unescape, ih]
    rfl

/-- For every literal. It is resolved to some characters exactly if it is put together from
spellings of them. If it is put together from no spellings at all, what is reported is a part of it
that starts with a backslash: spellings stand before it, and no spelling starts there. -/
theorem unescape_resolves (l : List Char) :
    (∀ v, unescape l = .ok v ↔ Resolves l v) ∧
    ((∀ v, ¬ Resolves l v) → ∃ seq good rest v, unescape l = .error seq ∧
      l = good ++ seq ++ rest ∧ Resolves good v ∧ seq.head? = some '\\' ∧
      ∀ c w, Spells c w → ¬ w <+: seq ++ rest) := by
  refine ⟨fun v => ⟨fun h => ?_, Resolves.unescape⟩, fun hnone => ?_⟩
  · rcases resolves_or_fault l with ⟨v', hv, hok⟩ | ⟨good, t, rest, v', -, -, hfault, -⟩
    · rw [hok, Except.ok.injEq] at h
      exact h ▸ hv
    · rw [hfault] at h
      cases h
  · rcases resolves_or_fault l with ⟨v, hv, -⟩ | ⟨good, t, rest, v, hl, hgood, hfault, hplace⟩
    · exact absurd hv (hnone v)
    · exact ⟨_, good, rest, v, hfault, hl, hgood, rfl, hplace⟩

/-- An octal escape before a character that needs none, and a surrogate behind an escape of one
letter. -/
theorem unescape_resolves_surrogate :
    (∃ v, unescape ['\\', '1', '0', '1', 'é'] = .ok v ∧ Resolves ['\\', '1', '0', '1', 'é'] v) ∧
    ∃ seq good rest v, unescape ['a', '\\', 'n', '\\', 'u', 'D', '8', '0', '0', '!'] = .error seq ∧
      ['a', '\\', 'n', '\\', 'u', 'D', '8', '0', '0', '!'] = good ++ seq ++ rest ∧
      Resolves good v ∧ seq.head? = some '\\' ∧ ∀ c w, Spells c w → ¬ w <+: seq ++ rest := by
  have hread : unescape ['\\', '1', '0', '1', 'é'] = .ok ['A', 'é'] := by decide +kernel
  have hfault : unescape ['a', '\\', 'n', '\\', 'u', 'D', '8', '0', '0', '!'] =
      .error ['\\', 'u', 'D', '8', '0', '0'] := by decide +kernel
  obtain ⟨hvalue, -⟩ := unescape_resolves ['\\', '1', '0', '1', 'é']
  obtain ⟨hnone, hplace⟩ := unescape_resolves ['a', '\\', 'n', '\\', 'u', 'D', '8', '0', '0', '!']
  refine ⟨⟨_, hread, (hvalue _).mp hread⟩, hplace fun v hv => ?_⟩
  rw [(hnone v).mpr hv] at hfault
  cases hfault

end Syntree.Text
