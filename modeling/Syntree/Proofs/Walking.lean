import Mathlib.Data.List.Chain
import Syntree.Proofs.Subtrees

/-!
What happens in a walk, event by event, whatever the callback makes of the errors it is given.

A walk enters and leaves nodes, and in between the callback may call the continuation and get
something back from it. Errors only go up: from a node that is left with one to the continuation of
its parent, and on as long as nobody puts something else in their place.
-/

namespace Syntree

variable {π σ ε ν : Type}

/-- An event of a walk. -/
inductive Moment (ν ε : Type) where
  /-- The callback is handed a node. -/
  | enter (node : ν)
  /-- It calls the continuation. -/
  | call (node : ν) (given : Except ε Unit)
  /-- The continuation returns. -/
  | back (node : ν) (result : Except ε Unit)
  /-- The callback returns. -/
  | leave (node : ν) (result : Except ε Unit)

namespace Moment

def node : Moment ν ε → ν
  | enter n | call n _ | back n _ | leave n _ => n

def entered? : Moment ν ε → Option ν
  | enter n => some n
  | _ => none

def map {μ : Type} (f : ν → μ) : Moment ν ε → Moment μ ε
  | enter n => .enter (f n)
  | call n given => .call (f n) given
  | back n result => .back (f n) result
  | leave n result => .leave (f n) result

end Moment

/-- A callback that also writes down the events around it. -/
def logging (callback : Node π → σ → Step σ ε × σ) (n : Node π)
    (s : σ × List (Moment (Node π) ε)) :
    Step (σ × List (Moment (Node π) ε)) ε × σ × List (Moment (Node π) ε) :=
  match callback n s.1 with
  | (.finish result, s') => (.finish result, s', s.2 ++ [.enter n, .leave n result])
  | (.descend given resume, s') =>
    let resume' (back : Except ε Unit) (s : σ × List (Moment (Node π) ε)) :=
      let (result, s') := resume back s.1
      (result, s', s.2 ++ [.back n back, .leave n result])
    (.descend given resume', s', s.2 ++ [.enter n, .call n given])

/-- An event at a node with the address of that node. -/
abbrev Event (π ε : Type) := Moment (List Nat × Node π) ε

/-- The address of the parent. -/
def parent? (a : List Nat) : Option (List Nat) :=
  if a = [] then none else some a.dropLast

/-- Whether `b` is the address of a node around the one at `a`. -/
def Above (b a : List Nat) : Prop := b <+: a ∧ b ≠ a

namespace Event

/-- The nodes that are entered and not yet left, the innermost first. A node is entered inside its
parent only, and all else happens at the innermost node. -/
def step : List (List Nat) → Event π ε → Option (List (List Nat))
  | stack, .enter (a, _) => if stack.head? = parent? a then some (a :: stack) else none
  | stack, .call (a, _) _ | stack, .back (a, _) _ =>
    if stack.head? = some a then some stack else none
  | stack, .leave (a, _) _ => if stack.head? = some a then some stack.tail else none

/-- Whether every node is left before the one around it is. -/
def Balanced (es : List (Event π ε)) : Prop :=
  es.foldlM step [] = some []

/-- What may come directly behind an event. -/
def Follows : Event π ε → Event π ε → Prop
  | .call x (.error m), e => e = .back x (.error m)
  | .back x _, e => ∃ result, e = .leave x result
  | .leave (a, _) (.error m), e => ∃ b k p, a = b ++ [k] ∧ e = .back (b, p) (.error m)
  | _, _ => True

/-- What may come behind an event at any distance: what is below a node comes behind the call of
its continuation, and is entered before that returns. -/
structure Precedes (e e' : Event π ε) : Prop where
  returned : ∀ x result y, e = .back x result → e' = .enter y → ¬ Above x.1 y.1
  called : ∀ x given, e' = .call x given → ¬ Above x.1 e.node.1

end Event

open Event

/-- A node as it is seen from above the address `a`. -/
def atAddress (a : List Nat) (e : List Nat × Node π) : List Nat × Node π := (a ++ e.1, e.2)

/-- Events at listed nodes. -/
structure Traced (listed : List (List Nat × Node π)) (es : List (Event π ε)) : Prop where
  held : ∀ e ∈ es, e.node ∈ listed
  entered : (es.filterMap Moment.entered?).Sublist listed
  chain : es.IsChain Follows
  apart : es.Pairwise Precedes

/-- The events from entering a node to leaving it. -/
structure Passage (a : List Nat) (n : Node π) (es : List (Event π ε)) (result : Except ε Unit) :
    Prop where
  traced : Traced (n.addressed.map (atAddress a)) es
  called : ∀ e ∈ es, ∀ b, Above b e.node.1 → a <+: b → ∃ p, .call (b, p) (.ok ()) ∈ es
  balanced : ∀ stack, stack.head? = parent? a → es.foldlM step stack = some stack
  first : es.head? = some (.enter (a, n))
  last : es.getLast? = some (.leave (a, n) result)

/-- The events between the call of a continuation and its return, in which it goes through the
children of a node from child `k` on. -/
structure Inside (a : List Nat) (k : Nat) (cs : List (Node π)) (es : List (Event π ε))
    (result : Except ε Unit) : Prop where
  traced : Traced ((Node.addressedFrom k cs).map (atAddress a)) es
  called : ∀ e ∈ es, ∀ b, Above b e.node.1 → Above a b → ∃ p, .call (b, p) (.ok ()) ∈ es
  balanced : ∀ stack, stack.head? = some a → es.foldlM step stack = some stack
  last : ∀ e ∈ es.getLast?, ∀ p, Follows e (.back (a, p) result)

section Passages

variable {a : List Nat} {n c : Node π} {cs : List (Node π)} {es es' : List (Event π ε)}
  {e e' : Event π ε} {result x given : Except ε Unit} {i j k : Nat} {m : ε}

theorem parent?_concat (a : List Nat) (k : Nat) : parent? (a ++ [k]) = some a := by
  simp [parent?]

/-! Addresses -/

theorem index_unique {l : List Nat} (h : a ++ [i] <+: l) (h' : a ++ [j] <+: l) : i = j := by
  have heq : a ++ [i] = a ++ [j] :=
    (List.prefix_of_prefix_length_le h h' (by simp)).eq_of_length (by simp)
  simpa using heq

theorem Above.not_around {b : List Nat} (h : Above b a) : ¬ a <+: b := fun hab =>
  h.2 (h.1.eq_of_length_le hab.length_le)

/-- What is around a node below child `k` of `a` is below that child too, or around it. -/
theorem Above.prefix_child {b l : List Nat} (hl : Above b l) (h : a ++ [k] <+: l)
    (hab : Above a b) : a ++ [k] <+: b := by
  refine List.prefix_of_prefix_length_le h hl.1 ?_
  rw [List.length_append, List.length_singleton]
  exact Nat.lt_of_le_of_ne hab.1.length_le fun hlen => hab.2 (hab.1.eq_of_length hlen)

theorem listed_root (a : List Nat) (n : Node π) : n.addressed.map (atAddress a) =
    (a, n) :: (Node.addressedFrom 0 n.children).map (atAddress a) := by
  rw [Node.addressed_eq, List.map_cons, atAddress, List.append_nil]

theorem listed_cons (a : List Nat) (k : Nat) (c : Node π) (cs : List (Node π)) :
    (Node.addressedFrom k (c :: cs)).map (atAddress a) =
      c.addressed.map (atAddress (a ++ [k])) ++
        (Node.addressedFrom (k + 1) cs).map (atAddress a) := by
  rw [Node.addressedFrom, List.map_append, List.map_map]
  congr 2
  funext e
  simp [atAddress]

theorem prefix_of_listed {y : List Nat × Node π} (h : y ∈ n.addressed.map (atAddress a)) :
    a <+: y.1 := by
  obtain ⟨z, -, rfl⟩ := List.mem_map.mp h
  exact List.prefix_append a z.1

theorem prefix_of_listedFrom {y : List Nat × Node π}
    (h : y ∈ (Node.addressedFrom k cs).map (atAddress a)) : ∃ i, k ≤ i ∧ a ++ [i] <+: y.1 := by
  obtain ⟨z, hz, rfl⟩ := List.mem_map.mp h
  obtain ⟨i, c, z, -, -, rfl⟩ := Node.mem_addressedFrom.mp hz
  exact ⟨k + i, Nat.le_add_right k i, by simp [atAddress]⟩

/-! Order -/

theorem precedes_opening (he : e = .enter (a, n) ∨ e = .call (a, n) x)
    (h : a <+: e'.node.1) : Precedes e e' := by
  constructor
  · rintro x r y rfl
    rcases he with he | he <;> cases he
  · rintro x r rfl habove
    have hnode : e.node.1 = a := by rcases he with rfl | rfl <;> rfl
    rw [hnode] at habove
    exact habove.not_around h

theorem precedes_closing (e : Event π ε) (he : e' = .back (a, n) x ∨ e' = .leave (a, n) x) :
    Precedes e e' := by
  constructor
  · rintro x r y - rfl
    rcases he with he | he <;> cases he
  · rintro x r rfl
    rcases he with he | he <;> cases he

theorem precedes_siblings (h : a ++ [i] <+: e.node.1) (h' : a ++ [j] <+: e'.node.1)
    (hij : i ≠ j) : Precedes e e' := by
  constructor
  · rintro x r y rfl rfl habove
    exact hij (index_unique (h.trans habove.1) h')
  · rintro x r rfl habove
    exact hij (index_unique h (h'.trans habove.1))

/-! Nodes -/

theorem Traced.nil (listed : List (List Nat × Node π)) : Traced listed ([] : List (Event π ε)) :=
  ⟨by simp, List.nil_sublist _, .nil, .nil⟩

theorem Inside.nil (a : List Nat) (k : Nat) (cs : List (Node π)) (result : Except ε Unit) :
    Inside a k cs [] result :=
  ⟨.nil _, by simp, fun _ _ => rfl, by simp⟩

theorem Passage.finish (a : List Nat) (n : Node π) (result : Except ε Unit) :
    Passage a n [.enter (a, n), .leave (a, n) result] result where
  traced := by
    rw [listed_root]
    refine ⟨by simp [Moment.node], ?_, ?_, ?_⟩
    · exact (List.nil_sublist _).cons_cons (a, n)
    · exact List.isChain_pair.mpr trivial
    · exact List.pairwise_pair.mpr (precedes_closing _ (.inr rfl))
  called := by
    intro e he b hb hab
    have hnode : e.node.1 = a := by
      simp only [List.mem_cons, List.not_mem_nil, or_false] at he
      rcases he with rfl | rfl <;> rfl
    exact absurd hab (hnode ▸ hb).not_around
  balanced stack hs := by simp [step, hs]
  first := rfl
  last := rfl

section Around

variable {given back : Except ε Unit}

/-- The events at a node whose callback calls the continuation, around those inside of that. -/
def around (y : List Nat × Node π) (given back result : Except ε Unit) (es : List (Event π ε)) :
    List (Event π ε) :=
  .enter y :: .call y given :: (es ++ [.back y back, .leave y result])

theorem mem_around {y : List Nat × Node π} (h : e ∈ around y given back result es) :
    e.node = y ∨ e ∈ es := by
  simp only [around, List.mem_cons, List.mem_append, List.not_mem_nil, or_false] at h
  rcases h with rfl | rfl | h | rfl | rfl
  case inr.inr.inl => exact .inr h
  all_goals exact .inl rfl

theorem mem_around_of_mem {y : List Nat × Node π} (h : e ∈ es) :
    e ∈ around y given back result es := by
  simp [around, h]

theorem around_entered (y : List Nat × Node π) (given back result : Except ε Unit)
    (es : List (Event π ε)) : (around y given back result es).filterMap Moment.entered? =
      y :: es.filterMap Moment.entered? := by
  simp [around, List.filterMap_cons, Moment.entered?]

/-- An error that is given to the continuation comes back at once. -/
theorem Inside.chain_around (h : Inside a 0 n.children es back)
    (hgiven : given = .ok () ∨ es = [] ∧ back = given) (result : Except ε Unit) :
    (around (a, n) given back result es).IsChain Follows := by
  have hrest : List.IsChain Follows (es ++ [.back (a, n) back, .leave (a, n) result]) := by
    refine h.traced.chain.append (List.isChain_pair.mpr ⟨result, rfl⟩) fun e he e' he' => ?_
    obtain rfl := Option.some.inj he'
    exact h.last e he n
  refine List.isChain_cons_cons.mpr ⟨trivial, List.isChain_cons.mpr ⟨fun e he => ?_, hrest⟩⟩
  rcases hgiven with rfl | ⟨rfl, rfl⟩
  · trivial
  · obtain rfl := Option.some.inj he
    cases back with
    | error m => rfl
    | ok => trivial

theorem Inside.below (h : Inside a k cs es back) (he : e ∈ es) : a <+: e.node.1 := by
  obtain ⟨i, -, hi⟩ := prefix_of_listedFrom (h.traced.held e he)
  exact (List.prefix_append a [i]).trans hi

theorem Inside.apart_around (h : Inside a 0 n.children es back) (given result : Except ε Unit) :
    (around (a, n) given back result es).Pairwise Precedes := by
  have hbelow : ∀ e ∈ around (a, n) given back result es, a <+: e.node.1 := by
    intro e he
    rcases mem_around he with hnode | he
    · exact hnode ▸ List.prefix_refl a
    · exact h.below he
  have hclosing : List.Pairwise Precedes [.back (a, n) back, .leave (a, n) result] :=
    List.pairwise_pair.mpr (precedes_closing _ (.inr rfl))
  have hrest : List.Pairwise Precedes (es ++ [.back (a, n) back, .leave (a, n) result]) := by
    refine List.pairwise_append.mpr ⟨h.traced.apart, hclosing, fun e _ e' he' => ?_⟩
    simp only [List.mem_cons, List.not_mem_nil, or_false] at he'
    rcases he' with rfl | rfl
    · exact precedes_closing e (.inl rfl)
    · exact precedes_closing e (.inr rfl)
  refine List.pairwise_cons.mpr ⟨fun e he => ?_, List.pairwise_cons.mpr ⟨fun e he => ?_, hrest⟩⟩
  · exact precedes_opening (x := given) (.inl rfl) (hbelow e (List.mem_cons_of_mem _ he))
  · exact precedes_opening (.inr rfl)
      (hbelow e (List.mem_cons_of_mem _ (List.mem_cons_of_mem _ he)))

theorem Passage.around (h : Inside a 0 n.children es back)
    (hgiven : given = .ok () ∨ es = [] ∧ back = given) (result : Except ε Unit) :
    Passage a n (around (a, n) given back result es) result where
  traced := by
    rw [listed_root]
    refine ⟨fun e he => ?_, ?_, h.chain_around hgiven result, h.apart_around given result⟩
    · rcases mem_around he with hnode | he
      · rw [hnode]
        exact List.mem_cons_self
      · exact List.mem_cons_of_mem _ (h.traced.held e he)
    · rw [around_entered]
      exact h.traced.entered.cons_cons (a, n)
  called := by
    intro e he b hb hab
    rcases mem_around he with hnode | hmem
    · rw [hnode] at hb
      exact absurd hab hb.not_around
    · by_cases heq : a = b
      · subst heq
        rcases hgiven with rfl | ⟨rfl, -⟩
        · exact ⟨n, by simp [Syntree.around]⟩
        · cases hmem
      · obtain ⟨p, hp⟩ := h.called e hmem b hb ⟨hab, heq⟩
        exact ⟨p, mem_around_of_mem hp⟩
  balanced stack hs := by
    have hinner := h.balanced (a :: stack) rfl
    simp [Syntree.around, step, hs, List.foldlM_append, hinner]
  first := rfl
  last := by simp [Syntree.around, List.getLast?_cons]

end Around

/-! Children -/

theorem Inside.next (h : Passage (a ++ [k]) c es (.ok ())) (h' : Inside a (k + 1) cs es' x) :
    Inside a k (c :: cs) (es ++ es') x where
  traced := by
    rw [listed_cons]
    refine ⟨fun e he => ?_, ?_, ?_, ?_⟩
    · exact List.mem_append.mpr
        ((List.mem_append.mp he).imp (h.traced.held e) (h'.traced.held e))
    · rw [List.filterMap_append]
      exact h.traced.entered.append h'.traced.entered
    · refine h.traced.chain.append h'.traced.chain fun e he e' _ => ?_
      rw [h.last] at he
      obtain rfl := Option.some.inj he
      trivial
    · refine List.pairwise_append.mpr ⟨h.traced.apart, h'.traced.apart, fun e he e' he' => ?_⟩
      have hfirst := prefix_of_listed (h.traced.held e he)
      obtain ⟨i, hi, hsecond⟩ := prefix_of_listedFrom (h'.traced.held e' he')
      exact precedes_siblings hfirst hsecond (by omega)
  called := by
    intro e he b hb hab
    rcases List.mem_append.mp he with he | he
    · have hchild := hb.prefix_child (prefix_of_listed (h.traced.held e he)) hab
      obtain ⟨p, hp⟩ := h.called e he b hb hchild
      exact ⟨p, List.mem_append_left _ hp⟩
    · obtain ⟨p, hp⟩ := h'.called e he b hb hab
      exact ⟨p, List.mem_append_right _ hp⟩
  balanced stack hs := by
    rw [List.foldlM_append, h.balanced stack (by rw [hs, parent?_concat])]
    exact h'.balanced stack hs
  last := by
    intro e he p
    rw [List.getLast?_append, Option.mem_def, Option.or_eq_some_iff] at he
    rcases he with he | ⟨-, he⟩
    · exact h'.last e he p
    · rw [h.last] at he
      obtain rfl := Option.some.inj he
      trivial

theorem Inside.stop (h : Passage (a ++ [k]) c es (.error m)) (cs : List (Node π)) :
    Inside a k (c :: cs) es (.error m) where
  traced := by
    rw [listed_cons]
    exact ⟨fun e he => List.mem_append_left _ (h.traced.held e he),
      h.traced.entered.trans (List.sublist_append_left _ _), h.traced.chain, h.traced.apart⟩
  called e he b hb hab :=
    h.called e he b hb (hb.prefix_child (prefix_of_listed (h.traced.held e he)) hab)
  balanced stack hs := h.balanced stack (by rw [hs, parent?_concat])
  last := by
    intro e he p
    rw [h.last] at he
    obtain rfl := Option.some.inj he
    exact ⟨a, k, p, rfl, rfl⟩

end Passages

/-! Walks -/

/-- Whether a walk with a log does the same as the walk `plain`, and has logged the events `es`. -/
def Logs (es : List (Event π ε)) (log : List (Moment (Node π) ε)) (plain : Except ε Unit × σ)
    (logged : Except ε Unit × σ × List (Moment (Node π) ε)) : Prop :=
  logged = (plain.1, plain.2, log ++ es.map (Moment.map Prod.snd))

theorem inTurn_logging {callback : Node π → σ → Step σ ε × σ} {cs : List (Node π)}
    (hc : ∀ c ∈ cs, ∀ a s log, ∃ es,
      Logs es log (walk callback c s) (walk (logging callback) c (s, log)) ∧
        Passage a c es (walk callback c s).1)
    (a : List Nat) (k : Nat) (s : σ) (log : List (Moment (Node π) ε)) : ∃ es,
      Logs es log (inTurn (walk callback) cs s)
        (inTurn (walk (logging callback)) cs (s, log)) ∧
      Inside a k cs es (inTurn (walk callback) cs s).1 := by
  induction cs generalizing k s log with
  | nil => exact ⟨[], by simp [Logs, inTurn], .nil a k [] _⟩
  | cons c cs ih =>
    obtain ⟨es, hlog, h⟩ := hc c List.mem_cons_self (a ++ [k]) s log
    rw [inTurn, inTurn, hlog]
    rcases hw : walk callback c s with ⟨_ | _, s'⟩
    · rw [hw] at h
      exact ⟨es, rfl, .stop h cs⟩
    · rw [hw] at h
      obtain ⟨es', hlog', h'⟩ := ih (fun c h => hc c (List.mem_cons_of_mem _ h)) (k + 1) s'
        (log ++ es.map (Moment.map Prod.snd))
      refine ⟨es ++ es', ?_, .next h h'⟩
      rw [Logs, List.map_append, ← List.append_assoc]
      exact hlog'

theorem walk_logging (callback : Node π → σ → Step σ ε × σ) (n : Node π) (a : List Nat) (s : σ)
    (log : List (Moment (Node π) ε)) : ∃ es,
      Logs es log (walk callback n s) (walk (logging callback) n (s, log)) ∧
      Passage a n es (walk callback n s).1 := by
  induction n using Node.induction generalizing a s log with
  | step n ih =>
    rw [walk_eq, walk_eq (logging callback), logging]
    rcases callback n s with ⟨result | ⟨given, resume⟩, s'⟩
    · exact ⟨[.enter (a, n), .leave (a, n) result], rfl, .finish a n result⟩
    · cases given with
      | error m =>
        refine ⟨_, ?_, Passage.around (.nil a 0 n.children (.error m)) (.inr ⟨rfl, rfl⟩) _⟩
        simp [Logs, around, Moment.map]
      | ok =>
        obtain ⟨es, hlog, h⟩ :=
          inTurn_logging ih a 0 s' (log ++ [Moment.enter n, Moment.call n (.ok ())])
        refine ⟨_, ?_, Passage.around h (.inl rfl) _⟩
        simp [Logs] at hlog
        simp [Logs, around, Moment.map, hlog]

/-! Errors on their way up -/

/-- What comes behind leaving the node at an address with an error: up to the first node that is
left without one, the errors are those that the nodes around it get back. -/
inductive Unwinds : List Nat → ε → List (Event π ε) → Except ε Unit → Prop
  | root {m : ε} : Unwinds [] m [] (.error m)
  | handled {b : List Nat} {k : Nat} {p : Node π} {m : ε} {es : List (Event π ε)}
      {result : Except ε Unit} :
      Unwinds (b ++ [k]) m (.back (b, p) (.error m) :: .leave (b, p) (.ok ()) :: es) result
  | raised {b : List Nat} {k : Nat} {p : Node π} {m m' : ε} {es : List (Event π ε)}
      {result : Except ε Unit} (rest : Unwinds b m' es result) :
      Unwinds (b ++ [k]) m (.back (b, p) (.error m) :: .leave (b, p) (.error m') :: es) result

section Unwinding

variable {n : Node π} {es pre mid post : List (Event π ε)} {result : Except ε Unit}
  {a : List Nat} {c : Node π} {y : List Nat × Node π} {m : ε}

/-- An event that is not the last is followed by another, and the last leaves the root. -/
theorem Passage.split (h : Passage [] n es result) {e : Event π ε} (hes : es = pre ++ e :: post) :
    (post = [] ∧ e = .leave ([], n) result) ∨ ∃ e' post', post = e' :: post' ∧ Follows e e' := by
  have hchain := h.traced.chain
  have hlast := h.last
  rw [hes] at hchain hlast
  cases post with
  | nil =>
    rw [List.getLast?_concat] at hlast
    exact .inl ⟨rfl, Option.some.inj hlast⟩
  | cons e' post =>
    exact .inr ⟨e', post, rfl, (List.isChain_cons_cons.mp hchain.right_of_append).1⟩

theorem Passage.unwinds (h : Passage [] n es result)
    (hes : es = pre ++ .leave (a, c) (.error m) :: post) : Unwinds a m post result := by
  induction a using List.reverseRecOn generalizing pre post c m with
  | nil =>
    rcases h.split hes with ⟨rfl, heq⟩ | ⟨e, post, rfl, b, k, p, hb, -⟩
    · cases heq
      exact .root
    · simp at hb
  | append_singleton b k ih =>
    rcases h.split hes with ⟨-, heq⟩ | ⟨e, post, rfl, b', k', p, hb, rfl⟩
    · simp at heq
    · obtain ⟨rfl, rfl⟩ : b = b' ∧ k = k' := by simpa using hb
      have hback : es = (pre ++ [.leave (b ++ [k], c) (.error m)]) ++
          .back (b, p) (.error m) :: post := by rw [hes, List.append_assoc]; rfl
      rcases h.split hback with ⟨-, heq⟩ | ⟨e, post, rfl, r, rfl⟩
      · cases heq
      · have hleave : es = (pre ++ [.leave (b ++ [k], c) (.error m), .back (b, p) (.error m)]) ++
            .leave (b, p) r :: post := by rw [hes, List.append_assoc]; rfl
        cases r with
        | ok => exact .handled
        | error m' => exact .raised (ih hleave)

theorem above_concat (b : List Nat) (k : Nat) : Above b (b ++ [k]) :=
  ⟨List.prefix_append b [k], by simp⟩

theorem Above.concat {b : List Nat} (h : Above b a) (k : Nat) : Above b (a ++ [k]) := by
  refine ⟨h.1.trans (List.prefix_append a [k]), ?_⟩
  rintro rfl
  exact h.not_around (List.prefix_append a [k])

/-- The walk goes on only behind a node around that puts an end to the error. -/
theorem Unwinds.enters (h : Unwinds a m es result) (hes : es = mid ++ .enter y :: post) :
    ∃ b p m', Above b a ∧ .back (b, p) (.error m') ∈ mid ∧ .leave (b, p) (.ok ()) ∈ mid := by
  induction h generalizing mid with
  | root => simp at hes
  | @handled b k p m es result =>
    rcases mid with _ | ⟨e, _ | ⟨e', mid⟩⟩
    · cases hes
    · cases hes
    · cases hes
      exact ⟨b, p, m, above_concat b k, by simp, by simp⟩
  | @raised b k p m m' es result _ ih =>
    rcases mid with _ | ⟨e, _ | ⟨e', mid⟩⟩
    · cases hes
    · cases hes
    · cases hes
      obtain ⟨b', p', m'', hb, hback, hleave⟩ := ih rfl
      exact ⟨b', p', m'', hb.concat k, by simp [hback], by simp [hleave]⟩

/-- An error that every node around hands on ends the walk. -/
theorem Unwinds.handed_on (h : Unwinds a m es result)
    (hall : ∀ b p r, Above b a → .leave (b, p) r ∈ es → r = .error m) :
    (∀ y, .enter y ∉ es) ∧ result = .error m := by
  induction h with
  | root => exact ⟨by simp, rfl⟩
  | @handled b k p m es result =>
    have hok := hall b p (.ok ()) (above_concat b k) (by simp)
    cases hok
  | @raised b k p m m' es result _ ih =>
    have herror := hall b p (.error m') (above_concat b k) (by simp)
    cases herror
    obtain ⟨henter, hresult⟩ := ih fun b' p' r hb hleave =>
      hall b' p' r (hb.concat k) (by simp [hleave])
    exact ⟨by simpa using henter, hresult⟩

end Unwinding

/-- How the events of a walk from a node down hang together. -/
structure Orderly (n : Node π) (es : List (Event π ε)) (result : Except ε Unit) : Prop where
  balanced : Balanced es
  last : es.getLast? = some (.leave ([], n) result)
  held : ∀ e ∈ es, e.node ∈ n.addressed
  preorder : (es.filterMap Moment.entered?).Sublist n.addressed
  once : ((es.filterMap Moment.entered?).map (·.1)).Nodup
  /-- An error given to a continuation comes back, and nothing below the node is ever entered. -/
  refused : ∀ pre post y m, es = pre ++ .call y (.error m) :: post →
    post.head? = some (.back y (.error m)) ∧ ∀ z, .enter z ∈ es → ¬ Above y.1 z.1
  /-- A node left with an error is the last of its siblings, and the continuation of its parent
  returns the error. -/
  stopped : ∀ pre post b k c m, es = pre ++ .leave (b ++ [k], c) (.error m) :: post →
    (∃ p, post.head? = some (.back (b, p) (.error m))) ∧ ∀ j d, .enter (b ++ [j], d) ∉ post
  /-- Nodes that are entered behind an error are behind a node around that has put an end to it. -/
  replaced : ∀ pre mid post y z m, es = pre ++ .leave y (.error m) :: (mid ++ .enter z :: post) →
    ∃ b p m', Above b y.1 ∧ .call (b, p) (.ok ()) ∈ pre ∧ .back (b, p) (.error m') ∈ mid ∧
      .leave (b, p) (.ok ()) ∈ mid
  /-- An error that all nodes around hand on is the end of the walk, and its result. -/
  handedOn : ∀ pre post y m, es = pre ++ .leave y (.error m) :: post →
    (∀ b p r, Above b y.1 → .leave (b, p) r ∈ post → r = .error m) →
    (∀ z, .enter z ∉ post) ∧ result = .error m

theorem Passage.orderly {n : Node π} {es : List (Event π ε)} {result : Except ε Unit}
    (h : Passage [] n es result) : Orderly n es result := by
  have hlisted : n.addressed.map (atAddress []) = n.addressed := List.map_id _
  have hpreorder := h.traced.entered
  rw [hlisted] at hpreorder
  have hbefore {pre post : List (Event π ε)} {e : Event π ε} (hes : es = pre ++ e :: post) :
      (∀ e' ∈ pre, Precedes e' e) ∧ ∀ e' ∈ post, Precedes e e' := by
    have hapart := h.traced.apart
    rw [hes] at hapart
    obtain ⟨-, hpost, hpre⟩ := List.pairwise_append.mp hapart
    exact ⟨fun e' he' => hpre e' he' e List.mem_cons_self, (List.pairwise_cons.mp hpost).1⟩
  have hheld := h.traced.held
  rw [hlisted] at hheld
  refine ⟨h.balanced [] rfl, h.last, hheld, hpreorder, ?_, ?_, ?_, ?_, ?_⟩
  · exact n.addressed_nodup.sublist (hpreorder.map _)
  · intro pre post y m hes
    rcases h.split hes with ⟨-, heq⟩ | ⟨e, post, rfl, rfl⟩
    · cases heq
    refine ⟨rfl, fun z hz habove => ?_⟩
    -- before the call it would be too early, and behind the return too late
    rw [hes] at hz
    have hback : es = (pre ++ [.call y (.error m)]) ++ .back y (.error m) :: post := by
      rw [hes, List.append_assoc]; rfl
    simp only [List.mem_append, List.mem_cons, reduceCtorEq, false_or] at hz
    rcases hz with hz | hz
    · exact ((hbefore hes).1 _ hz).called y _ rfl habove
    · exact ((hbefore hback).2 _ hz).returned y _ z rfl rfl habove
  · intro pre post b k c m hes
    rcases h.split hes with ⟨-, heq⟩ | ⟨e, post, rfl, b', k', p, hb, rfl⟩
    · simp at heq
    obtain ⟨rfl, rfl⟩ : b = b' ∧ k = k' := by simpa using hb
    refine ⟨⟨p, rfl⟩, fun j d hd => ?_⟩
    have hback : es = (pre ++ [.leave (b ++ [k], c) (.error m)]) ++
        .back (b, p) (.error m) :: post := by rw [hes, List.append_assoc]; rfl
    simp only [List.mem_cons, reduceCtorEq, false_or] at hd
    exact ((hbefore hback).2 _ hd).returned (b, p) _ (b ++ [j], d) rfl rfl (above_concat b j)
  · intro pre mid post y z m hes
    obtain ⟨b, p, m', hb, hback, hleave⟩ := (h.unwinds hes).enters rfl
    obtain ⟨q, hq⟩ := h.called (.leave y (.error m)) (by simp [hes]) b hb List.nil_prefix
    have hnode : (b, p) ∈ n.addressed := hheld (.back (b, p) (.error m')) (by simp [hes, hback])
    obtain rfl : p = q := Option.some.inj
      ((Node.mem_addressed.mp hnode).symm.trans (Node.mem_addressed.mp (hheld _ hq)))
    refine ⟨b, p, m', hb, ?_, hback, hleave⟩
    rw [hes, List.mem_append, List.mem_cons] at hq
    rcases hq with hmem | heq | hmem
    · exact hmem
    · cases heq
    · exact absurd hb (((hbefore hes).2 _ hmem).called (b, p) _ rfl)
  · intro pre post y m hes hall
    exact (h.unwinds hes).handed_on hall

/-- What a walk does is told by its events, and they are in order whatever the callback does. -/
theorem walk_orderly (callback : Node π → σ → Step σ ε × σ) (n : Node π) (s : σ) :
    ∃ es : List (Event π ε),
      walk (logging callback) n (s, []) =
        ((walk callback n s).1, (walk callback n s).2, es.map (Moment.map Prod.snd)) ∧
      Orderly n es (walk callback n s).1 := by
  obtain ⟨es, hlog, h⟩ := walk_logging callback n [] s []
  exact ⟨es, hlog, h.orderly⟩

end Syntree
