import Syntree.Proofs.Subtrees

/-!
Which nodes a visitor is shown.

A walk shows its visitor the nodes of the tree in preorder, without what is below a pruned node and
up to the first abort. The argument composes over the nodes listed with their addresses: those of
two children share no address, so what is pruned in one child leaves nothing out in another.
-/

namespace Syntree

variable {π σ ε : Type}

/-- A call of a visitor: the node it is shown, the way to that node, and the answer. -/
structure Visited (π ε : Type) where
  address : List Nat
  node : Node π
  verdict : Verdict ε

namespace Visited

def isPrune (v : Visited π ε) : Bool :=
  match v.verdict with
  | .prune => true
  | _ => false

/-- Whether a node was answered with `prune` and what is listed at `address` is below it. -/
def hides (v : Visited π ε) (address : List Nat) : Bool :=
  v.isPrune && v.address.isPrefixOf address && v.address != address

/-- The call as the parent of the node sees it, whose child `k` the way leads through. -/
def under (k : Nat) (v : Visited π ε) : Visited π ε :=
  { v with address := k :: v.address }

theorem hides_iff {v : Visited π ε} {address : List Nat} :
    v.hides address ↔ v.isPrune ∧ v.address <+: address ∧ v.address ≠ address := by
  simp [hides, and_assoc]

theorem hides_nil (v : Visited π ε) : v.hides [] = false := by
  rw [Bool.eq_false_iff, ne_eq, hides_iff]
  rintro ⟨-, hp, hne⟩
  exact hne (List.prefix_nil.mp hp)

theorem under_hides (k : Nat) (v : Visited π ε) (address : List Nat) :
    (v.under k).hides (k :: address) = v.hides address := by
  rw [Bool.eq_iff_iff, hides_iff, hides_iff]
  simp [under, isPrune]

end Visited

/-- The listed nodes that no call hides. -/
def unhidden (shown : List (Visited π ε)) (nodes : List (List Nat × Node π)) :
    List (List Nat × Node π) :=
  nodes.filter fun e => !shown.any (·.hides e.1)

theorem unhidden_root (shown : List (Visited π ε)) (n : Node π)
    (nodes : List (List Nat × Node π)) :
    unhidden shown (([], n) :: nodes) = ([], n) :: unhidden shown nodes := by
  simp [unhidden, Visited.hides_nil]

theorem unhidden_append (shown : List (Visited π ε)) (nodes nodes' : List (List Nat × Node π)) :
    unhidden shown (nodes ++ nodes') = unhidden shown nodes ++ unhidden shown nodes' :=
  List.filter_append ..

theorem unhidden_congr {shown shown' : List (Visited π ε)} {nodes : List (List Nat × Node π)}
    (h : ∀ e ∈ nodes, shown.any (·.hides e.1) = shown'.any (·.hides e.1)) :
    unhidden shown nodes = unhidden shown' nodes :=
  List.filter_congr fun e he => by rw [h e he]

theorem unhidden_under (k : Nat) (shown : List (Visited π ε)) (nodes : List (List Nat × Node π)) :
    unhidden (shown.map (·.under k)) (nodes.map fun e => (k :: e.1, e.2)) =
      (unhidden shown nodes).map fun e => (k :: e.1, e.2) := by
  simp [unhidden, List.filter_map, Function.comp_def, Visited.under_hides]

/-- The calls of a visitor in turn: each takes over the state that the one before it left. -/
inductive Threaded (visitor : Node π → σ → Verdict ε × σ) : σ → List (Visited π ε) → σ → Prop
  | nil (s : σ) : Threaded visitor s [] s
  | cons {s s₁ s' : σ} {v : Visited π ε} {shown : List (Visited π ε)} :
    visitor v.node s = (v.verdict, s₁) → Threaded visitor s₁ shown s' →
      Threaded visitor s (v :: shown) s'

theorem Threaded.append {visitor : Node π → σ → Verdict ε × σ} {s s₁ s' : σ}
    {shown shown' : List (Visited π ε)} (h : Threaded visitor s shown s₁)
    (h' : Threaded visitor s₁ shown' s') : Threaded visitor s (shown ++ shown') s' := by
  induction h with
  | nil => exact h'
  | cons hv _ ih => exact .cons hv (ih h')

theorem Threaded.under {visitor : Node π → σ → Verdict ε × σ} {s s' : σ}
    {shown : List (Visited π ε)} (k : Nat) (h : Threaded visitor s shown s') :
    Threaded visitor s (shown.map (·.under k)) s' := by
  induction h with
  | nil => exact .nil _
  | cons hv _ ih => exact .cons hv ih

/-- How a walk ends after its calls: well if none of them aborts, else with the error of the last
one, which is the only one that aborts. -/
inductive Ended : List (Visited π ε) → Except ε Unit → Prop
  | ok {shown : List (Visited π ε)} : (∀ v ∈ shown, ∀ e, v.verdict ≠ .abort e) →
      Ended shown (.ok ())
  | error {shown : List (Visited π ε)} {v : Visited π ε} {e : ε} :
      (∀ v ∈ shown, ∀ e, v.verdict ≠ .abort e) → v.verdict = .abort e →
      Ended (shown ++ [v]) (.error e)

namespace Ended

variable {shown shown' : List (Visited π ε)} {result : Except ε Unit}

theorem append (h : Ended shown (.ok ())) (h' : Ended shown' result) :
    Ended (shown ++ shown') result := by
  obtain ⟨hok⟩ := h
  have hall {vs : List (Visited π ε)} (hvs : ∀ v ∈ vs, ∀ e, v.verdict ≠ .abort e) :
      ∀ v ∈ shown ++ vs, ∀ e, v.verdict ≠ .abort e := fun v hv =>
    (List.mem_append.mp hv).elim (hok v) (hvs v)
  cases h' with
  | ok hvs => exact .ok (hall hvs)
  | error hvs ha =>
    rw [← List.append_assoc]
    exact .error (hall hvs) ha

theorem under (k : Nat) (h : Ended shown result) : Ended (shown.map (·.under k)) result := by
  cases h with
  | ok hvs => exact .ok (List.forall_mem_map.mpr hvs)
  | error hvs ha =>
    rw [List.map_append]
    exact .error (List.forall_mem_map.mpr hvs) ha

theorem dropLast (h : Ended shown result) : ∀ v ∈ shown.dropLast, ∀ e, v.verdict ≠ .abort e := by
  cases h with
  | ok hvs => exact fun v hv => hvs v ((List.dropLast_sublist _).subset hv)
  | error hvs _ =>
    rw [List.dropLast_concat]
    exact hvs

theorem getLast (h : Ended shown result) (hr : result ≠ .ok ()) :
    ∃ v e, shown.getLast? = some v ∧ v.verdict = .abort e := by
  cases h with
  | ok => exact absurd rfl hr
  | @error shown v e _ ha => exact ⟨v, e, List.getLast?_concat, ha⟩

theorem error_iff (h : Ended shown result) (e : ε) :
    result = .error e ↔ ∃ v ∈ shown, v.verdict = .abort e := by
  cases h with
  | ok hvs =>
    refine ⟨nofun, ?_⟩
    rintro ⟨v, hv, ha⟩
    exact absurd ha (hvs v hv e)
  | @error shown v e' hvs ha =>
    constructor
    · rintro ⟨⟩
      exact ⟨v, by simp, ha⟩
    · rintro ⟨v', hv', ha'⟩
      rcases List.mem_append.mp hv' with hv' | hv'
      · exact absurd ha' (hvs v' hv' e)
      · rw [List.mem_singleton.mp hv', ha] at ha'
        rw [Verdict.abort.inj ha']

theorem ok_iff (h : Ended shown result) :
    result = .ok () ↔ ∀ v ∈ shown, ∀ e, v.verdict ≠ .abort e := by
  cases h with
  | ok hvs => exact ⟨fun _ => hvs, fun _ => rfl⟩
  | @error shown v e _ ha => exact ⟨nofun, fun hvs => absurd ha (hvs v (by simp) e)⟩

end Ended

/-- What a walk through listed nodes does: it calls the visitor on those that no call hides, in
turn, and misses some of them only after an abort. -/
structure Walked (visitor : Node π → σ → Verdict ε × σ) (nodes : List (List Nat × Node π)) (s : σ)
    (outcome : Except ε Unit × σ) (shown : List (Visited π ε))
    (missed : List (List Nat × Node π)) : Prop where
  nodes : unhidden shown nodes = shown.map (fun v => (v.address, v.node)) ++ missed
  missed : missed ≠ [] → outcome.1 ≠ .ok ()
  threaded : Threaded visitor s shown outcome.2
  ended : Ended shown outcome.1

namespace Walked

variable {visitor : Node π → σ → Verdict ε × σ} {nodes nodes' missed : List (List Nat × Node π)}
  {s s' : σ} {outcome : Except ε Unit × σ} {shown shown' : List (Visited π ε)}

theorem listed (h : Walked visitor nodes s outcome shown missed) {v : Visited π ε}
    (hv : v ∈ shown) : (v.address, v.node) ∈ nodes := by
  have hmem : (v.address, v.node) ∈ unhidden shown nodes := by
    rw [h.nodes]
    exact List.mem_append_left _ (List.mem_map_of_mem hv)
  exact (List.mem_filter.mp hmem).1

theorem under (k : Nat) (h : Walked visitor nodes s outcome shown missed) :
    Walked visitor (nodes.map fun e => (k :: e.1, e.2)) s outcome (shown.map (·.under k))
      (missed.map fun e => (k :: e.1, e.2)) where
  nodes := by
    rw [unhidden_under, h.nodes, List.map_append, List.map_map, List.map_map]
    rfl
  missed hm := h.missed (mt (congrArg _) hm)
  threaded := h.threaded.under k
  ended := h.ended.under k

/-- A walk that ends well goes on with what is listed next, if neither part can hide anything of
the other. -/
theorem append (h : Walked visitor nodes s (.ok (), s') shown [])
    (h' : Walked visitor nodes' s' outcome shown' missed)
    (hapart : ∀ e ∈ nodes, ∀ e' ∈ nodes', ¬ e.1 <+: e'.1 ∧ ¬ e'.1 <+: e.1) :
    Walked visitor (nodes ++ nodes') s outcome (shown ++ shown') missed where
  nodes := by
    have hleft : unhidden (shown ++ shown') nodes = unhidden shown nodes := by
      refine unhidden_congr fun e he => ?_
      rw [List.any_append, Bool.or_eq_left_iff_imp, List.any_eq_true]
      rintro ⟨v, hv, hh⟩
      exact absurd (Visited.hides_iff.mp hh).2.1 (hapart e he _ (h'.listed hv)).2
    have hright : unhidden (shown ++ shown') nodes' = unhidden shown' nodes' := by
      refine unhidden_congr fun e he => ?_
      rw [List.any_append, Bool.or_eq_right_iff_imp, List.any_eq_true]
      rintro ⟨v, hv, hh⟩
      exact absurd (Visited.hides_iff.mp hh).2.1 (hapart _ (h.listed hv) e he).1
    rw [unhidden_append, hleft, hright, h.nodes, h'.nodes, List.append_nil, List.map_append,
      List.append_assoc]
  missed := h'.missed
  threaded := h.threaded.append h'.threaded
  ended := h.ended.append h'.ended

/-- A walk that aborts misses all that is listed next. -/
theorem stop {e : ε} (h : Walked visitor nodes s (.error e, s') shown missed)
    (nodes' : List (List Nat × Node π)) :
    Walked visitor (nodes ++ nodes') s (.error e, s') shown
      (missed ++ unhidden shown nodes') where
  nodes := by rw [unhidden_append, h.nodes, List.append_assoc]
  missed _ := nofun
  threaded := h.threaded
  ended := h.ended

end Walked

theorem visit_eq (visitor : Node π → σ → Verdict ε × σ) (n : Node π) (s : σ) :
    visit visitor n s =
      match visitor n s with
      | (.proceed, s) => inTurn (visit visitor) n.children s
      | (.prune, s) => (.ok (), s)
      | (.abort e, s) => (.error e, s) := by
  conv => lhs; unfold visit
  rw [walk_eq]
  rcases visitor n s with ⟨verdict, s'⟩
  cases verdict <;> rfl

/-- The children of a node are walked one after the other. -/
theorem inTurn_walked {visitor : Node π → σ → Verdict ε × σ} {cs : List (Node π)}
    (hc : ∀ c ∈ cs, ∀ s, ∃ shown missed,
      Walked visitor c.addressed s (visit visitor c s) shown missed) (k : Nat) (s : σ) :
    ∃ shown missed, Walked visitor (Node.addressedFrom k cs) s (inTurn (visit visitor) cs s)
      shown missed := by
  induction cs generalizing k s with
  | nil => exact ⟨[], [], rfl, nofun, .nil s, .ok nofun⟩
  | cons c cs ih =>
    obtain ⟨shown, missed, h⟩ := hc c List.mem_cons_self s
    have hk := h.under k
    rw [Node.addressedFrom, inTurn]
    rcases hv : visit visitor c s with ⟨_ | _, s'⟩
    · rw [hv] at hk
      exact ⟨_, _, hk.stop _⟩
    · rw [hv] at hk
      obtain ⟨shown', missed', h'⟩ := ih (fun c h => hc c (List.mem_cons_of_mem _ h)) (k + 1) s'
      have hmissed : missed.map (fun e => (k :: e.1, e.2)) = [] :=
        Decidable.byContradiction fun hne => hk.missed hne rfl
      rw [hmissed] at hk
      refine ⟨_, _, hk.append h' ?_⟩
      -- the addresses of the two parts differ in their first index
      simp only [List.mem_map, Node.mem_addressedFrom]
      rintro _ ⟨e, -, rfl⟩ _ ⟨i, c', e', -, -, rfl⟩
      simp only [List.cons_prefix_cons, not_and]
      omega

theorem visit_walked (visitor : Node π → σ → Verdict ε × σ) (n : Node π) (s : σ) :
    ∃ shown missed, Walked visitor n.addressed s (visit visitor n s) shown missed := by
  induction n using Node.induction generalizing s with
  | step n ih =>
    rw [visit_eq, Node.addressed_eq]
    rcases hv : visitor n s with ⟨verdict, s'⟩
    have hcall {verdict' : Verdict ε} (hve : verdict = verdict') :
        visitor (⟨[], n, verdict'⟩ : Visited π ε).node s = (verdict', s') := by rw [hv, hve]
    cases verdict with
    | proceed =>
      obtain ⟨shown, missed, h⟩ := inTurn_walked ih 0 s'
      refine ⟨⟨[], n, .proceed⟩ :: shown, missed, ⟨?_, h.missed, .cons (hcall rfl) h.threaded, ?_⟩⟩
      · have hbelow : unhidden (⟨[], n, .proceed⟩ :: shown) (Node.addressedFrom 0 n.children) =
            unhidden shown (Node.addressedFrom 0 n.children) :=
          unhidden_congr fun e _ => by simp [Visited.hides, Visited.isPrune]
        rw [unhidden_root, hbelow, h.nodes]
        rfl
      · have hroot : Ended [(⟨[], n, .proceed⟩ : Visited π ε)] (.ok ()) := .ok (by simp)
        exact hroot.append h.ended
    | prune =>
      refine ⟨[⟨[], n, .prune⟩], [], ⟨?_, nofun, .cons (hcall rfl) (.nil s'), .ok (by simp)⟩⟩
      have hbelow : unhidden [(⟨[], n, .prune⟩ : Visited π ε)] (Node.addressedFrom 0 n.children) =
          [] := by
        rw [unhidden, List.filter_eq_nil_iff]
        intro e he
        obtain ⟨i, c, e', -, -, rfl⟩ := Node.mem_addressedFrom.mp he
        simp [Visited.hides, Visited.isPrune]
      rw [unhidden_root, hbelow]
      rfl
    | abort e =>
      have hroot : Walked visitor [([], n)] s (.error e, s') [⟨[], n, .abort e⟩] [] :=
        ⟨unhidden_root _ n [], nofun, .cons (hcall rfl) (.nil s'),
          @Ended.error π ε [] _ e nofun rfl⟩
      exact ⟨_, _, hroot.stop _⟩

/-- A visitor that also writes down what it is shown and what it answers. -/
def recording (visitor : Node π → σ → Verdict ε × σ) (n : Node π)
    (s : σ × List (Node π × Verdict ε)) : Verdict ε × σ × List (Node π × Verdict ε) :=
  let (verdict, s') := visitor n s.1
  (verdict, s', s.2 ++ [(n, verdict)])

/-- Writing down changes nothing else. -/
theorem visit_recording (visitor : Node π → σ → Verdict ε × σ) (n : Node π)
    (s : σ × List (Node π × Verdict ε)) :
    visit visitor n s.1 =
      ((visit (recording visitor) n s).1, (visit (recording visitor) n s).2.1) := by
  have inChildren (cs : List (Node π)) (hc : ∀ c ∈ cs, ∀ s, visit visitor c s.1 =
      ((visit (recording visitor) c s).1, (visit (recording visitor) c s).2.1))
      (s : σ × List (Node π × Verdict ε)) : inTurn (visit visitor) cs s.1 =
        ((inTurn (visit (recording visitor)) cs s).1,
          (inTurn (visit (recording visitor)) cs s).2.1) := by
    induction cs generalizing s with
    | nil => rfl
    | cons c cs ih =>
      rw [inTurn, inTurn, hc c List.mem_cons_self]
      rcases visit (recording visitor) c s with ⟨_ | _, s'⟩
      · rfl
      · exact ih (fun c h => hc c (List.mem_cons_of_mem _ h)) s'
  induction n using Node.induction generalizing s with
  | step n ih =>
    rw [visit_eq, visit_eq (recording visitor), recording]
    rcases visitor n s.1 with ⟨verdict, s'⟩
    cases verdict with
    | proceed => exact inChildren n.children ih (s', _)
    | prune | abort => rfl

theorem Threaded.of_recording {visitor : Node π → σ → Verdict ε × σ}
    {s s' : σ × List (Node π × Verdict ε)} {shown : List (Visited π ε)}
    (h : Threaded (recording visitor) s shown s') :
    Threaded visitor s.1 shown s'.1 ∧ s'.2 = s.2 ++ shown.map fun v => (v.node, v.verdict) := by
  induction h with
  | nil s => exact ⟨.nil s.1, (List.append_nil _).symm⟩
  | @cons s s₁ s' v shown hv _ ih =>
    have hcall : visitor v.node s.1 = (v.verdict, s₁.1) ∧ s₁.2 = s.2 ++ [(v.node, v.verdict)] := by
      rw [recording] at hv
      rcases hr : visitor v.node s.1 with ⟨verdict, t⟩
      rw [hr] at hv
      cases hv
      exact ⟨rfl, rfl⟩
    refine ⟨.cons hcall.1 ih.1, ?_⟩
    rw [ih.2, hcall.2, List.map_cons, List.append_assoc, List.singleton_append]

/-- A walk shows its visitor the nodes of the tree in preorder, except those below a node answered
with `prune` and those after the first one answered with `abort`, and it fails with the error of
that answer. The nodes of the tree are those that its fields hold, each at one address. -/
theorem visit_shows (visitor : Node π → σ → Verdict ε × σ) (n : Node π) (s : σ) :
    (n.addressed.map (fun e => (e.1.length, e.2)) = n.preorder 0 ∧
      n.addressed.map (·.2) = n.held ∧
      (n.addressed.map (·.1)).Nodup ∧
      ∀ address m, (address, m) ∈ n.addressed ↔ n.descend? address = some m) ∧
    ∃ (shown : List (Visited π ε)) (missed : List (List Nat × Node π)),
      unhidden shown n.addressed = shown.map (fun v => (v.address, v.node)) ++ missed ∧
      (missed ≠ [] → ∃ v e, shown.getLast? = some v ∧ v.verdict = .abort e) ∧
      (∀ v ∈ shown.dropLast, ∀ e, v.verdict ≠ .abort e) ∧
      Threaded visitor s shown (visit visitor n s).2 ∧
      visit (recording visitor) n (s, []) = ((visit visitor n s).1, (visit visitor n s).2,
        shown.map fun v => (v.node, v.verdict)) ∧
      (∀ e, (visit visitor n s).1 = .error e ↔ ∃ v ∈ shown, v.verdict = .abort e) ∧
      ((visit visitor n s).1 = .ok () ↔ ∀ v ∈ shown, ∀ e, v.verdict ≠ .abort e) := by
  refine ⟨⟨?_, ?_, n.addressed_nodup, fun _ _ => Node.mem_addressed⟩, ?_⟩
  · simpa using n.addressed_preorder 0
  · rw [Node.held_eq_subtree, Node.subtree, ← n.addressed_preorder 0, List.map_map]
    rfl
  obtain ⟨shown, missed, h⟩ := visit_walked (recording visitor) n (s, [])
  have hsame := visit_recording visitor n (s, [])
  obtain ⟨hthreaded, hlog⟩ := h.threaded.of_recording
  rw [hsame]
  refine ⟨shown, missed, h.nodes, fun hm => h.ended.getLast (h.missed hm), h.ended.dropLast,
    hthreaded, ?_, h.ended.error_iff, h.ended.ok_iff⟩
  exact Prod.ext rfl (Prod.ext rfl hlog)

end Syntree
