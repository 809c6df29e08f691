import HkuUtils.FilterNode.Model

set_option relaxedAutoImplicit false
set_option autoImplicit false

/-!
# Which nodes process the data

The result of a child steers the loop of its parent only if the parent is exclusive. So an exclusive
node enters the first of its children that passes and no other, a node that is not exclusive enters
all that pass, and what is thrown at a node changes nothing beyond that a filter does not pass.

## Main definitions

* `HkuUtils.FilterNode.Selects` — the recursive definition of the nodes that process the data.
* `HkuUtils.FilterNode.selected` — the same as a function, where the answers of the filters do not
  depend on what was processed before.

## Main results

* `HkuUtils.FilterNode.run_selects` — a run follows the definition.
* `HkuUtils.FilterNode.Selects.unique` — the definition leaves no choice.
* `HkuUtils.FilterNode.selected_node` — the equation of the function.
* `HkuUtils.FilterNode.run_processes_selected` — what a run does.
-/

namespace HkuUtils.FilterNode

variable {N D σ : Type} {b : Behaviour N D σ} {data : D}

/-! ## The recursive definition -/

mutual

/-- `Selects b data node w passes l w'`: from the state `w` the filter of the node passes or not,
and the nodes of `l` process the data, in this order. -/
inductive Selects (b : Behaviour N D σ) (data : D) : Node N → σ → Bool → List N → σ → Prop where
  /-- The node is not entered. -/
  | rejected {self : N} {exclusive : Bool} {children : List (Node N)} {w : σ}
    (h : answer b self data w = false) :
    Selects b data (.node self exclusive children) w false [] (afterFilter b self data w)
  /-- All children are tried. -/
  | every {self : N} {children : List (Node N)} {w w' : σ} {l : List N}
    (h : answer b self data w = true)
    (hchildren : SelectsEach b data children
      (afterProcess b self data (afterFilter b self data w)) l w') :
    Selects b data (.node self false children) w true (self :: l) w'
  /-- The children up to the first one that passes are tried. -/
  | first {self : N} {before : List (Node N)} {child : Node N} (rest : List (Node N))
    {w w₁ w' : σ} {l : List N} (h : answer b self data w = true)
    (hbefore : RejectsEach b data before (afterProcess b self data (afterFilter b self data w)) w₁)
    (hchild : Selects b data child w₁ true l w') :
    Selects b data (.node self true (before ++ child :: rest)) w true (self :: l) w'
  /-- No child passes. -/
  | alone {self : N} {children : List (Node N)} {w w' : σ} (h : answer b self data w = true)
    (hchildren : RejectsEach b data children
      (afterProcess b self data (afterFilter b self data w)) w') :
    Selects b data (.node self true children) w true [self] w'

/-- The nodes are tried one after the other. -/
inductive SelectsEach (b : Behaviour N D σ) (data : D) :
    List (Node N) → σ → List N → σ → Prop where
  | nil {w : σ} : SelectsEach b data [] w [] w
  | cons {node : Node N} {rest : List (Node N)} {w w₁ w' : σ} {passes : Bool} {l l' : List N}
    (h : Selects b data node w passes l w₁) (hrest : SelectsEach b data rest w₁ l' w') :
    SelectsEach b data (node :: rest) w (l ++ l') w'

/-- The nodes are tried one after the other, and none is entered. -/
inductive RejectsEach (b : Behaviour N D σ) (data : D) : List (Node N) → σ → σ → Prop where
  | nil {w : σ} : RejectsEach b data [] w w
  | cons {node : Node N} {rest : List (Node N)} {w w₁ w' : σ}
    (h : Selects b data node w false [] w₁) (hrest : RejectsEach b data rest w₁ w') :
    RejectsEach b data (node :: rest) w w'

end

/-! ## A run follows the definition -/

/-- What the loop over the children of an exclusive node selects. -/
def SelectsFirst (b : Behaviour N D σ) (data : D) (nodes : List (Node N)) (w : σ) (l : List N)
    (w' : σ) : Prop :=
  (∃ before child rest w₁, nodes = before ++ child :: rest ∧ RejectsEach b data before w w₁ ∧
    Selects b data child w₁ true l w') ∨ l = [] ∧ RejectsEach b data nodes w w'

mutual

/-- **A run does not throw, and follows the definition.**

**Proof sketch.** By recursion on the tree, together with the lists of children. A node that does
not pass ends its own run; one that does goes through its children, up to the first that passes if
it is exclusive. -/
theorem run_selects (b : Behaviour N D σ) (data : D) : ∀ (node : Node N) (w : σ)
    (log : List (Record N)), ∃ passes l w' log',
      run b data node (w, log) = (.ok passes, (w', log')) ∧
      processed log' = processed log ++ l ∧ Selects b data node w passes l w'
  | .node self exclusive children, w, log => by
    cases h : answer b self data w with
    | false =>
      obtain ⟨log', hrun, hlog⟩ := run_of_not_filter exclusive children log h
      exact ⟨false, [], _, log', hrun, by rw [hlog, List.append_nil], .rejected h⟩
    | true =>
      obtain ⟨log₁, hlog₁, hgo⟩ := run_of_filter exclusive children log h
      cases exclusive with
      | false =>
        obtain ⟨l, w', log', hrun, hlog, hsel⟩ := runChildren_selectsEach b data children
          (afterProcess b self data (afterFilter b self data w)) log₁
        refine ⟨true, self :: l, w', log', hgo _ hrun, ?_, .every h hsel⟩
        rw [hlog, hlog₁, List.append_assoc, List.singleton_append]
      | true =>
        obtain ⟨l, w', log', hrun, hlog, hsel⟩ := runChildren_selectsFirst b data children
          (afterProcess b self data (afterFilter b self data w)) log₁
        refine ⟨true, self :: l, w', log', hgo _ hrun, ?_, ?_⟩
        · rw [hlog, hlog₁, List.append_assoc, List.singleton_append]
        · rcases hsel with ⟨before, child, rest, w₁, rfl, hbefore, hchild⟩ | ⟨rfl, hnone⟩
          · exact .first rest h hbefore hchild
          · exact .alone h hnone

/-- The loop of a node that is not exclusive. -/
theorem runChildren_selectsEach (b : Behaviour N D σ) (data : D) : ∀ (nodes : List (Node N))
    (w : σ) (log : List (Record N)), ∃ l w' log',
      runChildren b data false nodes (w, log) = (.ok (), (w', log')) ∧
      processed log' = processed log ++ l ∧ SelectsEach b data nodes w l w'
  | [], w, log => ⟨[], w, log, rfl, (List.append_nil _).symm, .nil⟩
  | node :: rest, w, log => by
    obtain ⟨passes, l, w₁, log₁, hrun, hlog₁, hsel⟩ := run_selects b data node w log
    obtain ⟨l', w', log', hrest, hlog', hselrest⟩ := runChildren_selectsEach b data rest w₁ log₁
    refine ⟨l ++ l', w', log', ?_, by rw [hlog', hlog₁, List.append_assoc], .cons hsel hselrest⟩
    rw [runChildren_cons_next hrun (Bool.and_false _), hrest]

/-- The loop of an exclusive node. -/
theorem runChildren_selectsFirst (b : Behaviour N D σ) (data : D) : ∀ (nodes : List (Node N))
    (w : σ) (log : List (Record N)), ∃ l w' log',
      runChildren b data true nodes (w, log) = (.ok (), (w', log')) ∧
      processed log' = processed log ++ l ∧ SelectsFirst b data nodes w l w'
  | [], w, log => ⟨[], w, log, rfl, (List.append_nil _).symm, .inr ⟨rfl, .nil⟩⟩
  | node :: rest, w, log => by
    obtain ⟨passes, l, w₁, log₁, hrun, hlog₁, hsel⟩ := run_selects b data node w log
    cases passes with
    | true =>
      exact ⟨l, w₁, log₁, runChildren_cons_stop hrun rest, hlog₁,
        .inl ⟨[], node, rest, w, rfl, .nil, hsel⟩⟩
    | false =>
      obtain rfl : l = [] := by cases hsel; rfl
      obtain ⟨l', w', log', hrest, hlog', hselrest⟩ := runChildren_selectsFirst b data rest w₁ log₁
      refine ⟨l', w', log', ?_, by rw [hlog', hlog₁, List.append_nil], ?_⟩
      · rw [runChildren_cons_next hrun rfl, hrest]
      · rcases hselrest with ⟨before, child, rest', w₂, rfl, hbefore, hchild⟩ | ⟨rfl, hnone⟩
        · exact .inl ⟨node :: before, child, rest', w₂, rfl, .cons hsel hbefore, hchild⟩
        · exact .inr ⟨rfl, .cons hsel hnone⟩

end

/-! ## The definition leaves no choice -/

mutual

/-- What the definition says is what a run does.

**Proof sketch.** By recursion on the derivation, one case for each rule, together with the lists
of children. -/
theorem run_of_selects {node : Node N} {w w' : σ} {passes : Bool} {l : List N} :
    Selects b data node w passes l w' → ∀ log : List (Record N), ∃ log',
      run b data node (w, log) = (.ok passes, (w', log')) ∧ processed log' = processed log ++ l
  | .rejected h, log => by
    obtain ⟨log', hrun, hlog⟩ := run_of_not_filter _ _ log h
    exact ⟨log', hrun, by rw [hlog, List.append_nil]⟩
  | .every h hchildren, log => by
    obtain ⟨log₁, hlog₁, hgo⟩ := run_of_filter _ _ log h
    obtain ⟨log', hrun, hlog⟩ := runChildren_of_selectsEach hchildren log₁
    exact ⟨log', hgo _ hrun, by rw [hlog, hlog₁, List.append_assoc, List.singleton_append]⟩
  | .first rest h hbefore hchild, log => by
    obtain ⟨log₁, hlog₁, hgo⟩ := run_of_filter _ _ log h
    obtain ⟨log₂, hskip, hlog₂⟩ := runChildren_of_rejectsEach hbefore log₁
    obtain ⟨log', hrun, hlog⟩ := run_of_selects hchild log₂
    refine ⟨log', hgo _ ((hskip _).trans (runChildren_cons_stop hrun rest)), ?_⟩
    rw [hlog, hlog₂, hlog₁, List.append_assoc, List.singleton_append]
  | .alone h hchildren, log => by
    obtain ⟨log₁, hlog₁, hgo⟩ := run_of_filter _ _ log h
    obtain ⟨log₂, hskip, hlog₂⟩ := runChildren_of_rejectsEach hchildren log₁
    have hrun := hskip []
    rw [List.append_nil] at hrun
    exact ⟨log₂, hgo _ hrun, by rw [hlog₂, hlog₁]⟩

/-- The same for the loop of a node that is not exclusive. -/
theorem runChildren_of_selectsEach {nodes : List (Node N)} {w w' : σ} {l : List N} :
    SelectsEach b data nodes w l w' → ∀ log : List (Record N), ∃ log',
      runChildren b data false nodes (w, log) = (.ok (), (w', log')) ∧
      processed log' = processed log ++ l
  | .nil, log => ⟨log, rfl, (List.append_nil _).symm⟩
  | .cons h hrest, log => by
    obtain ⟨log₁, hrun, hlog₁⟩ := run_of_selects h log
    obtain ⟨log', hruns, hlog⟩ := runChildren_of_selectsEach hrest log₁
    refine ⟨log', ?_, by rw [hlog, hlog₁, List.append_assoc]⟩
    rw [runChildren_cons_next hrun (Bool.and_false _), hruns]

/-- The loop of an exclusive node passes over the children that do not pass. -/
theorem runChildren_of_rejectsEach {nodes : List (Node N)} {w w' : σ} :
    RejectsEach b data nodes w w' → ∀ log : List (Record N), ∃ log',
      (∀ rest, runChildren b data true (nodes ++ rest) (w, log) =
        runChildren b data true rest (w', log')) ∧ processed log' = processed log
  | .nil, log => ⟨log, fun _ => rfl, rfl⟩
  | .cons h hrest, log => by
    obtain ⟨log₁, hrun, hlog₁⟩ := run_of_selects h log
    obtain ⟨log', hruns, hlog⟩ := runChildren_of_rejectsEach hrest log₁
    refine ⟨log', fun rest => ?_, by rw [hlog, hlog₁, List.append_nil]⟩
    rw [List.cons_append, runChildren_cons_next hrun rfl, hruns]

end

/-- **A run does what the definition says**, and nothing else. -/
theorem run_iff_selects {node : Node N} {w w' : σ} {passes : Bool} {l : List N}
    (log : List (Record N)) :
    (∃ log', run b data node (w, log) = (.ok passes, (w', log')) ∧
        processed log' = processed log ++ l) ↔ Selects b data node w passes l w' := by
  constructor
  · rintro ⟨log', hrun, hlog⟩
    obtain ⟨passes₁, l₁, w₁, log₁, hrun₁, hlog₁, hsel⟩ := run_selects b data node w log
    rw [hrun] at hrun₁
    cases hrun₁
    rw [hlog] at hlog₁
    rwa [List.append_cancel_left hlog₁]
  · intro h
    exact run_of_selects h log

/-! ## Filters that only look at the data -/

mutual

/-- The nodes that process the data, where `passes` are the answers of the filters. -/
def selected (passes : N → Bool) : Node N → List N
  | .node self exclusive children =>
    if passes self then self :: selectedChildren passes exclusive children else []

/-- The nodes below the children of a node. -/
def selectedChildren (passes : N → Bool) (exclusive : Bool) : List (Node N) → List N
  | [] => []
  | node :: rest =>
    if passes node.self then
      selected passes node ++ if exclusive then [] else selectedChildren passes exclusive rest
    else selectedChildren passes exclusive rest

end

/-- The children that are entered: the first one that passes, or all that do. -/
def entered (passes : N → Bool) (exclusive : Bool) (children : List (Node N)) : List (Node N) :=
  if exclusive then (children.find? fun c => passes c.self).toList
  else children.filter fun c => passes c.self

variable {passes : N → Bool}

/-- A node that does not pass selects nothing. -/
lemma selected_of_not_passes {node : Node N} (h : passes node.self = false) :
    selected passes node = [] := by
  cases node with
  | node self exclusive children =>
    rw [Node.self] at h
    rw [selected, h]
    rfl

/-- What the children select is what the entered ones do.

**Proof sketch.** By induction on the children. One that does not pass is skipped; one that passes
is entered, and ends the loop in an exclusive node. -/
lemma selectedChildren_eq (exclusive : Bool) (children : List (Node N)) :
    selectedChildren passes exclusive children =
      (entered passes exclusive children).flatMap (selected passes) := by
  induction children with
  | nil => cases exclusive <;> rfl
  | cons node rest ih =>
    rw [selectedChildren]
    cases h : passes node.self with
    | false =>
      rw [if_neg Bool.false_ne_true, ih, entered, entered]
      simp [h]
    | true =>
      rw [if_pos rfl]
      cases exclusive with
      | false =>
        rw [if_neg Bool.false_ne_true, ih, entered, entered]
        simp [h]
      | true =>
        rw [if_pos rfl, entered]
        simp [h]

/-- **The equation of the definition**: a node that passes comes before its children, and hands the
data to those that are entered. -/
theorem selected_node (self : N) (exclusive : Bool) (children : List (Node N)) :
    selected passes (.node self exclusive children) =
      if passes self then self :: (entered passes exclusive children).flatMap (selected passes)
      else [] := by
  rw [selected, selectedChildren_eq]

mutual

/-- What the definition selects when the filters only look at the data.

**Proof sketch.** By recursion on the derivation, one case for each rule, together with the lists
of children. -/
theorem selected_of_selects (hanswer : ∀ self w, answer b self data w = passes self)
    {node : Node N} {w w' : σ} {r : Bool} {l : List N} :
    Selects b data node w r l w' → r = passes node.self ∧ l = selected passes node
  | .rejected h => by
    rw [hanswer] at h
    rw [selected, h]
    exact ⟨h.symm, rfl⟩
  | .every h hchildren => by
    rw [hanswer] at h
    rw [selected, h, if_pos rfl, selectedChildren_of_selectsEach hanswer hchildren]
    exact ⟨h.symm, rfl⟩
  | .first _ h hbefore hchild => by
    rw [hanswer] at h
    obtain ⟨hpasses, hl⟩ := selected_of_selects hanswer hchild
    rw [selected, h, if_pos rfl, selectedChildren_of_rejectsEach hanswer hbefore, selectedChildren,
      ← hpasses, if_pos rfl, if_pos rfl, List.append_nil, hl]
    exact ⟨h.symm, rfl⟩
  | .alone h hchildren => by
    rw [hanswer] at h
    have hnone := selectedChildren_of_rejectsEach hanswer hchildren []
    rw [List.append_nil] at hnone
    rw [selected, h, if_pos rfl, hnone]
    exact ⟨h.symm, rfl⟩

/-- The same for the children of a node that is not exclusive. -/
theorem selectedChildren_of_selectsEach (hanswer : ∀ self w, answer b self data w = passes self)
    {nodes : List (Node N)} {w w' : σ} {l : List N} :
    SelectsEach b data nodes w l w' → selectedChildren passes false nodes = l
  | .nil => rfl
  | .cons h hrest => by
    obtain ⟨-, hl⟩ := selected_of_selects hanswer h
    rw [selectedChildren, selectedChildren_of_selectsEach hanswer hrest, hl]
    split
    · rfl
    · next hnot =>
      rw [selected_of_not_passes (Bool.eq_false_iff.2 hnot), List.nil_append]

/-- Children that do not pass are passed over. -/
theorem selectedChildren_of_rejectsEach (hanswer : ∀ self w, answer b self data w = passes self)
    {nodes : List (Node N)} {w w' : σ} : RejectsEach b data nodes w w' →
      ∀ rest, selectedChildren passes true (nodes ++ rest) = selectedChildren passes true rest
  | .nil, _ => rfl
  | .cons h hrest, rest => by
    obtain ⟨hpasses, -⟩ := selected_of_selects hanswer h
    rw [List.cons_append, selectedChildren, ← hpasses, if_neg Bool.false_ne_true,
      selectedChildren_of_rejectsEach hanswer hrest]

end

/-! ## What a run does -/

/-- The result of a run is the answer of the filter at the root. -/
lemma passes_of_selects {node : Node N} {w w' : σ} {passes : Bool} {l : List N}
    (h : Selects b data node w passes l w') : passes = answer b node.self data w := by
  cases h with
  | rejected h => exact h.symm
  | every h _ => exact h.symm
  | first _ h _ _ => exact h.symm
  | alone h _ => exact h.symm

/-- **A run processes the selected nodes.** For every tree and all filters and processes, which may
throw and may depend on what was processed before, a run

* does not throw, and processes the nodes of the recursive definition, in its order, which leaves no
  choice;
* returns whether the filter of the root passes;
* and processes the nodes that `selected` computes, if the answers of the filters are fixed.

**Proof sketch.** `run_selects` and `run_of_selects` are inductions over the tree and over the
definition, with one lemma for each of the two loops over the children. -/
theorem run_processes_selected (b : Behaviour N D σ) (data : D) (node : Node N) (w : σ) :
    ∃ passes w' log', run b data node (w, []) = (.ok passes, (w', log')) ∧
      (∀ passes₁ l w₁, Selects b data node w passes₁ l w₁ ↔
        passes₁ = passes ∧ l = processed log' ∧ w₁ = w') ∧
      passes = answer b node.self data w ∧
      ∀ answers : N → Bool, (∀ self w, answer b self data w = answers self) →
        processed log' = selected answers node := by
  obtain ⟨passes, l, w', log', hrun, hlog, hsel⟩ := run_selects b data node w []
  have hl : processed log' = l := hlog
  subst hl
  refine ⟨passes, w', log', hrun, fun passes₁ l w₁ => ⟨fun h => ?_, ?_⟩, passes_of_selects hsel,
    fun answers hanswer => (selected_of_selects hanswer hsel).2⟩
  · obtain ⟨log₁, hrun₁, hlog₁⟩ := run_of_selects h []
    rw [hrun] at hrun₁
    cases hrun₁
    exact ⟨rfl, hlog₁.symm, rfl⟩
  · rintro ⟨rfl, rfl, rfl⟩
    exact hsel

/-- The nodes of a test: the root passes, the node 100 throws in its filter, and the others pass if
their number is odd. -/
def oddNodes : Behaviour ℕ Unit Unit where
  filter self _ :=
    if self = 0 then pure true
    else if self = 100 then throw (.exception "error")
    else pure (self % 2 == 1)
  process _ _ := pure ()

/-- The tree of that test. -/
def group : Node ℕ :=
  .node 0 true
    [.node 3 false [.node 35 false [], .node 34 false [], .node 33 false []],
      .node 2 false [.node 22 false [], .node 23 false []], .node 200 false [],
      .node 100 false [], .node 1 false [.node 11 false []]]

/-- The first child that passes is entered, and no other. -/
theorem run_processes_selected_group : ∃ log', run oddNodes () group ((), []) =
    (.ok true, ((), log')) ∧ processed log' = [0, 3, 35, 33] := by
  obtain ⟨passes, w', log', hrun, -, hpasses, hselected⟩ :=
    run_processes_selected oddNodes () group ()
  refine ⟨log', by rw [hrun, hpasses]; rfl, ?_⟩
  rw [hselected fun self => self = 0 ∨ self ≠ 100 ∧ self % 2 = 1]
  · rfl
  · intro self w
    by_cases h0 : self = 0
    · simp [answer, oddNodes, h0]
    · by_cases h100 : self = 100
      · simp [answer, oddNodes, h100]
      · simp [answer, oddNodes, h0, h100]
        rfl

end HkuUtils.FilterNode
