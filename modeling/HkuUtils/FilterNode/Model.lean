import HkuUtils.Fallible

set_option relaxedAutoImplicit false
set_option autoImplicit false

/-!
# Trees of filter nodes

`FilterNode` of `FilterNode.h`. A node whose filter passes processes the data and hands them on to
its children; an exclusive node stops at the first child whose filter passes. What the filters and
the processes throw is caught at the node and reported as a warning.

## Main definitions

* `HkuUtils.FilterNode.Behaviour` — the virtual functions of the nodes.
* `HkuUtils.FilterNode.Node`, `addChild` — the trees.
* `HkuUtils.FilterNode.filter`, `process`, `run` — `_filter`, `_process` and `run`.

## Main results

* `HkuUtils.FilterNode.filter_apply`, `process_apply` — what the guarded functions do.
* `HkuUtils.FilterNode.run_of_filter`, `run_of_not_filter`, `runChildren_cons_stop`,
  `runChildren_cons_next` — one step of a run.

## Design

The virtual functions are programs on a state of their own, which can throw, so that what a filter
answers may depend on what was processed before. Beside that state is a log, with an entry for each
call of `process` and each warning. `run` is `noexcept`, which the programs cannot say: that it does
not throw is a theorem.
-/

namespace HkuUtils.FilterNode

variable {N D σ : Type}

/-! ## The nodes -/

/-- What the user's code throws: a `std::exception` with its `what()`, or something else. -/
inductive Thrown where
  | exception (what : String)
  | unknown
  deriving DecidableEq, Repr

/-- The virtual functions `filter` and `process` of the nodes. -/
structure Behaviour (N D σ : Type) where
  filter : N → D → Fallible σ Thrown Bool
  process : N → D → Fallible σ Thrown Unit

/-- A node with `m_exclusive` and `m_children`, the front first. -/
inductive Node (N : Type) where
  | node (self : N) (exclusive : Bool) (children : List (Node N))

/-- The name of the node at the root. -/
def Node.self : Node N → N
  | .node self _ _ => self

/-- `addChild`, which puts the child in front of the others; a null pointer is refused. -/
def Node.addChild : Node N → Option (Node N) → Except String (Node N)
  | .node self exclusive children, some child => .ok (.node self exclusive (child :: children))
  | _, none => .error "Invalid input child! child is null!"

/-- What is written down of a run. -/
inductive Record (N : Type) where
  /-- `process` of the node was called. -/
  | processed (self : N)
  | warned (message : String)
  deriving DecidableEq, Repr

/-- A program of the nodes beside the log. -/
abbrev Program (N σ α : Type) : Type := Fallible (σ × List (Record N)) Thrown α

/-- An entry of the log. -/
def record (r : Record N) : Program N σ Unit := Fallible.modify fun s => (s.1, s.2 ++ [r])

/-! ## A run -/

/-- `HKU_WARN` in the handlers of `_filter` and `_process`. -/
def Thrown.message (what : String) : Thrown → String
  | .exception e => "Node " ++ what ++ " exist error! " ++ e
  | .unknown => "Node " ++ what ++ " exist unknown error!"

/-- `_filter`. -/
def filter (b : Behaviour N D σ) (self : N) (data : D) : Program N σ Bool :=
  tryCatch (Fallible.lift (b.filter self data)) fun e => do
    record (.warned (e.message "filter"))
    pure false

/-- `_process`. -/
def process (b : Behaviour N D σ) (self : N) (data : D) : Program N σ Unit := do
  record (.processed self)
  tryCatch (Fallible.lift (b.process self data)) fun e => record (.warned (e.message "process"))

mutual

/-- `run`. The loop returns `true` in its middle or the function does so at its end. -/
def run (b : Behaviour N D σ) (data : D) : Node N → Program N σ Bool
  | .node self exclusive children => do
    if ← filter b self data then
      process b self data
      runChildren b data exclusive children
      return true
    else return false

/-- The loop of `run` over the children. -/
def runChildren (b : Behaviour N D σ) (data : D) (exclusive : Bool) :
    List (Node N) → Program N σ Unit
  | [] => pure ()
  | node :: rest => do
    if (← run b data node) && exclusive then return ()
    else runChildren b data exclusive rest

end

/-! ## One step of a run -/

/-- What a filter answers at a node: a filter that throws does not pass. -/
def answer (b : Behaviour N D σ) (self : N) (data : D) (w : σ) : Bool :=
  match (b.filter self data w).1 with
  | .ok passes => passes
  | .error _ => false

/-- The state after the filter. -/
def afterFilter (b : Behaviour N D σ) (self : N) (data : D) (w : σ) : σ := (b.filter self data w).2

/-- The state after the process. -/
def afterProcess (b : Behaviour N D σ) (self : N) (data : D) (w : σ) : σ :=
  (b.process self data w).2

/-- The nodes whose process was called, in the order of the calls. -/
def processed (log : List (Record N)) : List N :=
  log.filterMap fun
    | .processed self => some self
    | .warned _ => none

/-- What was processed in two parts of a log. -/
@[simp]
lemma processed_append (log log' : List (Record N)) :
    processed (log ++ log') = processed log ++ processed log' := List.filterMap_append

variable {b : Behaviour N D σ} {data : D}

/-- `_filter` returns the answer, and processes nothing. -/
lemma filter_apply (b : Behaviour N D σ) (self : N) (data : D) (w : σ) (log : List (Record N)) :
    ∃ log', filter b self data (w, log) =
      (.ok (answer b self data w), (afterFilter b self data w, log')) ∧
      processed log' = processed log := by
  unfold filter answer afterFilter
  rcases h : b.filter self data w with ⟨r, w'⟩
  have hlift : Fallible.lift (b.filter self data) (w, log) = (r, (w', log)) := by
    rw [Fallible.lift_apply, h]
  cases r with
  | ok passes => exact ⟨log, Fallible.tryCatch_ok hlift _, rfl⟩
  | error e =>
    refine ⟨log ++ [.warned (e.message "filter")], Fallible.tryCatch_error hlift _, ?_⟩
    simp [processed]

/-- `_process` returns, and has called the process of the node. -/
lemma process_apply (b : Behaviour N D σ) (self : N) (data : D) (w : σ) (log : List (Record N)) :
    ∃ log', process b self data (w, log) = (.ok (), (afterProcess b self data w, log')) ∧
      processed log' = processed log ++ [self] := by
  have hrecord : (record (.processed self) : Program N σ Unit) (w, log) =
      (.ok (), (w, log ++ [.processed self])) := rfl
  unfold process afterProcess
  rw [Fallible.bind_ok hrecord]
  rcases h : b.process self data w with ⟨r, w'⟩
  have hlift : Fallible.lift (b.process self data) (w, log ++ [.processed self]) =
      (r, (w', log ++ [.processed self])) := by
    rw [Fallible.lift_apply, h]
  cases r with
  | ok u =>
    refine ⟨_, Fallible.tryCatch_ok hlift _, ?_⟩
    simp [processed]
  | error e =>
    refine ⟨_, Fallible.tryCatch_error hlift _, ?_⟩
    simp [processed]

/-- A node whose filter does not pass. -/
lemma run_of_not_filter {self : N} (exclusive : Bool) (children : List (Node N)) {w : σ}
    (log : List (Record N)) (h : answer b self data w = false) :
    ∃ log', run b data (.node self exclusive children) (w, log) =
      (.ok false, (afterFilter b self data w, log')) ∧ processed log' = processed log := by
  obtain ⟨log', hfilter, hlog⟩ := filter_apply b self data w log
  rw [h] at hfilter
  refine ⟨log', ?_, hlog⟩
  rw [run, Fallible.bind_ok hfilter]
  rfl

/-- A node whose filter passes processes the data, and then goes through its children. -/
lemma run_of_filter {self : N} (exclusive : Bool) (children : List (Node N)) {w : σ}
    (log : List (Record N)) (h : answer b self data w = true) :
    ∃ log', processed log' = processed log ++ [self] ∧
      ∀ s, runChildren b data exclusive children
          (afterProcess b self data (afterFilter b self data w), log') = (.ok (), s) →
        run b data (.node self exclusive children) (w, log) = (.ok true, s) := by
  obtain ⟨log₁, hfilter, hlog₁⟩ := filter_apply b self data w log
  obtain ⟨log₂, hprocess, hlog₂⟩ := process_apply b self data (afterFilter b self data w) log₁
  rw [h] at hfilter
  refine ⟨log₂, by rw [hlog₂, hlog₁], fun s hs => ?_⟩
  rw [run, Fallible.bind_ok hfilter, if_pos rfl, Fallible.bind_ok hprocess, Fallible.bind_ok hs]
  rfl

/-- The loop of an exclusive node ends after a child whose filter passes. -/
lemma runChildren_cons_stop {node : Node N} {s t : σ × List (Record N)}
    (h : run b data node s = (.ok true, t)) (rest : List (Node N)) :
    runChildren b data true (node :: rest) s = (.ok (), t) := by
  rw [runChildren, Fallible.bind_ok h]
  rfl

/-- Otherwise the loop goes on. -/
lemma runChildren_cons_next {node : Node N} {exclusive passes : Bool} {s t : σ × List (Record N)}
    (h : run b data node s = (.ok passes, t)) (hnext : (passes && exclusive) = false)
    (rest : List (Node N)) :
    runChildren b data exclusive (node :: rest) s = runChildren b data exclusive rest t := by
  rw [runChildren, Fallible.bind_ok h, hnext]
  rfl

end HkuUtils.FilterNode
