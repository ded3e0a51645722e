import UnitPlane.Formula.Arena.Walk
import UnitPlane.Proofs.Formula.Arena.Descent
import UnitPlane.Proofs.Formula.Walk

/-!
# `UnitPlane.Proofs.Formula.Arena.Walk`: a walk over an arena is a recursion on its tree

The stack of pending numbers lists the nodes below a node one part after another, so the list is
`numbersFrom`, and it ends. The walks that go through the list then find at each node what they
need: the operands of an operator are on top of the stack, and the depths of its operands are those
kept before.

* `Arena.Holds.postorderFrom?`: the nodes below a node are listed in post-order.
* `Walk.foldlM_stepAt`: the nodes of a tree put one operand on the stack, or stop the walk.
* `Walk.two_le_length`: an operator always finds two operands on the stack.
* `Walk.runOver_eq_run`: a walk over an arena gives what the walk over its tree gives.
* `Arena.Holds.walkedDepth?`: the depth that is kept of the root is the depth of the tree.
-/

set_option autoImplicit false

namespace UnitPlane

namespace Arena

/-! ### The list of the nodes -/

section

variable {nodes : Array Node} {id l r : Nat} {op : Operator} {t : Tree}

/-- The listing goes on from what one step leaves. A step takes off the top of what is pending, and
lists it or puts its operands on top. -/
theorem listPending_of_step {listed listed' : Array Nat} {pending pending' : List (Nat × Bool)}
    (h : listStep nodes (listed, pending) = some (.inl (listed', pending'))) :
    listPending nodes listed pending = listPending nodes listed' pending' := by
  rw [listPending, repeatM_eq_of_monadTail, repeatM.body, h]
  rfl

/-- With nothing pending the listing has ended. -/
theorem listPending_nil (listed : Array Nat) : listPending nodes listed [] = some listed := by
  rw [listPending, repeatM_eq_of_monadTail]
  rfl

/-- The nodes below a pending one are listed in post-order before the pending ones below it. In
particular the listing ends. -/
theorem Holds.listPending_cons (h : Holds nodes id t) (listed : Array Nat)
    (pending : List (Nat × Bool)) :
    listPending nodes listed ((id, false) :: pending) =
      listPending nodes (listed ++ (numbersFrom nodes id).toArray) pending := by
  induction h generalizing listed pending with
  | @var id v h | @literal id v h =>
    have hstep : listStep nodes (listed, (id, false) :: pending) =
        some (.inl (listed.push id, pending)) := by
      rw [listStep, h]
    rw [listPending_of_step hstep, numbersFrom, h, Array.push_eq_append]
  | @binary id l r op left right h hl hr _ _ ihl ihr =>
    -- An operator is pending twice: first its operands are put on top of it, and then it is listed.
    have hunmarked : listStep nodes (listed, (id, false) :: pending) =
        some (.inl (listed, (l, false) :: (r, false) :: (id, true) :: pending)) := by
      rw [listStep, h]
      rfl
    have hmarked (listed : Array Nat) :
        listStep nodes (listed, (id, true) :: pending) = some (.inl (listed.push id, pending)) := by
      rw [listStep, h]
      rfl
    rw [listPending_of_step hunmarked, ihl, ihr, listPending_of_step (hmarked _),
      numbersFrom_of_binary h hl hr, Array.push_eq_append]
    simp

/-- The nodes below a node are listed in post-order, by a stack of pending numbers and without a
recursion. -/
theorem Holds.postorderFrom? {a : Arena} (h : Holds a.nodes id t) :
    a.postorderFrom? id = some (numbersFrom a.nodes id).toArray := by
  rw [Arena.postorderFrom?, h.listPending_cons, listPending_nil, Array.empty_append]

/-- There is a variable below a node if the tree has one, and none of its nodes is overlooked. -/
theorem Holds.containsVariable? {a : Arena} (h : Holds a.nodes id t) :
    a.containsVariable? id = some t.hasVariable := by
  rw [Arena.containsVariable?, h.postorderFrom?, Option.map_some, List.any_toArray]
  refine congrArg some ?_
  induction h with
  | var h | literal h => simp [numbersFrom, isVariable, h, Tree.hasVariable]
  | binary h hl hr _ _ ihl ihr =>
    simp [numbersFrom_of_binary h hl hr, ihl, ihr, isVariable, h, Tree.hasVariable]

end

end Arena

/-! ### The stack of operands -/

namespace Walk

open Arena

variable {α : Type} (w : Walk α)

/-- A node is dealt with as the root of its tree. Of the operands only their trees are used, in the
words of a fault. -/
theorem stepAt_eq_step {nodes : Array Node} {id : Nat} {t : Tree} (h : Holds nodes id t)
    (stack : List α) : w.stepAt nodes stack id = w.step stack t := by
  cases h with
  | var h | literal h => rw [stepAt, h, step]
  | binary h hl hr hleft hright =>
    rw [stepAt, h]
    simp only [resultAt, hleft.treeFrom?, hright.treeFrom?]
    rfl

/-- The nodes below a node are dealt with as the subtrees in post-order, so the walk over the arena
is one over the tree. -/
theorem foldlM_stepAt_eq {nodes : Array Node} {id : Nat} {t : Tree} (h : Holds nodes id t)
    (stack : List α) :
    (numbersFrom nodes id).foldlM (w.stepAt nodes) stack = t.subtrees.foldlM w.step stack := by
  induction h generalizing stack with
  | var h => simp [numbersFrom, h, Tree.subtrees, w.stepAt_eq_step (.var h)]
  | literal h => simp [numbersFrom, h, Tree.subtrees, w.stepAt_eq_step (.literal h)]
  | binary h hl hr hleft hright ihl ihr =>
    have hstep := w.stepAt_eq_step (.binary h hl hr hleft hright)
    simp only [numbersFrom_of_binary h hl hr, Tree.subtrees, List.foldlM_append, ihl, ihr,
      List.foldlM_cons, List.foldlM_nil, hstep]

/-- The nodes of a tree put one operand on the stack and leave what is below, or stop the walk with
a fault. -/
theorem foldlM_stepAt {nodes : Array Node} {id : Nat} {t : Tree} (h : Holds nodes id t)
    (below : List α) :
    (numbersFrom nodes id).foldlM (w.stepAt nodes) below =
      w.fold t >>= fun operand => .ok (operand :: below) := by
  rw [w.foldlM_stepAt_eq h, w.foldlM_subtrees]

/-- How many operands there are after a node, if there are as many before it as it takes. A leaf
takes none, and an operator two. -/
def operandCount? (nodes : Array Node) (count id : Nat) : Option Nat :=
  match nodes[id]? with
  | none => none
  | some (.binary ..) => if 2 ≤ count then some (count - 1) else none
  | some _ => some (count + 1)

/-- The nodes of a tree always find as many operands as they take, and add one. This counts without
looking at what the operands are. -/
theorem foldlM_operandCount? {nodes : Array Node} {id : Nat} {t : Tree} (h : Holds nodes id t)
    (count : Nat) :
    (numbersFrom nodes id).foldlM (operandCount? nodes) count = some (count + 1) := by
  induction h generalizing count with
  | var h | literal h => simp [numbersFrom, h, operandCount?]
  | binary h hl hr _ _ ihl ihr =>
    simp [numbersFrom_of_binary h hl hr, List.foldlM_append, ihl, ihr, operandCount?, h]

/-- The operands on the stack are counted rightly by one step, if the step does not stop the
walk. -/
theorem operandCount?_of_stepAt {nodes : Array Node} {id : Nat} {stack stack' : List α}
    (h : w.stepAt nodes stack id = .ok stack') :
    operandCount? nodes stack.length id = some stack'.length := by
  rw [stepAt] at h
  rw [operandCount?]
  -- A step that succeeds takes as many operands as its node needs, and puts one on the stack.
  cases hnode : nodes[id]? with
  | none =>
    rw [hnode] at h
    cases h
  | some node =>
    rw [hnode] at h
    cases node with
    | var | literal =>
      cases h
      rfl
    | binary op left right =>
      dsimp only at h ⊢
      split at h
      next r l below =>
        obtain ⟨operand, -, h⟩ := Except.bind_eq_ok.1 h
        cases h
        simp
      next => cases h

/-- The operands on the stack are counted rightly along a row of nodes. -/
theorem operandCount?_of_foldlM {nodes : Array Node} {ids : List Nat} {stack stack' : List α}
    (h : ids.foldlM (w.stepAt nodes) stack = .ok stack') :
    ids.foldlM (operandCount? nodes) stack.length = some stack'.length := by
  induction ids generalizing stack with
  | nil =>
    cases h
    rfl
  | cons id ids ih =>
    obtain ⟨stack₁, hstep, h⟩ := Except.bind_eq_ok.1 h
    rw [List.foldlM_cons, w.operandCount?_of_stepAt hstep]
    exact ih h

/-- An operator always finds two operands on the stack. So the fault that there would be otherwise
never comes up, and the trees that it is meant for are never there. -/
theorem two_le_length {nodes : Array Node} {id : Nat} {t : Tree} (h : Holds nodes id t)
    {before after : List Nat} {i : Nat} (hids : numbersFrom nodes id = before ++ i :: after)
    {below stack : List α} (hstack : before.foldlM (w.stepAt nodes) below = .ok stack)
    (hi : operandsOf nodes i ≠ []) :
    2 ≤ stack.length := by
  have hcount := foldlM_operandCount? h below.length
  rw [hids, List.foldlM_append, w.operandCount?_of_foldlM hstack, Option.bind_eq_bind,
    Option.bind_some, List.foldlM_cons] at hcount
  obtain ⟨count, hstep, -⟩ := Option.bind_eq_some_iff.1 hcount
  -- The count after this node is there, so the count before it was enough.
  unfold operandCount? at hstep
  unfold operandsOf at hi
  split at hi
  next hnode =>
    rw [hnode] at hstep
    exact ((Option.ite_none_right_eq_some ..).1 hstep).1
  next => exact absurd rfl hi

/-- A walk over an arena gives what the walk over its tree gives. -/
theorem runOver_eq_run {a : Arena} {t : Tree} (h : Holds a.nodes a.root t) :
    w.runOver a = some (w.run t) := by
  rw [w.run_eq_fold, runOver, postorder?, h.postorderFrom?, Option.map_some, ← Array.foldlM_toList,
    w.foldlM_stepAt h]
  cases w.fold t with
  | error e => rfl
  | ok operand => rfl

end Walk

/-! ### The depths -/

namespace Arena

section

variable {nodes : Array Node} {id l r : Nat} {op : Operator} {t : Tree}
  {depths depths₁ depths₂ : Array Nat}

/-- The depths of these nodes are kept, and nothing else is changed. Depths that were kept before
are not looked at again. -/
structure Records (nodes : Array Node) (ids : List Nat) (depths depths' : Array Nat) : Prop where
  size_eq : depths'.size = depths.size
  getElem?_eq : ∀ k, depths'[k]? = if k ∈ ids then some (depthFrom nodes k) else depths[k]?

/-- The depths of two rows of nodes are kept one after the other. -/
theorem Records.append {ids ids' : List Nat} (h : Records nodes ids depths depths₁)
    (h' : Records nodes ids' depths₁ depths₂) : Records nodes (ids ++ ids') depths depths₂ where
  size_eq := h'.size_eq.trans h.size_eq
  getElem?_eq k := by
    rw [h'.getElem?_eq, h.getElem?_eq]
    by_cases hk : k ∈ ids' <;> simp [hk]

/-- A node's depth is kept once those of its operands are, from which it is computed. -/
theorem exists_records_single (hid : id < depths.size)
    (hdepth : nodeDepth? nodes depths id = some (depthFrom nodes id)) :
    ∃ depths', [id].foldlM (recordDepth? nodes) depths = some depths' ∧
      Records nodes [id] depths depths' := by
  refine ⟨depths.setIfInBounds id (depthFrom nodes id), by simp [recordDepth?, hdepth],
    Array.size_setIfInBounds, fun k => ?_⟩
  rw [Array.getElem?_setIfInBounds]
  by_cases hk : k = id
  · simp [hk, hid]
  · simp [hk, Ne.symm hk]

/-- The depths of the nodes below a node are kept when they are passed, since each comes after its
operands. -/
theorem Holds.exists_records (h : Holds nodes id t) (hsize : depths.size = nodes.size) :
    ∃ depths', (numbersFrom nodes id).foldlM (recordDepth? nodes) depths = some depths' ∧
      Records nodes (numbersFrom nodes id) depths depths' := by
  have hid : id < nodes.size := h.lt_size
  induction h generalizing depths with
  | var h | literal h =>
    rw [numbersFrom, h]
    exact exists_records_single (hsize ▸ hid) (by rw [nodeDepth?, Arena.depthFrom, h])
  | @binary id l r op left right h hl hr hleft hright ihl ihr =>
    obtain ⟨depths₁, hfoldl, hdepths₁⟩ := ihl hsize (Nat.lt_trans hl hid)
    obtain ⟨depths₂, hfoldr, hdepths₂⟩ := ihr (hdepths₁.size_eq.trans hsize) (Nat.lt_trans hr hid)
    have hoperands := hdepths₁.append hdepths₂
    -- Passing the right part leaves the depth of the left operand, or keeps the same again.
    have hdepth : nodeDepth? nodes depths₂ id = some (Arena.depthFrom nodes id) := by
      have hgetl : l ∈ numbersFrom nodes l ++ numbersFrom nodes r :=
        List.mem_append_left _ (hleft.mem_numbersFrom_iff.2 .refl)
      have hgetr : r ∈ numbersFrom nodes l ++ numbersFrom nodes r :=
        List.mem_append_right _ (hright.mem_numbersFrom_iff.2 .refl)
      rw [nodeDepth?, h, depthFrom_of_binary h hl hr]
      simp only [hoperands.getElem?_eq, if_pos hgetl, if_pos hgetr]
      rfl
    obtain ⟨depths₃, hfold, hdepths₃⟩ :=
      exists_records_single (by rw [hoperands.size_eq, hsize]; exact hid) hdepth
    rw [numbersFrom_of_binary h hl hr]
    refine ⟨depths₃, ?_, hoperands.append hdepths₃⟩
    rw [List.foldlM_append, List.foldlM_append, hfoldl, Option.bind_eq_bind,
      Option.bind_some, hfoldr]
    exact hfold

/-- The depth that is kept of the root is the depth of the tree, which the limit on the depth is
compared with. -/
theorem Holds.walkedDepth? {a : Arena} (h : Holds a.nodes a.root t) :
    a.walkedDepth? = some t.depth := by
  have hsize : (Array.replicate a.nodes.size 0).size = a.nodes.size := Array.size_replicate
  obtain ⟨depths, hfold, hdepths⟩ := h.exists_records hsize
  have hroot : a.root ∈ numbersFrom a.nodes a.root := h.mem_numbersFrom_iff.2 .refl
  have hget : depths[a.root]? = some t.depth := by
    rw [hdepths.getElem?_eq, if_pos hroot, h.depthFrom]
  simp [Arena.walkedDepth?, postorder?, h.postorderFrom?, hfold, hget]

end

end Arena

end UnitPlane
