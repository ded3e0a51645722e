import UnitPlane.Proofs.Formula.Arena.Layout
import Mathlib.Data.List.Nodup
import Mathlib.Logic.Relation

/-!
# `UnitPlane.Proofs.Formula.Arena.Descent`: the nodes below a node

`Holds` says that a node of an arena is the root of a tree, with a rule for each kind of node, and
is the ground of every induction on the nodes below it. `numbersFrom` lists these nodes by
recursion: those below the left operand, those below the right one, and the node itself. So they are
the nodes that can be reached from operators to operands, and their operands are the same nodes
again, except for the one at the top.

* `Arena.holds_iff`: a node is the root of the tree that is read off from it.
* `Arena.Holds.mem_numbersFrom_iff`: what is listed is what can be reached.
* `Arena.Holds.perm_numbersFrom`: each listed node but the top is listed once as an operand.
* `Arena.Holds.longest_path`: the depth is the length of the longest path down to a leaf.
-/

set_option autoImplicit false

namespace UnitPlane

namespace Arena

/-! ### Trees in an arena -/

/-- The node of a given number is the root of the tree. Operands have smaller numbers, so that there
are no cycles and the tree is finite. -/
inductive Holds (nodes : Array Node) : (id : Nat) → Tree → Prop where
  | var {id : Nat} {v : Variable} (h : nodes[id]? = some (.var v)) : Holds nodes id (.var v)
  | literal {id : Nat} {value : Float} (h : nodes[id]? = some (.literal value)) :
      Holds nodes id (.literal value)
  | binary {id l r : Nat} {op : Operator} {left right : Tree}
      (h : nodes[id]? = some (.binary op l r)) (hl : l < id)
      (hr : r < id) (hleft : Holds nodes l left) (hright : Holds nodes r right) :
        Holds nodes id (.binary op left right)

/-- Operands come before their operators, in a row of nodes numbered from `first` on. Operands may
be nodes before the row. -/
structure OrderedFrom (first : Nat) (row : Array Node) : Prop where
  operands_lt : ∀ {k : Nat} {op : Operator} {l r : Nat}, row[k]? = some (.binary op l r) →
    l < first + k ∧ r < first + k

section

variable {nodes : Array Node} {id : Nat} {t : Tree}

/-- From the root of a tree the tree is read off. The recursion checks that the numbers go down, as
they do here. -/
theorem Holds.treeFrom? (h : Holds nodes id t) : treeFrom? nodes id = some t := by
  induction h with
  | var h => rw [Arena.treeFrom?, h]
  | literal h => rw [Arena.treeFrom?, h]
  | binary h hl hr _ _ ihl ihr =>
    rw [treeFrom?_of_binary h hl hr, ihl, ihr]
    rfl

/-- A node is the root of the tree that is read off from it, so it is the root of one tree at
most. -/
theorem holds_iff : Holds nodes id t ↔ treeFrom? nodes id = some t := by
  refine ⟨Holds.treeFrom?, fun h => ?_⟩
  -- The recursion that reads off the tree goes down in the numbers, and so does the induction.
  induction id using Nat.strongRecOn generalizing t with
  | ind id ih =>
    cases hnode : nodes[id]? with
    | none =>
      rw [treeFrom?, hnode] at h
      cases h
    | some node =>
      cases node with
      | var v =>
        rw [treeFrom?, hnode] at h
        cases h
        exact .var hnode
      | literal value =>
        rw [treeFrom?, hnode] at h
        cases h
        exact .literal hnode
      | binary op l r =>
        rw [treeFrom?, hnode] at h
        obtain ⟨⟨hl, hr⟩, h⟩ := (Option.ite_none_right_eq_some ..).1 h
        obtain ⟨left, hleft, h⟩ := Option.bind_eq_some_iff.1 h
        obtain ⟨right, hright, rfl⟩ := Option.map_eq_some_iff.1 h
        exact .binary hnode hl hr (ih l hl hleft) (ih r hr hright)

/-- The root of a tree is a node of the arena. -/
theorem Holds.lt_size (h : Holds nodes id t) : id < nodes.size := by
  cases h with
  | var h | literal h | binary h => exact (Array.getElem?_eq_some_iff.1 h).1

/-- Where operands come before their operators, every node is the root of a tree. The tree is found
from the operands up. -/
theorem exists_holds (hordered : OrderedFrom 0 nodes) (hid : id < nodes.size) :
    ∃ t, Holds nodes id t := by
  -- The induction is on the number of the node, since operands have smaller numbers.
  induction id using Nat.strongRecOn with
  | ind id ih =>
    have hnode : nodes[id]? = some nodes[id] := Array.getElem?_eq_getElem hid
    cases hkind : nodes[id] with
    | var v => exact ⟨.var v, .var (hkind ▸ hnode)⟩
    | literal value => exact ⟨.literal value, .literal (hkind ▸ hnode)⟩
    | binary op l r =>
      rw [hkind] at hnode
      obtain ⟨hl, hr⟩ := hordered.operands_lt hnode
      rw [Nat.zero_add] at hl hr
      obtain ⟨left, hleft⟩ := ih l hl (Nat.lt_trans hl hid)
      obtain ⟨right, hright⟩ := ih r hr (Nat.lt_trans hr hid)
      exact ⟨.binary op left right, .binary hnode hl hr hleft hright⟩

end

/-! ### The nodes below a node -/

/-- The numbers of the nodes below a node: those below the left operand, those below the right one,
and its own. -/
def numbersFrom (nodes : Array Node) (id : Nat) : List Nat :=
  match nodes[id]? with
  | some (.binary _ left right) =>
    if left < id ∧ right < id then
      numbersFrom nodes left ++ numbersFrom nodes right ++ [id]
    else [id]
  | _ => [id]
termination_by id
decreasing_by
  all_goals omega

/-- The sides on which an operator has its operands. -/
inductive Side where
  | left
  | right
deriving DecidableEq

/-- The operator with the number `parent` has the node `child` as its operand on this side. -/
inductive IsOperand (nodes : Array Node) : (parent : Nat) → Side → (child : Nat) → Prop where
  | left {op : Operator} {parent l r : Nat} (h : nodes[parent]? = some (.binary op l r)) :
      IsOperand nodes parent .left l
  | right {op : Operator} {parent l r : Nat} (h : nodes[parent]? = some (.binary op l r)) :
      IsOperand nodes parent .right r

/-- Where operands come before their operators, an operand has the smaller number, on whichever side
it is. -/
theorem OrderedFrom.operand_lt {nodes : Array Node} (h : OrderedFrom 0 nodes) {parent child : Nat}
    {side : Side} (hoperand : IsOperand nodes parent side child) : child < parent := by
  cases hoperand with
  | left hnode =>
    have := (h.operands_lt hnode).1
    omega
  | right hnode =>
    have := (h.operands_lt hnode).2
    omega

/-- A node is reached from another through operators and their operands. -/
def Reaches (nodes : Array Node) : (above below : Nat) → Prop :=
  Relation.ReflTransGen fun parent child => ∃ side, IsOperand nodes parent side child

/-- The numbers of a node's operands. -/
def operandsOf (nodes : Array Node) (id : Nat) : List Nat :=
  match nodes[id]? with
  | some (.binary _ l r) => [l, r]
  | _ => []

section

variable {nodes : Array Node} {id l r : Nat} {op : Operator} {t : Tree}

/-- Below an operator there are the nodes below its operands, and the operator itself. -/
theorem numbersFrom_of_binary (h : nodes[id]? = some (.binary op l r)) (hl : l < id) (hr : r < id) :
    numbersFrom nodes id = numbersFrom nodes l ++ numbersFrom nodes r ++ [id] := by
  rw [numbersFrom, h]
  exact if_pos ⟨hl, hr⟩

/-- An operator has two operands, which may be the same node. -/
theorem operandsOf_of_binary (h : nodes[id]? = some (.binary op l r)) :
    operandsOf nodes id = [l, r] := by
  rw [operandsOf, h]

/-- A node is among the operands of another just when it is its operand on one of the sides. -/
theorem mem_operandsOf_iff {child : Nat} :
    child ∈ operandsOf nodes id ↔ ∃ side, IsOperand nodes id side child := by
  constructor
  · intro h
    unfold operandsOf at h
    -- Only operators have operands.
    split at h
    next hnode =>
      simp only [List.mem_cons, List.not_mem_nil, or_false] at h
      rcases h with rfl | rfl
      · exact ⟨.left, .left hnode⟩
      · exact ⟨.right, .right hnode⟩
    next => cases h
  · rintro ⟨side, h⟩
    cases h with
    | left h | right h => simp [operandsOf_of_binary h]

/-- What has an operand is a node of the arena. -/
theorem IsOperand.lt_size {parent child : Nat} {side : Side}
    (h : IsOperand nodes parent side child) : parent < nodes.size := by
  cases h with
  | left h | right h => exact (Array.getElem?_eq_some_iff.1 h).1

/-- An operator with two different operands has each of them on one side. Where the operands are one
node, it stands on both. -/
theorem IsOperand.side_unique {parent child : Nat} {side side' : Side}
    (hnodup : (operandsOf nodes parent).Nodup)
    (h : IsOperand nodes parent side child) (h' : IsOperand nodes parent side' child) :
    side = side' := by
  -- With equal operands on both sides the list would have one of them twice.
  cases h with
  | left h =>
    cases h' with
    | left => rfl
    | right h' =>
      rw [h] at h'
      cases h'
      simp [operandsOf, h] at hnodup
  | right h =>
    cases h' with
    | right => rfl
    | left h' =>
      rw [h] at h'
      cases h'
      simp [operandsOf, h] at hnodup

/-- From an operator, what is reached is the operator itself and what is reached from its operands,
so the first step goes to one of the two. -/
theorem reaches_iff_of_binary (h : nodes[id]? = some (.binary op l r)) {i : Nat} :
    Reaches nodes id i ↔ Reaches nodes l i ∨ Reaches nodes r i ∨ i = id := by
  unfold Reaches
  constructor
  · intro hreach
    -- A way from the operator goes nowhere, or starts with one of its operands.
    rcases hreach.cases_head with rfl | ⟨child, hchild, hreach⟩
    · exact .inr (.inr rfl)
    · rw [← mem_operandsOf_iff, operandsOf_of_binary h] at hchild
      simp only [List.mem_cons, List.not_mem_nil, or_false] at hchild
      rcases hchild with rfl | rfl
      · exact .inl hreach
      · exact .inr (.inl hreach)
  · rintro (hreach | hreach | rfl)
    · exact .head ⟨.left, .left h⟩ hreach
    · exact .head ⟨.right, .right h⟩ hreach
    · exact .refl

/-- From a leaf, nothing else is reached. -/
theorem reaches_iff_of_leaf (h : operandsOf nodes id = []) {i : Nat} :
    Reaches nodes id i ↔ i = id := by
  unfold Reaches
  constructor
  · intro hreach
    rcases hreach.cases_head with rfl | ⟨child, hchild, -⟩
    · rfl
    · rw [← mem_operandsOf_iff, h] at hchild
      cases hchild
  · rintro rfl
    exact .refl

namespace Holds

/-- What is listed is what can be reached. So the list leaves out nothing of the tree and has
nothing else in it. -/
theorem mem_numbersFrom_iff (h : Holds nodes id t) {i : Nat} :
    i ∈ numbersFrom nodes id ↔ Reaches nodes id i := by
  induction h with
  | var h | literal h =>
      rw [numbersFrom, h, List.mem_singleton, reaches_iff_of_leaf (by rw [operandsOf, h])]
  | binary h hl hr _ _ ihl ihr =>
    rw [numbersFrom_of_binary h hl hr, reaches_iff_of_binary h, List.mem_append,
      List.mem_append, ihl, ihr, List.mem_singleton, or_assoc]

/-- The nodes below a listed node are listed without gaps, so that each node is listed after all
that it is made of. -/
theorem infix_numbersFrom (h : Holds nodes id t) {i : Nat} (hi : i ∈ numbersFrom nodes id) :
    numbersFrom nodes i <:+: numbersFrom nodes id := by
  induction h with
  | var h | literal h =>
    rw [numbersFrom, h] at hi
    obtain rfl := List.mem_singleton.1 hi
    exact List.infix_refl _
  | @binary id l r op left right h hl hr _ _ ihl ihr =>
    rw [numbersFrom_of_binary h hl hr] at hi
    -- The node is below the left operand, below the right one, or the operator itself.
    rcases List.mem_append.1 hi with hi | hi
    · rw [numbersFrom_of_binary h hl hr]
      rcases List.mem_append.1 hi with hi | hi
      · exact (ihl hi).trans ⟨[], numbersFrom nodes r ++ [id], by simp⟩
      · exact (ihr hi).trans ⟨numbersFrom nodes l, [id], rfl⟩
    · obtain rfl := List.mem_singleton.1 hi
      exact List.infix_refl _

/-- Each listed node but the top is listed once as an operand. Counting the operands of all nodes
counts each node as often as it is listed. -/
theorem perm_numbersFrom (h : Holds nodes id t) :
    ((numbersFrom nodes id).flatMap (operandsOf nodes) ++ [id]).Perm (numbersFrom nodes id) := by
  induction h with
  | var h | literal h =>
    rw [numbersFrom, h]
    simp [operandsOf, h]
  | @binary id l r op left right h hl hr _ _ ihl ihr =>
    rw [numbersFrom_of_binary h hl hr]
    simp only [List.flatMap_append, List.flatMap_singleton, operandsOf_of_binary h]
    generalize (numbersFrom nodes l).flatMap (operandsOf nodes) = ls at ihl ⊢
    generalize (numbersFrom nodes r).flatMap (operandsOf nodes) = rs at ihr ⊢
    -- The top of each part is one of the two operands of the operator.
    have hparts : (ls ++ rs ++ [l, r]).Perm (ls ++ [l] ++ (rs ++ [r])) := by
      rw [List.append_assoc, List.append_assoc]
      exact List.perm_middle.append_left ls
    exact (hparts.trans (ihl.append ihr)).append_right [id]

/-- The trees of the nodes that are listed are the subtrees in post-order, and so are those that a
walk meets. -/
theorem map_treeFrom? (h : Holds nodes id t) :
    (numbersFrom nodes id).map (Arena.treeFrom? nodes) = t.subtrees.map some := by
  induction h with
  | var h | literal h => simp [numbersFrom, Arena.treeFrom?, h, Tree.subtrees]
  | binary h hl hr hleft hright ihl ihr =>
    have htree := (Holds.binary h hl hr hleft hright).treeFrom?
    rw [numbersFrom_of_binary h hl hr, Tree.subtrees]
    simp only [List.map_append, ihl, ihr, List.map_cons, List.map_nil, htree]

end Holds

end

/-! ### Paths down to a leaf -/

/-- A path from a node down to a leaf, by the numbers of its nodes. -/
inductive PathDown (nodes : Array Node) : (id : Nat) → List Nat → Prop where
  | leaf {id : Nat} (hid : id < nodes.size) (h : operandsOf nodes id = []) : PathDown nodes id [id]
  | step {id child : Nat} {side : Side} {path : List Nat} (h : IsOperand nodes id side child)
      (hpath : PathDown nodes child path) : PathDown nodes id (id :: path)

section

variable {nodes : Array Node} {id : Nat} {t : Tree}

/-- The depth that is found by recursion from the root is the depth of the tree. -/
theorem Holds.depthFrom (h : Holds nodes id t) : depthFrom nodes id = t.depth := by
  induction h with
  | var h => rw [Arena.depthFrom, h, Tree.depth]
  | literal h => rw [Arena.depthFrom, h, Tree.depth]
  | binary h hl hr _ _ ihl ihr => rw [depthFrom_of_binary h hl hr, ihl, ihr, Tree.depth]

/-- Some path is as long as the tree is deep: at each operator it goes on into the deeper
operand. -/
theorem Holds.exists_path (h : Holds nodes id t) :
    ∃ path, PathDown nodes id path ∧ path.length = t.depth := by
  induction h with
  | var h | literal h =>
    exact ⟨_, .leaf (Array.getElem?_eq_some_iff.1 h).1 (by rw [operandsOf, h]), rfl⟩
  | @binary id l r op left right h hl hr _ _ ihl ihr =>
    obtain ⟨pathl, hpathl, hlengthl⟩ := ihl
    obtain ⟨pathr, hpathr, hlengthr⟩ := ihr
    rcases Nat.le_total left.depth right.depth with hle | hle
    · exact ⟨_, .step (.right h) hpathr, by rw [List.length_cons, hlengthr, Tree.depth,
        Nat.max_eq_right hle]⟩
    · exact ⟨_, .step (.left h) hpathl, by rw [List.length_cons, hlengthl, Tree.depth,
        Nat.max_eq_left hle]⟩

/-- No path is longer than the tree is deep, so the depth is the length of the longest path. -/
theorem Holds.length_path_le (h : Holds nodes id t) {path : List Nat}
    (hpath : PathDown nodes id path) : path.length ≤ t.depth := by
  induction h generalizing path with
  | var h | literal h =>
    cases hpath with
    | leaf => exact Nat.le_refl 1
    | step hoperand =>
      -- The path goes on from one of the operands, which are the roots of the two parts.
      cases hoperand with
      | left h' | right h' =>
        rw [h] at h'
        cases h'
  | binary h hl hr _ _ ihl ihr =>
    cases hpath with
    | leaf _ hleaf =>
      rw [operandsOf_of_binary h] at hleaf
      cases hleaf
    | step hoperand hpath =>
      rw [List.length_cons, Tree.depth]
      cases hoperand with
      | left h' =>
        rw [h] at h'
        cases h'
        have := ihl hpath
        omega
      | right h' =>
        rw [h] at h'
        cases h'
        have := ihr hpath
        omega

end

end Arena

end UnitPlane
