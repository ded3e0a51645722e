import UnitPlane.Formula.Arena

/-!
# `UnitPlane.Proofs.Formula.Arena.Layout`: how a tree lies in an arena

A tree takes up a row of nodes without gaps: the nodes of its left operand, those of its right
operand, and its own node, which is the last one. Only the minus one of a negation stands after the
operand that it multiplies. `Laid` says this of a row whose first node has a given number, and from
such a row the tree and its depth can be read off again.
-/

set_option autoImplicit false

namespace UnitPlane

/-! ### Rows of nodes -/

/-- The row stands in the arena, from the number `first` on. What else is in the arena does not
matter. -/
def RowAt (nodes : Array Node) (first : Nat) (row : Array Node) : Prop :=
  ∀ k < row.size, nodes[first + k]? = row[k]?

namespace RowAt

variable {nodes us vs : Array Node} {n : Nat}

/-- The nodes of an arena are a row that stands in it from the start. -/
theorem self (nodes : Array Node) : RowAt nodes 0 nodes := by
  intro k _
  rw [Nat.zero_add]

/-- What is put after other nodes stands in the arena from their number on. -/
theorem append_right (us vs : Array Node) : RowAt (us ++ vs) us.size vs := by
  intro k _
  rw [Array.getElem?_append_right (Nat.le_add_right _ _), Nat.add_sub_cancel_left]

/-- Of two rows one after the other, the first stands where both stand. -/
theorem left (h : RowAt nodes n (us ++ vs)) : RowAt nodes n us := by
  intro k hk
  rw [h k (by rw [Array.size_append]; omega), Array.getElem?_append_left hk]

/-- Of two rows one after the other, the second stands after the nodes of the first. -/
theorem right (h : RowAt nodes n (us ++ vs)) : RowAt nodes (n + us.size) vs := by
  intro k hk
  rw [Nat.add_assoc, h (us.size + k) (by rw [Array.size_append]; omega),
    Array.getElem?_append_right (Nat.le_add_right _ _), Nat.add_sub_cancel_left]

/-- A row of one node gives the node at its place. -/
theorem single {node : Node} (h : RowAt nodes n #[node]) : nodes[n]? = some node := h 0 Nat.one_pos

end RowAt

/-! ### Trees in rows -/

/-- The nodes, numbered from `first` on, are those of the tree, and its root has the last number
given. -/
inductive Laid : (first : Nat) → Array Node → Tree → (root : Nat) → Prop where
  | var (n : Nat) (v : Variable) : Laid n #[.var v] (.var v) n
  | literal (n : Nat) (value : Float) : Laid n #[.literal value] (.literal value) n
  | binary {n i j : Nat} {ls rs : Array Node} {l r : Tree} (op : Operator) (hl : Laid n ls l i)
      (hr : Laid (n + ls.size) rs r j) :
      Laid n (ls ++ rs ++ #[.binary op i j]) (.binary op l r) (n + (ls ++ rs).size)
  /-- The minus one comes after the operand that it multiplies. -/
  | negated {n i : Nat} {ns : Array Node} {t : Tree} (h : Laid n ns t i) :
      Laid n (ns ++ #[.literal (-1)] ++ #[.binary .mul (n + ns.size) i])
        (.binary .mul (.literal (-1)) t) (n + (ns ++ #[Node.literal (-1)]).size)

namespace Laid

variable {n i : Nat} {ns nodes : Array Node} {t : Tree}

/-- There is one node in the row for each node of the tree. So the limit on the nodes of an arena is
one on the nodes of its tree. -/
theorem size_eq (h : Laid n ns t i) : ns.size = t.size := by
  induction h with
  | var | literal => rfl
  | binary op _ _ ihl ihr =>
    simp only [Array.size_append, ihl, ihr, Tree.size, List.size_toArray, List.length_singleton]
  | negated _ ih =>
    simp only [Array.size_append, ih, Tree.size, List.size_toArray, List.length_singleton]
    omega

/-- The root is the last node of the row, whichever way the tree is laid. -/
theorem root_succ (h : Laid n ns t i) : i + 1 = n + ns.size := by
  cases h with
  | var | literal => rfl
  | binary | negated =>
      simp only [Array.size_append, List.size_toArray, List.length_singleton, Nat.add_assoc]

/-- The operands of an operator have smaller numbers, because its own node comes after both of their
rows. -/
theorem roots_lt {ls rs : Array Node} {l r : Tree} {j : Nat} (hl : Laid n ls l i)
    (hr : Laid (n + ls.size) rs r j) :
    i < n + (ls ++ rs).size ∧ j < n + (ls ++ rs).size := by
  have hleft := hl.root_succ
  have hright := hr.root_succ
  rw [Array.size_append]
  omega

/-- The operand of a negation has a smaller number. -/
theorem root_lt (h : Laid n ns t i) (node : Node) : i < n + (ns ++ #[node]).size := by
  have hroot := h.root_succ
  rw [Array.size_append]
  omega

/-- The row of a number is its node, and this is the root. -/
theorem eq_of_literal {value : Float} (h : Laid n ns (.literal value) i) :
    ns = #[.literal value] ∧ i = n := by
  cases h
  exact ⟨rfl, rfl⟩

/-- The node of the root is a number only if the tree is one. So looking at the node of an operand
tells whether it is a number. -/
theorem getElem?_root_ne (h : Laid n ns t i) (hrow : RowAt nodes n ns)
    (ht : ∀ value, t ≠ .literal value) (value : Float) : nodes[i]? ≠ some (.literal value) := by
  cases h with
  | var v =>
    rw [hrow.single]
    exact nofun
  | literal => exact absurd rfl (ht _)
  | binary | negated =>
    rw [hrow.right.single]
    exact nofun

end Laid

namespace Arena

variable {nodes : Array Node} {i l r : Nat}

/-- The tree of an operator is read off from the trees of its operands. -/
theorem treeFrom?_of_binary {op : Operator} (h : nodes[i]? = some (.binary op l r)) (hl : l < i)
    (hr : r < i) :
    treeFrom? nodes i =
      (treeFrom? nodes l).bind fun t => (treeFrom? nodes r).map (.binary op t) := by
  rw [treeFrom?, h]
  exact if_pos ⟨hl, hr⟩

/-- An operator is one deeper than the deeper of its operands. -/
theorem depthFrom_of_binary {op : Operator} (h : nodes[i]? = some (.binary op l r)) (hl : l < i)
    (hr : r < i) :
    depthFrom nodes i = max (depthFrom nodes l) (depthFrom nodes r) + 1 := by
  rw [depthFrom, h]
  exact if_pos ⟨hl, hr⟩

end Arena

namespace Laid

variable {n i : Nat} {ns nodes : Array Node} {t : Tree}

/-- The tree can be read off its row, in every arena in which the row stands. The order in which the
minus one of a negation is laid makes no difference to this. -/
theorem treeFrom? (h : Laid n ns t i) (hrow : RowAt nodes n ns) :
    Arena.treeFrom? nodes i = some t := by
  induction h with
  | var n v => rw [Arena.treeFrom?, hrow.single]
  | literal n value => rw [Arena.treeFrom?, hrow.single]
  | @binary n i j ls rs l r op hl hr ihl ihr =>
    obtain ⟨hleft, hright⟩ := hl.roots_lt hr
    rw [Arena.treeFrom?_of_binary hrow.right.single hleft hright, ihl hrow.left.left,
      ihr hrow.left.right]
    rfl
  | @negated n i ns t h ih =>
    -- The minus one is the node right after the row of the operand.
    have hminus : Arena.treeFrom? nodes (n + ns.size) = some (.literal (-1)) := by
      rw [Arena.treeFrom?, hrow.left.right.single]
    rw [Arena.treeFrom?_of_binary hrow.right.single (by simp) (h.root_lt _), hminus,
      ih hrow.left.left]
    rfl

/-- The depth of the tree can be read off its row. The minus one of a negation is less deep than the
negation, like any other operand. -/
theorem depthFrom (h : Laid n ns t i) (hrow : RowAt nodes n ns) :
    Arena.depthFrom nodes i = t.depth := by
  induction h with
  | var n v => rw [Arena.depthFrom, hrow.single, Tree.depth]
  | literal n value => rw [Arena.depthFrom, hrow.single, Tree.depth]
  | @binary n i j ls rs l r op hl hr ihl ihr =>
    obtain ⟨hleft, hright⟩ := hl.roots_lt hr
    rw [Arena.depthFrom_of_binary hrow.right.single hleft hright, ihl hrow.left.left,
      ihr hrow.left.right, Tree.depth]
  | @negated n i ns t h ih =>
    have hminus : Arena.depthFrom nodes (n + ns.size) = 1 := by
      rw [Arena.depthFrom, hrow.left.right.single]
    rw [Arena.depthFrom_of_binary hrow.right.single (by simp) (h.root_lt _), hminus,
      ih hrow.left.left, Tree.depth, Tree.depth]

end Laid

end UnitPlane
