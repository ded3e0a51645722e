import UnitPlane.Proofs.Formula.Arena.Sharing
import UnitPlane.Proofs.Formula.Arena.Walk
import Mathlib.Data.List.Range

/-!
# `UnitPlane.Proofs.Formula.Arena.OneTree`: the arena of a text is one tree

The nodes of an arena that a text gives are the row in which its tree lies, so the nodes below the
root are all of them, each once. Hence no node is the operand of two operators, nor of one operator
on both sides, and every walk goes through the tree and nothing else.

* `Laid.perm_numbersFrom`: the nodes below the root of a laid tree are those of its row.
* `Laid.oneTree`: each node but the last is the operand of one operator, on one side.
* `Tokens.holdsAlone_of_arena`: what the words of a text give is one tree, and the walks over it are
  recursions on it.
-/

set_option autoImplicit false

namespace UnitPlane

open Arena (Holds IsOperand numbersFrom numbersFrom_of_binary operandsOf mem_operandsOf_iff)

/-! ### Lists of numbers -/

/-- Where the parts have nothing in common, what is in two of them is in one and the same. -/
theorem eq_of_mem_flatMap {f : Nat → List Nat} {is : List Nat} (h : (is.flatMap f).Nodup)
    {i j k : Nat} (hi : i ∈ is) (hj : j ∈ is) (hki : k ∈ f i) (hkj : k ∈ f j) : i = j := by
  by_contra hne
  have : Std.Symm (Function.onFun List.Disjoint f) := ⟨fun _ _ hd _ hr hl => hd hl hr⟩
  exact (List.nodup_flatMap.1 h).2.forall hi hj hne hki hkj

/-- The numbers of two rows one after the other are those of the first and those of the second. -/
theorem range'_size_append (n : Nat) (us vs : Array Node) :
    List.range' n (us ++ vs).size = List.range' n us.size ++ List.range' (n + us.size) vs.size := by
  rw [Array.size_append, List.range'_append_1]

/-! ### The row of a tree -/

namespace Laid

variable {n i : Nat} {ns nodes : Array Node} {t : Tree}

/-- The root of a laid tree is the root of the tree in the arena. -/
theorem holds (h : Laid n ns t i) (hrow : RowAt nodes n ns) : Holds nodes i t :=
  Arena.holds_iff.2 (h.treeFrom? hrow)

/-- The nodes below the root of a laid tree are those of its row, each once. They are listed in
another order only where something is negated. -/
theorem perm_numbersFrom (h : Laid n ns t i) (hrow : RowAt nodes n ns) :
    (numbersFrom nodes i).Perm (List.range' n ns.size) := by
  -- The induction is on how the tree is laid, since this is what the numbers depend on.
  induction h with
  | var n v => simp [numbersFrom, hrow.single]
  | literal n value => simp [numbersFrom, hrow.single]
  | @binary n i j ls rs l r op hl hr ihl ihr =>
    obtain ⟨hleft, hright⟩ := hl.roots_lt hr
    have hparts := (ihl hrow.left.left).append (ihr hrow.left.right)
    rw [numbersFrom_of_binary hrow.right.single hleft hright, range'_size_append,
      range'_size_append]
    exact hparts.append_right _
  | @negated n i ns t h ih =>
    have hminus : numbersFrom nodes (n + ns.size) = [n + ns.size] := by
      simp [numbersFrom, hrow.left.right.single]
    rw [numbersFrom_of_binary hrow.right.single (by simp) (h.root_lt _), hminus,
      range'_size_append, range'_size_append]
    -- The minus one is listed before the operand and stands after it.
    exact (List.perm_append_comm.trans ((ih hrow.left.left).append_right _)).append_right _

end Laid

namespace Arena

/-- Each node of the arena has one place in it: operands come before their operators, every node but
the root is the operand of one operator, on one side, and the root is the last node. -/
structure OneTree (a : Arena) : Prop where
  operand_lt :
    ∀ {parent child : Nat} {side : Side}, IsOperand a.nodes parent side child → child < parent
  existsUnique_place : ∀ id < a.nodes.size, id ≠ a.root →
    ∃! place : Nat × Side, IsOperand a.nodes place.1 place.2 id
  root_succ : a.root + 1 = a.nodes.size

end Arena

/-- The arena in which a tree is laid is this tree alone: no node is left over, and none is used
twice. -/
theorem Laid.oneTree {a : Arena} {t : Tree} (h : Laid 0 a.nodes t a.root) : a.OneTree := by
  have hordered := h.orderedFrom
  have hall := h.perm_numbersFrom (.self a.nodes)
  have hplaces := (h.holds (.self a.nodes)).perm_numbersFrom
  have hmem {id : Nat} (hid : id < a.nodes.size) : id ∈ numbersFrom a.nodes a.root :=
    hall.mem_iff.2 (List.mem_range'_1.2 ⟨Nat.zero_le _, by rwa [Nat.zero_add]⟩)
  -- All nodes are listed once, so all but the root are listed once as operands.
  have hnodup : ((numbersFrom a.nodes a.root).flatMap (operandsOf a.nodes)).Nodup :=
    (hplaces.nodup_iff.2 (hall.nodup_iff.2 (List.nodup_range' 1))).of_append_left
  refine ⟨hordered.operand_lt, fun id hid hne => ?_, by rw [h.root_succ, Nat.zero_add]⟩
  have hoperand : id ∈ (numbersFrom a.nodes a.root).flatMap (operandsOf a.nodes) :=
    (List.mem_append.1 (hplaces.mem_iff.2 (hmem hid))).resolve_right fun hroot =>
      hne (List.mem_singleton.1 hroot)
  obtain ⟨parent, hparent, hchild⟩ := List.mem_flatMap.1 hoperand
  obtain ⟨side, hplace⟩ := mem_operandsOf_iff.1 hchild
  refine ⟨(parent, side), hplace, ?_⟩
  rintro ⟨parent', side'⟩ (hplace' : IsOperand a.nodes parent' side' id)
  have hparent' : parent' ∈ numbersFrom a.nodes a.root := hmem hplace'.lt_size
  obtain rfl : parent' = parent :=
    eq_of_mem_flatMap hnodup hparent' hparent (mem_operandsOf_iff.2 ⟨side', hplace'⟩) hchild
  rw [hplace'.side_unique ((List.nodup_flatMap.1 hnodup).1 parent' hparent') hplace]

namespace Arena

/-- The walks from a node of the arena go through the tree `t`, as recursions on it. They list the
nodes, deal with them one after the other, and look for variables. -/
structure WalkedAs (a : Arena) (id : Nat) (t : Tree) : Prop where
  tree : treeFrom? a.nodes id = some t
  /-- The list of the nodes ends. -/
  listed : a.postorderFrom? id = some (numbersFrom a.nodes id).toArray
  nodup : (numbersFrom a.nodes id).Nodup
  mem_iff : ∀ i, i ∈ numbersFrom a.nodes id ↔ Reaches a.nodes id i
  /-- An operator comes after its left part and its right part. -/
  operator : ∀ {op : Operator} {l r : Nat}, a.nodes[id]? = some (.binary op l r) →
    numbersFrom a.nodes id = numbersFrom a.nodes l ++ numbersFrom a.nodes r ++ [id]
  subtrees : (numbersFrom a.nodes id).map (treeFrom? a.nodes) = t.subtrees.map some
  /-- An operator always finds two operands on the stack. -/
  two_le_length :
    ∀ {α : Type} (w : Walk α) {before after : List Nat} {i : Nat} {below stack : List α},
    numbersFrom a.nodes id = before ++ i :: after →
      before.foldlM (w.stepAt a.nodes) below = .ok stack →
      operandsOf a.nodes i ≠ [] → 2 ≤ stack.length
  /-- In the end there is one more operand on the stack, unless the walk stops. -/
  stack : ∀ {α : Type} (w : Walk α) (below : List α),
    (numbersFrom a.nodes id).foldlM (w.stepAt a.nodes) below = w.fold t >>= fun operand =>
      .ok (operand :: below)
  hasVariable : a.containsVariable? id = some t.hasVariable

/-- The arena holds the tree and nothing else, and the walks over it are recursions on the tree. -/
structure HoldsAlone (a : Arena) (t : Tree) : Prop where
  oneTree : a.OneTree
  size_eq : a.nodes.size = t.size
  walkedAs : a.WalkedAs a.root t
  /-- All nodes are listed, each once. -/
  postorder : ∃ ids, a.postorder? = some ids ∧ ids.toList.Perm (List.range a.nodes.size)
  exists_walkedAs : ∀ id < a.nodes.size, ∃ below, a.WalkedAs id below
  depth : a.walkedDepth? = some t.depth
  exists_path : ∃ path, PathDown a.nodes a.root path ∧ path.length = t.depth
  length_path_le : ∀ {path : List Nat}, PathDown a.nodes a.root path → path.length ≤ t.depth
  run : ∀ {α : Type} (w : Walk α), w.runOver a = some (w.run t)

/-- From the root of a tree the walks go through the tree, if operands come before their operators
and no node below is listed twice. -/
theorem Holds.walkedAs {a : Arena} {id : Nat} {t : Tree} (h : Holds a.nodes id t)
    (hordered : OrderedFrom 0 a.nodes) (hnodup : (numbersFrom a.nodes id).Nodup) :
    a.WalkedAs id t where
  tree := h.treeFrom?
  listed := h.postorderFrom?
  nodup := hnodup
  mem_iff _ := h.mem_numbersFrom_iff
  operator hnode := by
    have hlt := hordered.operands_lt hnode
    rw [Nat.zero_add] at hlt
    exact numbersFrom_of_binary hnode hlt.1 hlt.2
  subtrees := h.map_treeFrom?
  two_le_length w _ _ _ _ _ hids hstack := w.two_le_length h hids hstack
  stack w := w.foldlM_stepAt h
  hasVariable := h.containsVariable?

end Arena

/-- The arena in which a tree is laid holds the tree and nothing else. The walks may start from any
of its nodes, because the nodes below a node are a part of those below the root. -/
theorem Laid.holdsAlone {a : Arena} {t : Tree} (h : Laid 0 a.nodes t a.root) : a.HoldsAlone t := by
  have hordered := h.orderedFrom
  have hroot := h.holds (.self a.nodes)
  have hall : (numbersFrom a.nodes a.root).Perm (List.range a.nodes.size) := by
    rw [List.range_eq_range']
    exact h.perm_numbersFrom (.self a.nodes)
  have hnodup : (numbersFrom a.nodes a.root).Nodup := hall.nodup_iff.2 List.nodup_range
  refine ⟨h.oneTree, h.size_eq, hroot.walkedAs hordered hnodup, ⟨_, hroot.postorderFrom?, hall⟩,
    fun id hid => ?_, hroot.walkedDepth?, hroot.exists_path, hroot.length_path_le, fun w =>
      w.runOver_eq_run hroot⟩
  -- The nodes below a node are a part of the list of all nodes.
  obtain ⟨below, hbelow⟩ := Arena.exists_holds hordered hid
  have hpart := hroot.infix_numbersFrom (hall.mem_iff.2 (List.mem_range.2 hid))
  exact ⟨below, hbelow.walkedAs hordered (hnodup.sublist hpart.sublist)⟩

namespace Arena

/-- The reader of whole expressions lays the trees that it returns. -/
theorem lays_expr (limits : Limits) : Lays (expr limits) :=
  HasTrees.lays fun _ => ⟨_, .expr limits⟩

/-- A tree is laid in the arena of a row of symbols, from its first node to its last. Reading starts
with no nodes, and the tree is put after these. -/
theorem exists_laid_of_ofSymbols {limits : Limits} {symbols : List Symbol} {a : Arena}
    (h : ofSymbols limits symbols = .ok a) : ∃ t, Laid 0 a.nodes t a.root := by
  rw [ofSymbols_eq] at h
  split at h
  · cases h
  · obtain ⟨⟨id, q⟩, hread, h⟩ := Except.bind_eq_ok.1 h
    obtain ⟨row, t, hrow, hlaid⟩ := lays_expr limits hread
    rw [Array.empty_append] at hrow
    split_ifs at h
    cases h
    exact ⟨t, hrow ▸ hlaid⟩

end Arena

/-- What the words of a text give is one tree: the one that is read from them. The walks over it are
recursions on this tree. While it is read, no node that an operator has is negated, so no number
that one has changes its sign: whatever would be done with such a node instead is never done. -/
theorem Tokens.holdsAlone_of_arena {limits : Limits} {ts : Tokens} {a : Arena}
    (h : ts.arena limits = .ok a) :
    (∃ t, ts.parse limits = .ok t ∧ a.HoldsAlone t) ∧
      ∀ other : Arena.Negation,
        Arena.exprBy (Arena.negateOr other limits) limits ⟨ts.words.map Token.symbol, #[]⟩ =
          Arena.expr limits ⟨ts.words.map Token.symbol, #[]⟩ := by
  refine ⟨?_, fun other => Arena.exprBy_negateOr other limits _⟩
  have hmatches := ts.matches_ofSymbols limits
  unfold Tokens.arena at h
  cases hsymbols : Arena.ofSymbols limits (ts.words.map Token.symbol) with
  | error halt =>
    rw [hsymbols] at h
    cases h
  | ok b =>
    rw [hsymbols] at h hmatches
    cases h
    obtain ⟨t', hlaid⟩ := Arena.exists_laid_of_ofSymbols hsymbols
    generalize ts.parse limits = outcome at hmatches
    cases hmatches with
    | @ok t _ htree =>
      -- The tree that is laid is the one that is read off.
      have hread : some t' = some t := (hlaid.treeFrom? (.self a.nodes)).symm.trans htree.1
      cases hread
      exact ⟨t', rfl, hlaid.holdsAlone⟩

/-- In `-(x*-2)`, the number changes its sign in place, and the product is multiplied by a minus one
that stands after it. -/
theorem Tokens.holdsAlone_of_arena_negated :
    ∃ (ts : Tokens) (t : Tree), tokenize "-(x*-2)" = .ok ts ∧
      ts.arena {} =
        .ok ⟨#[.var .x, .literal (-2), .binary .mul 0 1, .literal (-1), .binary .mul 3 2], 4⟩ ∧
      ts.parse {} = .ok t ∧
      Arena.HoldsAlone
        ⟨#[.var .x, .literal (-2), .binary .mul 0 1, .literal (-1), .binary .mul 3 2], 4⟩ t := by
  have hts : tokenize "-(x*-2)" = .ok
      ⟨[⟨.minus, 0, 1⟩, ⟨.openBracket, 1, 2⟩, ⟨.name "x", 2, 3⟩, ⟨.star, 3, 4⟩, ⟨.minus, 4, 5⟩,
        ⟨.number 2, 5, 6⟩, ⟨.closeBracket, 6, 7⟩], 7⟩ := by
    decide +kernel
  -- The negation of the product has a node for the minus one and one for the new product.
  have harena : Tokens.arena {}
      ⟨[⟨.minus, 0, 1⟩, ⟨.openBracket, 1, 2⟩, ⟨.name "x", 2, 3⟩, ⟨.star, 3, 4⟩, ⟨.minus, 4, 5⟩,
        ⟨.number 2, 5, 6⟩, ⟨.closeBracket, 6, 7⟩], 7⟩ =
        .ok ⟨#[.var .x, .literal (-2), .binary .mul 0 1, .literal (-1), .binary .mul 3 2], 4⟩ := by
    decide +kernel
  obtain ⟨t, hparse, hholds⟩ := (Tokens.holdsAlone_of_arena harena).1
  exact ⟨_, t, hts, harena, hparse, hholds⟩

end UnitPlane
