import TensorBindings.Expr.Printer
import TensorBindings.Proofs.Expr.Soundness
import TensorBindings.Proofs.Expr.Structure

/-!
Contract: how Nim groups the operators of a printed tree.

Owns:
- the levels of binary operators in Nim, where the six comparisons share one level;
- the chain of operands and operators at the top of a tree, which is what the text of the tree
  shows of them, and the tree that comes of a chain when its operators group by level and to the
  left;
- when that is the tree again, and how this falls out for trees that were read.

The printer adds no parentheses for binary operators. In formulas an equality binds looser than
the other comparisons, in Nim it does not: with such a comparison on the right of an equality
the text groups differently from the tree.

Does not own: the text itself (`Expr.Printer`), the levels of formulas (`Expr.Basic`).
-/

set_option autoImplicit false

namespace TensorBindings

namespace BinaryOp

/-- Binding strength in Nim: a higher level binds tighter, and operators of one level associate
to the left. Operators that no formula has are at level zero. -/
def nimLevel : BinaryOp → Nat
  | custom _ => 0
  | or => 1
  | and => 2
  | eq | ne | lt | le | gt | ge => 3
  | add | sub => 4
  | mul | div | mod => 5

def isEquality : BinaryOp → Bool
  | eq | ne => true
  | _ => false

def isOrdering : BinaryOp → Bool
  | lt | le | gt | ge => true
  | _ => false

/-- The two orders of levels differ at the comparisons only. -/
theorem nimLevel_eq (op : BinaryOp) :
    op.nimLevel = if op.level ≤ 3 then op.level else op.level - 1 := by
  cases op <;> rfl

private theorem isEquality_iff (op : BinaryOp) : op.isEquality = true ↔ op.level = 3 := by
  cases op <;> simp [isEquality, level]

private theorem isOrdering_iff (op : BinaryOp) : op.isOrdering = true ↔ op.level = 4 := by
  cases op <;> simp [isOrdering, level]

private theorem nimLevel_mono {op inner : BinaryOp} (atMost : op.level ≤ inner.level) :
    op.nimLevel ≤ inner.nimLevel := by
  rw [nimLevel_eq, nimLevel_eq]
  split_ifs <;> omega

/-- An operator that binds tighter in formulas binds tighter in Nim too, unless the two are an
equality and an ordering. -/
theorem nimLevel_lt_iff {op inner : BinaryOp} (tighter : op.level < inner.level) :
    op.nimLevel < inner.nimLevel ↔ ¬ (op.isEquality = true ∧ inner.isOrdering = true) := by
  rw [nimLevel_eq, nimLevel_eq, isEquality_iff, isOrdering_iff]
  split_ifs <;> omega

end BinaryOp

namespace Expr

/-! ### Chains -/

def topOperator? : Expr → Option BinaryOp
  | .binary op _ _ => some op
  | _ => none

/-- The first operand of the binary operators at the top of a tree, and each of these operators
with the operand after it. -/
def chain : Expr → Expr × List (BinaryOp × Expr)
  | .binary op left right =>
      (left.chain.1, left.chain.2 ++ (op, right.chain.1) :: right.chain.2)
  | tree => (tree, [])

section Grouping

variable (rank : BinaryOp → Nat)

/-- Close the operators of at least this level that wait for `value`. -/
def close (level : Nat) : List (Expr × BinaryOp) → Expr → List (Expr × BinaryOp) × Expr
  | (left, op) :: below, value =>
      if level ≤ rank op then close level below (.binary op left value)
      else ((left, op) :: below, value)
  | [], value => ([], value)

/-- Group a chain by the levels of its operators, those of one level to the left. -/
def group : List (Expr × BinaryOp) → Expr → List (BinaryOp × Expr) → Expr
  | stack, value, [] => (close rank 0 stack value).2
  | stack, value, (op, operand) :: rest =>
      group (((close rank (rank op) stack value).2, op) :: (close rank (rank op) stack value).1)
        operand rest

/-- The operators at the top of the tree are where their levels put them. -/
def Grouped : Expr → Prop
  | .binary op left right =>
      Grouped left ∧ Grouped right ∧
        (∀ inner ∈ left.topOperator?, rank op ≤ rank inner) ∧
        (∀ inner ∈ right.topOperator?, rank op < rank inner)
  | _ => True

end Grouping

/-- The tree that Nim makes of the operands and operators of a printed tree. -/
def nimReading (tree : Expr) : Expr := group BinaryOp.nimLevel [] tree.chain.1 tree.chain.2

section Reading

variable {rank : BinaryOp → Nat}

/-- The chain of a grouped tree groups to the tree, if what is around it leaves its operators
alone: those on the stack bind looser, and the next one does not bind tighter. -/
theorem group_chain {tree : Expr} (grouped : Grouped rank tree) (stack : List (Expr × BinaryOp))
    (rest : List (BinaryOp × Expr))
    (looser : ∀ inner ∈ tree.topOperator?, ∀ frame ∈ stack.head?, rank frame.2 < rank inner)
    (closes : ∀ inner ∈ tree.topOperator?, ∀ next ∈ rest.head?, rank next.1 ≤ rank inner) :
    group rank stack tree.chain.1 (tree.chain.2 ++ rest) = group rank stack tree rest := by
  fun_induction chain tree generalizing stack rest with
  | case2 tree notBinary => rfl
  | case1 op left right ofLeft ofRight =>
      obtain ⟨groupedLeft, groupedRight, leftTight, rightTight⟩ := grouped
      have looserOp : ∀ frame ∈ stack.head?, rank frame.2 < rank op := looser op rfl
      have closesOp : ∀ next ∈ rest.head?, rank next.1 ≤ rank op := closes op rfl
      -- The operators on the stack stay open until this one is closed.
      have stays : close rank (rank op) stack left = (stack, left) := by
        cases stack with
        | nil => rfl
        | cons frame below => exact if_neg (Nat.not_le.mpr (looserOp frame rfl))
      calc group rank stack left.chain.1
            ((left.chain.2 ++ (op, right.chain.1) :: right.chain.2) ++ rest)
          = group rank stack left ((op, right.chain.1) :: (right.chain.2 ++ rest)) := by
            rw [List.append_assoc, List.cons_append]
            refine ofLeft groupedLeft stack _ ?_ ?_
            · intro inner isTop frame isHead
              exact Nat.lt_of_lt_of_le (looserOp frame isHead) (leftTight inner isTop)
            · intro inner isTop next isHead
              cases isHead
              exact leftTight inner isTop
        _ = group rank ((left, op) :: stack) right.chain.1 (right.chain.2 ++ rest) := by
            rw [group, stays]
        _ = group rank ((left, op) :: stack) right rest := by
            refine ofRight groupedRight _ rest ?_ ?_
            · intro inner isTop frame isHead
              cases isHead
              exact rightTight inner isTop
            · intro inner isTop next isHead
              have atMost := closesOp next isHead
              exact Nat.le_of_lt (Nat.lt_of_le_of_lt atMost (rightTight inner isTop))
        _ = group rank stack (.binary op left right) rest := by
            cases rest with
            | nil => rw [group, group, close, if_pos (Nat.zero_le _)]
            | cons next others => rw [group, group, close, if_pos (closesOp next rfl)]

/-- The operators that wait on the stack are grouped, and each binds tighter than the one below
it. -/
def StackGrouped (rank : BinaryOp → Nat) : List (Expr × BinaryOp) → Prop
  | [] => True
  | (left, op) :: below =>
      Grouped rank left ∧ (∀ inner ∈ left.topOperator?, rank op ≤ rank inner) ∧
        (∀ frame ∈ below.head?, rank frame.2 < rank op) ∧ StackGrouped rank below

/-- What closing leaves is grouped, and the next operator can be put above it. -/
theorem StackGrouped.close (level : Nat) {stack : List (Expr × BinaryOp)} {value : Expr}
    (ofStack : StackGrouped rank stack) (grouped : Grouped rank value)
    (looser : ∀ inner ∈ value.topOperator?, ∀ frame ∈ stack.head?, rank frame.2 < rank inner)
    (atLeast : ∀ inner ∈ value.topOperator?, level ≤ rank inner) :
    StackGrouped rank (close rank level stack value).1 ∧
      (∀ frame ∈ (Expr.close rank level stack value).1.head?, rank frame.2 < level) ∧
      Grouped rank (Expr.close rank level stack value).2 ∧
      ∀ inner ∈ (Expr.close rank level stack value).2.topOperator?, level ≤ rank inner := by
  induction stack generalizing value with
  | nil => exact ⟨trivial, by simp [Expr.close], grouped, atLeast⟩
  | cons frame below inductionHypothesis =>
      obtain ⟨left, op⟩ := frame
      obtain ⟨groupedLeft, leftTight, looserOp, ofBelow⟩ := ofStack
      by_cases closes : level ≤ rank op
      · rw [Expr.close, if_pos closes]
        have rightTight : ∀ inner ∈ value.topOperator?, rank op < rank inner :=
          fun inner isTop => looser inner isTop (left, op) rfl
        have groupedBinary : Grouped rank (.binary op left value) :=
          ⟨groupedLeft, grouped, leftTight, rightTight⟩
        apply inductionHypothesis ofBelow groupedBinary
        · intro inner isTop
          cases isTop
          exact looserOp
        · intro inner isTop
          cases isTop
          exact closes
      · rw [Expr.close, if_neg closes]
        refine ⟨⟨groupedLeft, leftTight, looserOp, ofBelow⟩, ?_, grouped, atLeast⟩
        intro frame isHead
        cases isHead
        exact Nat.lt_of_not_le closes

/-- Whatever is grouped from single operands is grouped. -/
theorem grouped_group {stack : List (Expr × BinaryOp)} {value : Expr}
    {rest : List (BinaryOp × Expr)} (ofStack : StackGrouped rank stack)
    (single : value.topOperator? = none) (singles : ∀ item ∈ rest, item.2.topOperator? = none) :
    Grouped rank (group rank stack value rest) := by
  have groupedSingle {value : Expr} (single : value.topOperator? = none) : Grouped rank value := by
    cases value with
    | binary op left right => cases single
    | _ => trivial
  have closed (level : Nat) {stack : List (Expr × BinaryOp)} {value : Expr}
      (ofStack : StackGrouped rank stack) (single : value.topOperator? = none) :=
    ofStack.close level (groupedSingle single) (by simp [single]) (by simp [single])
  induction rest generalizing stack value with
  | nil => exact (closed 0 ofStack single).2.2.1
  | cons item rest inductionHypothesis =>
      obtain ⟨op, operand⟩ := item
      obtain ⟨singleOperand, singles⟩ := List.forall_mem_cons.mp singles
      obtain ⟨ofBelow, looser, grouped, tight⟩ := closed (rank op) ofStack single
      rw [group]
      exact inductionHypothesis ⟨grouped, tight, looser, ofBelow⟩ singleOperand singles

private theorem topOperator?_chain (tree : Expr) :
    tree.chain.1.topOperator? = none ∧ ∀ item ∈ tree.chain.2, item.2.topOperator? = none := by
  fun_induction chain tree with
  | case1 op left right ofLeft ofRight =>
      refine ⟨ofLeft.1, List.forall_mem_append.mpr ⟨ofLeft.2, ?_⟩⟩
      exact List.forall_mem_cons.mpr ofRight
  | case2 tree notBinary =>
      refine ⟨?_, List.forall_mem_nil _⟩
      cases tree with
      | binary op left right => exact absurd rfl (notBinary op left right)
      | _ => rfl

/-- A tree is what its chain groups to exactly if its operators are where their levels put
them. -/
theorem group_chain_eq_self_iff {tree : Expr} :
    group rank [] tree.chain.1 tree.chain.2 = tree ↔ Grouped rank tree := by
  constructor
  · intro same
    obtain ⟨single, singles⟩ := topOperator?_chain tree
    have atStart : StackGrouped rank [] := trivial
    rw [← same]
    exact grouped_group atStart single singles
  · intro grouped
    have atTop := group_chain grouped [] [] (by simp) (by simp)
    rw [List.append_nil] at atTop
    rw [atTop]
    rfl

/-- The text in front of the value that the operators of the stack wait for. -/
def waitingText : List (Expr × BinaryOp) → String
  | [] => ""
  | (left, op) :: below => waitingText below ++ left.nimText ++ " " ++ op.nimText ++ " "

def restText : List (BinaryOp × Expr) → String
  | [] => ""
  | (op, operand) :: rest => " " ++ op.nimText ++ " " ++ operand.nimText ++ restText rest

private theorem nimText_close (level : Nat) (stack : List (Expr × BinaryOp)) (value : Expr) :
    waitingText (close rank level stack value).1 ++ (close rank level stack value).2.nimText =
      waitingText stack ++ value.nimText := by
  induction stack generalizing value with
  | nil => rfl
  | cons frame below inductionHypothesis =>
      obtain ⟨left, op⟩ := frame
      by_cases closes : level ≤ rank op
      · rw [close, if_pos closes, inductionHypothesis]
        simp only [nimText, waitingText, String.append_assoc]
      · rw [close, if_neg closes]

private theorem close_zero (stack : List (Expr × BinaryOp)) (value : Expr) :
    (close rank 0 stack value).1 = [] := by
  induction stack generalizing value with
  | nil => rfl
  | cons frame below inductionHypothesis =>
      rw [close, if_pos (Nat.zero_le _), inductionHypothesis]

/-- Grouping moves no text. -/
theorem nimText_group (stack : List (Expr × BinaryOp)) (value : Expr)
    (rest : List (BinaryOp × Expr)) :
    (group rank stack value rest).nimText =
      waitingText stack ++ value.nimText ++ restText rest := by
  induction rest generalizing stack value with
  | nil =>
      have closed : waitingText (close rank 0 stack value).1 ++
          (close rank 0 stack value).2.nimText = waitingText stack ++ value.nimText :=
        nimText_close 0 stack value
      rw [close_zero, waitingText, String.empty_append] at closed
      rw [group, closed, restText, String.append_empty]
  | cons item rest inductionHypothesis =>
      obtain ⟨op, operand⟩ := item
      rw [group, inductionHypothesis, waitingText, nimText_close]
      simp only [restText, String.append_assoc]

private theorem restText_append (first second : List (BinaryOp × Expr)) :
    restText (first ++ second) = restText first ++ restText second := by
  induction first with
  | nil => rw [List.nil_append, restText, String.empty_append]
  | cons item rest inductionHypothesis =>
      rw [List.cons_append, restText, restText, inductionHypothesis]
      simp only [String.append_assoc]

/-- The chain of a tree is what its text shows of the operators at its top. -/
theorem nimText_chain (tree : Expr) :
    tree.chain.1.nimText ++ restText tree.chain.2 = tree.nimText := by
  fun_induction chain tree with
  | case1 op left right ofLeft ofRight =>
      rw [restText_append, restText, nimText, ← ofLeft, ← ofRight]
      simp only [String.append_assoc]
  | case2 tree notBinary => rw [restText, String.append_empty]

private theorem nimText_nimReading (tree : Expr) : tree.nimReading.nimText = tree.nimText := by
  rw [nimReading, nimText_group, waitingText, String.empty_append, nimText_chain]

end Reading

/-! ### Trees of the grammar -/

/-- Every tree below a tree of the grammar is one itself. -/
theorem Derives.exists_of_mem_nodes {category : Category} {tree : Expr}
    (derives : Derives category tree) :
    ∀ node ∈ tree.nodes, ∃ ofNode : Category, Derives ofNode node := by
  have ofAll {items : List Expr}
      (ofItems : ∀ item ∈ items, ∀ node ∈ item.nodes, ∃ ofNode : Category, Derives ofNode node) :
      ∀ node ∈ nodesOfAll items, ∃ ofNode : Category, Derives ofNode node := by
    intro node member
    rw [nodesOfAll_eq_flatMap, List.mem_flatMap] at member
    obtain ⟨item, itemMember, ofItem⟩ := member
    exact ofItems item itemMember node ofItem
  induction derives with
  | tighter isNext inner inductionHypothesis => exact inductionHypothesis
  | ternary ofCondition ofThen ofElse nodesCondition nodesThen nodesElse =>
      simp only [nodes, List.forall_mem_cons, List.forall_mem_append]
      exact ⟨⟨_, .ternary ofCondition ofThen ofElse⟩, ⟨nodesCondition, nodesThen⟩, nodesElse⟩
  | binary isOperator isNext ofLeft ofRight nodesLeft nodesRight =>
      simp only [nodes, List.forall_mem_cons, List.forall_mem_append]
      exact ⟨⟨_, .binary isOperator isNext ofLeft ofRight⟩, nodesLeft, nodesRight⟩
  | unary isOperator ofOperand nodesOperand =>
      exact List.forall_mem_cons.mpr ⟨⟨_, .unary isOperator ofOperand⟩, nodesOperand⟩
  | member ofValue isName nodesValue =>
      exact List.forall_mem_cons.mpr ⟨⟨_, .member ofValue isName⟩, nodesValue⟩
  | call ofCallee ofArguments nodesCallee nodesArguments =>
      simp only [nodes, List.forall_mem_cons, List.forall_mem_append]
      exact ⟨⟨_, .call ofCallee ofArguments⟩, nodesCallee, ofAll nodesArguments⟩
  | index ofValue ofPosition nodesValue nodesPosition =>
      simp only [nodes, List.forall_mem_cons, List.forall_mem_append]
      exact ⟨⟨_, .index ofValue ofPosition⟩, nodesValue, nodesPosition⟩
  | name areNames isName =>
      exact List.forall_mem_singleton.mpr ⟨_, .name areNames isName⟩
  | number isNumber => exact List.forall_mem_singleton.mpr ⟨_, .number isNumber⟩
  | string isQuoted => exact List.forall_mem_singleton.mpr ⟨_, .string isQuoted⟩
  | paren ofInner nodesInner =>
      exact List.forall_mem_cons.mpr ⟨⟨_, .paren ofInner⟩, nodesInner⟩
  | list ofItems nodesItems =>
      exact List.forall_mem_cons.mpr ⟨⟨_, .list ofItems⟩, ofAll nodesItems⟩

/-- A tree with an operator at its top is of no tighter category than the operator. -/
theorem Derives.level_le_of_topOperator? {category : Category} {tree : Expr}
    (derives : Derives category tree) :
    ∀ op ∈ tree.topOperator?, category.level ≤ op.level := by
  induction derives with
  | tighter isNext inner inductionHypothesis =>
      intro op isTop
      have nextLevel := Category.level_of_tighter isNext
      have atMost := inductionHypothesis op isTop
      omega
  | binary isOperator isNext ofLeft ofRight =>
      intro op isTop
      cases isTop
      exact Nat.le_of_eq (Category.level_of_mem_operators isOperator).1.symm
  | ternary | unary | member | call | index | name | number | string | paren | list =>
      intro op isTop
      cases isTop

private theorem Derives.operand_levels {category : Category} {op : BinaryOp} {left right : Expr}
    (derives : Derives category (.binary op left right)) :
    (∀ inner ∈ left.topOperator?, op.level ≤ inner.level) ∧
      ∀ inner ∈ right.topOperator?, op.level < inner.level := by
  generalize same : Expr.binary op left right = tree at derives
  induction derives with
  | tighter isNext inner inductionHypothesis => exact inductionHypothesis same
  | binary isOperator isNext ofLeft ofRight =>
      cases same
      have sameLevel := (Category.level_of_mem_operators isOperator).1
      have nextLevel := Category.level_of_tighter isNext
      constructor
      · intro inner isTop
        have atMost := ofLeft.level_le_of_topOperator? inner isTop
        omega
      · intro inner isTop
        have atMost := ofRight.level_le_of_topOperator? inner isTop
        omega
  | ternary | unary | member | call | index | name | number | string | paren | list => cases same

private theorem Derives.unary_operand {category : Category} {op : UnaryOp} {operand : Expr}
    (derives : Derives category (.unary op operand)) : operand.topOperator? = none := by
  generalize same : Expr.unary op operand = tree at derives
  induction derives with
  | tighter isNext inner inductionHypothesis => exact inductionHypothesis same
  | unary isOperator ofOperand =>
      cases same
      cases isTop : operand.topOperator? with
      | none => rfl
      | some inner =>
          have atMost := ofOperand.level_le_of_topOperator? inner isTop
          have highest : inner.level ≤ 6 := by cases inner <;> simp [BinaryOp.level]
          exact absurd atMost (by simp only [Category.level]; omega)
  | ternary | binary | member | call | index | name | number | string | paren | list => cases same

/-- An equality with an ordering for its right operand: the one place where formulas and Nim
group differently. -/
def ComparesOrdering : Expr → Prop
  | .binary op _ right =>
      op.isEquality = true ∧ ∃ inner ∈ right.topOperator?, inner.isOrdering = true
  | _ => False

private theorem grouped_of_no_ordering {tree : Expr}
    (derives : ∀ node ∈ tree.nodes, ∃ category : Category, Derives category node)
    (noOrdering : ∀ node ∈ tree.nodes, ¬ node.ComparesOrdering) :
    Grouped BinaryOp.nimLevel tree := by
  fun_induction chain tree with
  | case2 tree notBinary =>
      cases tree with
      | binary op left right => exact absurd rfl (notBinary op left right)
      | _ => trivial
  | case1 op left right groupedLeft groupedRight =>
      simp only [nodes, List.forall_mem_cons, List.forall_mem_append] at derives noOrdering
      obtain ⟨⟨category, ofTree⟩, ofLeft, ofRight⟩ := derives
      obtain ⟨notHere, notLeft, notRight⟩ := noOrdering
      obtain ⟨leftTight, rightTight⟩ := ofTree.operand_levels
      refine ⟨groupedLeft ofLeft notLeft, groupedRight ofRight notRight, ?_, ?_⟩
      · exact fun inner isTop => BinaryOp.nimLevel_mono (leftTight inner isTop)
      · intro inner isTop
        rw [BinaryOp.nimLevel_lt_iff (rightTight inner isTop)]
        rintro ⟨isEquality, isOrdering⟩
        exact notHere ⟨isEquality, inner, isTop, isOrdering⟩

/-- In a tree that was read, the left operand of an operator never binds looser in Nim than the
operator, the operand of a prefix operator has no binary operator at its top, and the right
operand binds tighter unless it is an ordering that an equality compares. What Nim reads has the
same text throughout, and it is the tree exactly if there is no such comparison. -/
theorem nim_regroups_compared_orderings {text : String} {tree : Expr}
    (reads : parse text = .ok tree) :
    (∀ op left right, Expr.binary op left right ∈ tree.nodes →
      (∀ inner ∈ left.topOperator?, op.nimLevel ≤ inner.nimLevel) ∧
      ∀ inner ∈ right.topOperator?, op.nimLevel < inner.nimLevel ↔
        ¬ (op.isEquality = true ∧ inner.isOrdering = true)) ∧
    (∀ op operand, Expr.unary op operand ∈ tree.nodes → operand.topOperator? = none) ∧
    (∀ node ∈ tree.nodes, node.nimReading.nimText = node.nimText) ∧
    ((∀ node ∈ tree.nodes, node.nimReading = node) ↔
      ∀ node ∈ tree.nodes, ¬ node.ComparesOrdering) := by
  have derives := (derives_of_parse reads).1.exists_of_mem_nodes
  refine ⟨?_, ?_, fun node _ => nimText_nimReading node, ?_, ?_⟩
  · intro op left right member
    obtain ⟨category, ofNode⟩ := derives _ member
    obtain ⟨leftTight, rightTight⟩ := ofNode.operand_levels
    exact ⟨fun inner isTop => BinaryOp.nimLevel_mono (leftTight inner isTop),
      fun inner isTop => BinaryOp.nimLevel_lt_iff (rightTight inner isTop)⟩
  · intro op operand member
    obtain ⟨category, ofNode⟩ := derives _ member
    exact ofNode.unary_operand
  · intro same node member compares
    have grouped := group_chain_eq_self_iff.mp (same node member)
    cases node with
    | binary op left right =>
        obtain ⟨isEquality, inner, isTop, isOrdering⟩ := compares
        obtain ⟨category, ofNode⟩ := derives _ member
        have tighter := ofNode.operand_levels.2 inner isTop
        exact (BinaryOp.nimLevel_lt_iff tighter).mp (grouped.2.2.2 inner isTop)
          ⟨isEquality, isOrdering⟩
    | _ => exact compares
  · intro noOrdering node member
    have below := nodes_subset_of_mem member
    apply group_chain_eq_self_iff.mpr
    exact grouped_of_no_ordering (fun other inNode => derives other (below inNode))
      (fun other inNode => noOrdering other (below inNode))

namespace Sample

/-- Operators of every level, with no ordering on the right of an equality. -/
def mixedText : String := "a < b == c + d % e && !f || -(a == b)"

def mixedTree : Expr :=
  .binary .or
    (.binary .and
      (.binary .eq (.binary .lt (.name [] "a") (.name [] "b"))
        (.binary .add (.name [] "c") (.binary .mod (.name [] "d") (.name [] "e"))))
      (.unary .not (.name [] "f")))
    (.unary .minus (.paren (.binary .eq (.name [] "a") (.name [] "b"))))

private theorem parse_mixedText : parse mixedText = .ok mixedTree := by
  with_unfolding_all rfl

theorem mixedTree_is_kept :
    parse mixedText = .ok mixedTree ∧ ∀ node ∈ mixedTree.nodes, node.nimReading = node := by
  refine ⟨parse_mixedText, (nim_regroups_compared_orderings parse_mixedText).2.2.2.mpr ?_⟩
  simp [mixedTree, nodes, ComparesOrdering, topOperator?, BinaryOp.isEquality,
    BinaryOp.isOrdering]

/-- An equality whose right operand is an ordering. -/
def comparedOrdering : Expr :=
  .binary .eq (.name [] "a") (.binary .lt (.name [] "b") (.name [] "c"))

/-- It is read and printed without parentheses, and the text groups to another tree. -/
theorem comparedOrdering_is_regrouped :
    parse "a == b < c" = .ok comparedOrdering ∧
      comparedOrdering.toNim = .ok "a == b < c" ∧
      ¬ BinaryOp.eq.nimLevel < BinaryOp.lt.nimLevel ∧
      comparedOrdering.nimReading =
        .binary .lt (.binary .eq (.name [] "a") (.name [] "b")) (.name [] "c") ∧
      comparedOrdering.nimReading ≠ comparedOrdering := by
  have reading : comparedOrdering.nimReading =
      .binary .lt (.binary .eq (.name [] "a") (.name [] "b")) (.name [] "c") := rfl
  refine ⟨by with_unfolding_all rfl, by with_unfolding_all rfl, by decide, reading, ?_⟩
  rw [reading]
  simp [comparedOrdering]

end Sample

end Expr

end TensorBindings
