import TensorBindings.Proofs.Backward.Acceptance
import TensorBindings.Proofs.Backward.Renaming
import TensorBindings.Proofs.Expr.NimRecovery

/-!
Contract: every body that passes the checks has a text.

Owns: the nodes that have no text, the theorem that renaming neither brings one in nor takes
one away, and that the bodies of a checked entry are always assembled.

Reading gives trees of the grammar, in which no such node occurs. The only nodes that
renaming adds are those that a name stands for, and the number of an element is never empty.

Does not own: the call of the forward procedure (`Proofs.Generation.Totality`).
-/

set_option autoImplicit false

namespace TensorBindings

open TensorBindings.Text

namespace Expr

/-- The node can be written: it has a form, and if it is a number it has characters. -/
def IsWritable (node : Expr) : Prop := node ≠ .hole ∧ node ≠ .number ""

/-- A tree has a text exactly if all its nodes can be written. -/
theorem fault?_eq_none_iff {tree : Expr} :
    tree.fault? = none ↔ ∀ node ∈ tree.nodes, node.IsWritable := by
  have ofAll {items : List Expr}
      (ofItems : ∀ item ∈ items, item.fault? = none ↔ ∀ node ∈ item.nodes, node.IsWritable) :
      faultOfAll? items = none ↔ ∀ node ∈ nodesOfAll items, node.IsWritable := by
    rw [faultOfAll?_eq_none_iff, nodesOfAll_eq_flatMap, List.forall_mem_flatMap]
    exact forall₂_congr ofItems
  -- A node with parts can be written, so that only its parts matter.
  have ofParts {tree : Expr} {parts : List Expr} (split : tree.nodes = tree :: parts)
      (writable : tree.IsWritable)
      (same : tree.fault? = none ↔ ∀ node ∈ parts, node.IsWritable) :
      tree.fault? = none ↔ ∀ node ∈ tree.nodes, node.IsWritable := by
    rw [split, List.forall_mem_cons, same]
    exact (and_iff_right writable).symm
  have ofCall {callee : Expr} {arguments : List Expr}
      (ofCallee : callee.fault? = none ↔ ∀ node ∈ callee.nodes, node.IsWritable)
      (ofArguments : ∀ item ∈ arguments,
        item.fault? = none ↔ ∀ node ∈ item.nodes, node.IsWritable) :
      (Expr.call callee arguments).fault? = none ↔
        ∀ node ∈ (Expr.call callee arguments).nodes, node.IsWritable := by
    refine ofParts rfl (by simp [IsWritable]) ?_
    rw [fault?, Option.or_eq_none_iff, List.forall_mem_append, and_comm]
    exact and_congr ofCallee (ofAll ofArguments)
  induction tree using inductionByCallee with
  | name qualifier ident => simp [fault?, nodes, IsWritable]
  | number text => simp [fault?, nodes, IsWritable]
  | string text => simp [fault?, nodes, IsWritable]
  | hole => simp [fault?, nodes, IsWritable]
  | member value field ofValue => exact ofParts rfl (by simp [IsWritable]) ofValue
  | unary op operand ofOperand => exact ofParts rfl (by simp [IsWritable]) ofOperand
  | paren inner ofInner => exact ofParts rfl (by simp [IsWritable]) ofInner
  | list items ofItems => exact ofParts rfl (by simp [IsWritable]) (ofAll ofItems)
  | callMethod receiver method arguments ofReceiver ofArguments =>
      have ofCallee : (Expr.member receiver method).fault? = none ↔ _ :=
        ofParts rfl (by simp [IsWritable]) ofReceiver
      exact ofCall ofCallee ofArguments
  | callFunction qualifier ident arguments ofArguments =>
      have ofCallee : (Expr.name qualifier ident).fault? = none ↔ _ :=
        ofParts rfl (by simp [IsWritable]) (by simp [fault?])
      exact ofCall ofCallee ofArguments
  | callValue callee arguments computed ofCallee ofArguments => exact ofCall ofCallee ofArguments
  | index value position ofValue ofPosition =>
      refine ofParts rfl (by simp [IsWritable]) ?_
      rw [fault?, Option.or_eq_none_iff, List.forall_mem_append]
      exact and_congr ofValue ofPosition
  | binary op left right ofLeft ofRight =>
      refine ofParts rfl (by simp [IsWritable]) ?_
      rw [fault?, Option.or_eq_none_iff, List.forall_mem_append]
      exact and_congr ofLeft ofRight
  | ternary condition thenValue elseValue ofCondition ofThen ofElse =>
      refine ofParts rfl (by simp [IsWritable]) ?_
      rw [fault?, Option.or_eq_none_iff, Option.or_eq_none_iff, List.forall_mem_append,
        List.forall_mem_append]
      exact and_congr (and_congr ofCondition ofThen) ofElse

end Expr

namespace Backward

namespace Renaming

/-- What a name stands for has a text. -/
theorem fault?_value (names : Renaming) (ident : String) : (names.value ident).fault? = none := by
  unfold value
  dsimp only
  split
  · split
    · rfl
    · next nonempty => simp [Expr.fault?, nonempty]
  · split <;> rfl

/-- A renamed tree has the fault that the tree has. -/
theorem fault?_apply (names : Renaming) (tree : Expr) :
    (names.apply tree).fault? = tree.fault? := by
  have ofAll {items : List Expr} (ofItems : ∀ item ∈ items, (names.apply item).fault? = item.fault?) :
      Expr.faultOfAll? (names.applyAll items) = Expr.faultOfAll? items := by
    induction items with
    | nil => rfl
    | cons item rest inductionHypothesis =>
        obtain ⟨ofItem, ofRest⟩ := List.forall_mem_cons.mp ofItems
        rw [applyAll, Expr.faultOfAll?, Expr.faultOfAll?, ofItem, inductionHypothesis ofRest]
  induction tree using Expr.inductionByCallee with
  | name qualifier ident =>
      cases qualifier with
      | nil => exact fault?_value names ident
      | cons first others => rfl
  | number text => rfl
  | string text => rfl
  | hole => rfl
  | member value field ofValue => exact ofValue
  | unary op operand ofOperand => exact ofOperand
  | paren inner ofInner => exact ofInner
  | list items ofItems => exact ofAll ofItems
  | callMethod receiver method arguments ofReceiver ofArguments =>
      exact congrArg₂ Option.or (ofAll ofArguments) ofReceiver
  | callFunction qualifier ident arguments ofArguments =>
      exact congrArg (Option.or · none) (ofAll ofArguments)
  | callValue callee arguments computed ofCallee ofArguments =>
      rw [apply_callValue names computed]
      exact congrArg₂ Option.or (ofAll ofArguments) ofCallee
  | index value position ofValue ofPosition => exact congrArg₂ Option.or ofValue ofPosition
  | binary op left right ofLeft ofRight => exact congrArg₂ Option.or ofLeft ofRight
  | ternary condition thenValue elseValue ofCondition ofThen ofElse =>
      exact congrArg₂ Option.or (congrArg₂ Option.or ofCondition ofThen) ofElse

end Renaming

/-- The tree that is written for a body has a text, whatever the registry and the forward
procedure are. -/
theorem fault?_emittedTree {text : String} {source : Expr} (reads : Expr.parse text = .ok source)
    (registry : Registry) (forward : Signature) :
    (emittedTree registry forward source).fault? = none := by
  have hasText : source.fault? = none := Expr.fault?_of_derives (Expr.derives_of_parse reads).1
  unfold emittedTree
  rw [Renaming.fault?_apply]
  rw [Expr.fault?_eq_none_iff] at hasText ⊢
  intro node member
  exact hasText node (Expr.nodes_subset_of_mem (stripTrainingGuard_mem_nodes source) member)

/-- Every body that passed the checks has a text. -/
theorem fault?_of_checkBodies {registry : Registry} {forward : Signature} {seen : List String}
    {bodies : List FormulaBody} {checked : List CheckedBody}
    (accepted : checkBodies registry forward seen bodies = .ok checked) :
    ∀ body ∈ checked, body.tree.fault? = none := by
  induction bodies generalizing seen checked with
  | nil =>
      cases accepted
      exact nofun
  | cons body rest inductionHypothesis =>
      by_cases implemented : body.isImplemented = true
      · obtain ⟨first, others, firstChecked, othersChecked, rfl⟩ :=
          (checkBodies_cons_eq_ok_iff implemented).mp accepted
        obtain ⟨source, _, parsed, _, _, _, rfl⟩ := checkBody_eq_ok_iff.mp firstChecked
        exact List.forall_mem_cons.mpr
          ⟨fault?_emittedTree parsed registry forward, inductionHypothesis othersChecked⟩
      · rw [checkBodies, if_neg implemented] at accepted
        exact inductionHypothesis accepted

end Backward

/-- Bodies that have a text are assembled, to a procedure or to none. -/
theorem BackwardProcedure.exists_assemble {bodies : List Backward.CheckedBody}
    (haveText : ∀ body ∈ bodies, body.tree.fault? = none) (forward : Signature) :
    ∃ procedure?, assemble forward bodies = .ok procedure? := by
  have prints : ∃ printed, bodies.mapM printBody = .ok printed := by
    refine exists_mapM_eq_ok fun body member => ⟨(body.targets, body.tree.nimText), ?_⟩
    rw [printBody, Expr.toNim, haveText body member]
    rfl
  obtain ⟨printed, prints⟩ := prints
  exact ⟨_, bind_eq_ok_iff.mpr ⟨printed, prints, rfl⟩⟩

end TensorBindings
