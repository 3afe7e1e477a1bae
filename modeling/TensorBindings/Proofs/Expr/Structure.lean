import TensorBindings.Expr.Basic
import TensorBindings.Signature.Basic

/-!
Contract: the places of names in an expression tree.

Owns: induction over trees along the three forms of a call, the call sites of a tree with
the style of each, and the unqualified names that stand for a value.

A callee is no value when it is a name or a member: `f(x)` and `x.f()` call `f`, and no
value is read under that name. A callee of any other form is an expression like all others.

Does not own: what becomes of these names (`Proofs.Backward.CallSites`,
`Proofs.Backward.Meaning`, `Proofs.Backward.Scope`).
-/

set_option autoImplicit false

namespace TensorBindings.Expr

/-! ### Induction -/

/-- Induction over trees in which a call has one case for each form of its callee. In the
case of a method the hypothesis is about the receiver, which is smaller than the callee. -/
@[elab_as_elim] theorem inductionByCallee
    {motive : Expr → Prop}
    (name : ∀ qualifier ident, motive (.name qualifier ident))
    (number : ∀ text, motive (.number text))
    (string : ∀ text, motive (.string text))
    (member : ∀ value field, motive value → motive (.member value field))
    (callMethod : ∀ receiver method arguments, motive receiver →
      (∀ argument ∈ arguments, motive argument) →
      motive (.call (.member receiver method) arguments))
    (callFunction : ∀ qualifier ident arguments,
      (∀ argument ∈ arguments, motive argument) →
      motive (.call (.name qualifier ident) arguments))
    (callValue : ∀ callee arguments, callee.calleeName? = none → motive callee →
      (∀ argument ∈ arguments, motive argument) → motive (.call callee arguments))
    (index : ∀ value position, motive value → motive position → motive (.index value position))
    (unary : ∀ op operand, motive operand → motive (.unary op operand))
    (binary : ∀ op left right, motive left → motive right → motive (.binary op left right))
    (ternary : ∀ condition thenValue elseValue, motive condition → motive thenValue →
      motive elseValue → motive (.ternary condition thenValue elseValue))
    (list : ∀ items, (∀ item ∈ items, motive item) → motive (.list items))
    (paren : ∀ inner, motive inner → motive (.paren inner))
    (hole : motive .hole)
    (tree : Expr) : motive tree := by
  have smaller : ∀ size, ∀ tree : Expr, sizeOf tree < size → motive tree := by
    intro size
    induction size with
    | zero => intro tree below; omega
    | succ size inductionHypothesis =>
        intro tree below
        -- The items of a list are smaller than any tree that holds the list.
        have ofItems : ∀ items : List Expr, sizeOf items < size →
            ∀ item ∈ items, motive item := by
          intro items itemsBelow item itemMember
          have itemBelow := List.sizeOf_lt_of_mem itemMember
          exact inductionHypothesis item (by omega)
        cases tree with
        | name qualifier ident => exact name qualifier ident
        | number text => exact number text
        | string text => exact string text
        | hole => exact hole
        | member value field =>
            simp only [Expr.member.sizeOf_spec] at below
            exact member value field (inductionHypothesis value (by omega))
        | index value position =>
            simp only [Expr.index.sizeOf_spec] at below
            exact index value position (inductionHypothesis value (by omega))
              (inductionHypothesis position (by omega))
        | unary op operand =>
            simp only [Expr.unary.sizeOf_spec] at below
            exact unary op operand (inductionHypothesis operand (by omega))
        | binary op left right =>
            simp only [Expr.binary.sizeOf_spec] at below
            exact binary op left right (inductionHypothesis left (by omega))
              (inductionHypothesis right (by omega))
        | ternary condition thenValue elseValue =>
            simp only [Expr.ternary.sizeOf_spec] at below
            exact ternary condition thenValue elseValue
              (inductionHypothesis condition (by omega))
              (inductionHypothesis thenValue (by omega))
              (inductionHypothesis elseValue (by omega))
        | list items =>
            simp only [Expr.list.sizeOf_spec] at below
            exact list items (ofItems items (by omega))
        | paren inner =>
            simp only [Expr.paren.sizeOf_spec] at below
            exact paren inner (inductionHypothesis inner (by omega))
        | call callee arguments =>
            simp only [Expr.call.sizeOf_spec] at below
            have ofArguments := ofItems arguments (by omega)
            have ofCallee := inductionHypothesis callee (by omega)
            cases callee with
            | member receiver method =>
                simp only [Expr.member.sizeOf_spec] at below
                exact callMethod receiver method arguments
                  (inductionHypothesis receiver (by omega)) ofArguments
            | name qualifier ident => exact callFunction qualifier ident arguments ofArguments
            | _ => exact callValue _ arguments rfl ofCallee ofArguments
  exact smaller (sizeOf tree + 1) tree (by omega)

theorem nodesOfAll_eq_flatMap (items : List Expr) : nodesOfAll items = items.flatMap nodes := by
  induction items with
  | nil => rfl
  | cons item rest inductionHypothesis =>
      rw [nodesOfAll, inductionHypothesis, List.flatMap_cons]

@[simp] theorem self_mem_nodes (tree : Expr) : tree ∈ tree.nodes := by
  cases tree <;> exact List.mem_cons_self

theorem mem_nodesOfAll {items : List Expr} {item : Expr} (member : item ∈ items) :
    item ∈ nodesOfAll items := by
  rw [nodesOfAll_eq_flatMap]
  exact List.mem_flatMap.mpr ⟨item, member, self_mem_nodes item⟩

/-- The trees below a tree below are below. -/
theorem nodes_subset_of_mem {tree node : Expr} (member : node ∈ tree.nodes) :
    node.nodes ⊆ tree.nodes := by
  have ofAll : ∀ items : List Expr,
      (∀ item ∈ items, node ∈ item.nodes → node.nodes ⊆ item.nodes) →
      node ∈ nodesOfAll items → node.nodes ⊆ nodesOfAll items := by
    intro items ofItems listed below inNode
    rw [nodesOfAll_eq_flatMap, List.mem_flatMap] at listed ⊢
    obtain ⟨item, itemMember, ofItem⟩ := listed
    exact ⟨item, itemMember, ofItems item itemMember ofItem inNode⟩
  -- The tree itself is its first node; any other node is one of a part.
  have ofParts {tree : Expr} {parts : List Expr} (split : tree.nodes = tree :: parts)
      (member : node ∈ tree.nodes) (ofPart : node ∈ parts → node.nodes ⊆ parts) :
      node.nodes ⊆ tree.nodes := by
    rw [split, List.mem_cons] at member
    rcases member with rfl | inParts
    · exact List.Subset.refl _
    · rw [split]
      exact List.Subset.trans (ofPart inParts) (List.subset_cons_self _ _)
  have ofTwo {first second : List Expr} (ofFirst : node ∈ first → node.nodes ⊆ first)
      (ofSecond : node ∈ second → node.nodes ⊆ second) (listed : node ∈ first ++ second) :
      node.nodes ⊆ first ++ second := by
    rcases List.mem_append.mp listed with inFirst | inSecond
    · exact List.Subset.trans (ofFirst inFirst) (List.subset_append_left _ _)
    · exact List.Subset.trans (ofSecond inSecond) (List.subset_append_right _ _)
  induction tree using inductionByCallee with
  | name qualifier ident => exact ofParts rfl member (fun none => nomatch none)
  | number text => exact ofParts rfl member (fun none => nomatch none)
  | string text => exact ofParts rfl member (fun none => nomatch none)
  | hole => exact ofParts rfl member (fun none => nomatch none)
  | member value field ofValue => exact ofParts rfl member ofValue
  | unary op operand ofOperand => exact ofParts rfl member ofOperand
  | paren inner ofInner => exact ofParts rfl member ofInner
  | list items ofItems => exact ofParts rfl member (ofAll items ofItems)
  | callMethod receiver method arguments ofReceiver ofArguments =>
      exact ofParts rfl member
        (ofTwo (fun inCallee => ofParts rfl inCallee ofReceiver) (ofAll arguments ofArguments))
  | callFunction qualifier ident arguments ofArguments =>
      exact ofParts rfl member
        (ofTwo (fun inCallee => ofParts rfl inCallee (fun none => nomatch none))
          (ofAll arguments ofArguments))
  | callValue callee arguments _ ofCallee ofArguments =>
      exact ofParts rfl member (ofTwo ofCallee (ofAll arguments ofArguments))
  | index value position ofValue ofPosition => exact ofParts rfl member (ofTwo ofValue ofPosition)
  | binary op left right ofLeft ofRight => exact ofParts rfl member (ofTwo ofLeft ofRight)
  | ternary condition thenValue elseValue ofCondition ofThen ofElse =>
      exact ofParts rfl member (ofTwo (ofTwo ofCondition ofThen) ofElse)

/-! ### Call sites -/

/-- The style of the call at this node and the name that it calls. A member is called as a
method, a name as a free function. -/
def callSite? : Expr → Option (Invocation × String)
  | .call (.member _ method) _ => some (.method, method)
  | .call (.name _ ident) _ => some (.function, ident)
  | _ => none

/-- The call sites of a tree in reading order, with repetitions. -/
def callSites (tree : Expr) : List (Invocation × String) :=
  tree.nodes.filterMap callSite?

theorem callSites_subset_of_mem {tree part : Expr} (inside : part ∈ tree.nodes) :
    part.callSites ⊆ tree.callSites :=
  List.filterMap_subset _ (nodes_subset_of_mem inside)

theorem callNames_eq_map_callSites (tree : Expr) :
    tree.callNames = tree.callSites.map Prod.snd := by
  have sameName : ∀ node : Expr, node.calledName? = node.callSite?.map Prod.snd := by
    intro node
    cases node with
    | call callee arguments => cases callee <;> rfl
    | _ => rfl
  unfold callNames callSites
  rw [List.map_filterMap]
  congr 1
  exact funext sameName

/-! ### Names that stand for values -/

mutual

/-- The unqualified names that stand for a value, in reading order. The callee of a call is
no value if it is a name; if it is a member, its receiver is one. -/
def valueNames : Expr → List String
  | .name [] ident => [ident]
  | .name (_ :: _) _ => []
  | .number _ => []
  | .string _ => []
  | .member value _ => valueNames value
  | .call (.name _ _) arguments => valueNamesOfAll arguments
  | .call callee arguments => valueNames callee ++ valueNamesOfAll arguments
  | .index value position => valueNames value ++ valueNames position
  | .unary _ operand => valueNames operand
  | .binary _ left right => valueNames left ++ valueNames right
  | .ternary condition thenValue elseValue =>
      valueNames condition ++ valueNames thenValue ++ valueNames elseValue
  | .list items => valueNamesOfAll items
  | .paren inner => valueNames inner
  | .hole => []

def valueNamesOfAll : List Expr → List String
  | [] => []
  | tree :: rest => valueNames tree ++ valueNamesOfAll rest

end

theorem valueNamesOfAll_eq_flatMap (items : List Expr) :
    valueNamesOfAll items = items.flatMap valueNames := by
  induction items with
  | nil => rfl
  | cons item rest inductionHypothesis =>
      rw [valueNamesOfAll, inductionHypothesis, List.flatMap_cons]

theorem valueNames_callValue {callee : Expr} (arguments : List Expr)
    (computed : callee.calleeName? = none) :
    (Expr.call callee arguments).valueNames =
      callee.valueNames ++ valueNamesOfAll arguments := by
  cases callee with
  | name qualifier ident => cases computed
  | member receiver method => cases computed
  | _ => simp [valueNames]

/-- A name that stands for a value is one of the nodes. -/
theorem mem_nodes_of_mem_valueNames {tree : Expr} {ident : String}
    (member : ident ∈ tree.valueNames) : Expr.name [] ident ∈ tree.nodes := by
  have ofAll : ∀ items : List Expr,
      (∀ item ∈ items, ident ∈ item.valueNames → Expr.name [] ident ∈ item.nodes) →
      ident ∈ valueNamesOfAll items → Expr.name [] ident ∈ nodesOfAll items := by
    intro items ofItems listed
    rw [valueNamesOfAll_eq_flatMap, List.mem_flatMap] at listed
    obtain ⟨item, itemMember, ofItem⟩ := listed
    rw [nodesOfAll_eq_flatMap, List.mem_flatMap]
    exact ⟨item, itemMember, ofItems item itemMember ofItem⟩
  induction tree using inductionByCallee with
  | name qualifier other =>
      cases qualifier with
      | nil => simpa [valueNames, nodes] using member
      | cons first others => cases member
  | number text => cases member
  | string text => cases member
  | hole => cases member
  | member value field ofValue => exact List.mem_cons_of_mem _ (ofValue member)
  | unary op operand ofOperand => exact List.mem_cons_of_mem _ (ofOperand member)
  | paren inner ofInner => exact List.mem_cons_of_mem _ (ofInner member)
  | list items ofItems => exact List.mem_cons_of_mem _ (ofAll items ofItems member)
  | callMethod receiver method arguments ofReceiver ofArguments =>
      simp only [valueNames, List.mem_append] at member
      simp only [nodes, List.mem_cons, List.mem_append]
      rcases member with inReceiver | inArguments
      · exact Or.inr (Or.inl (Or.inr (ofReceiver inReceiver)))
      · exact Or.inr (Or.inr (ofAll arguments ofArguments inArguments))
  | callFunction qualifier other arguments ofArguments =>
      simp only [valueNames] at member
      simp only [nodes, List.mem_cons, List.mem_append]
      exact Or.inr (Or.inr (ofAll arguments ofArguments member))
  | callValue callee arguments computed ofCallee ofArguments =>
      rw [valueNames_callValue arguments computed, List.mem_append] at member
      simp only [nodes, List.mem_cons, List.mem_append]
      rcases member with inCallee | inArguments
      · exact Or.inr (Or.inl (ofCallee inCallee))
      · exact Or.inr (Or.inr (ofAll arguments ofArguments inArguments))
  | index value position ofValue ofPosition =>
      simp only [valueNames, List.mem_append] at member
      simp only [nodes, List.mem_cons, List.mem_append]
      exact Or.inr (member.imp ofValue ofPosition)
  | binary op left right ofLeft ofRight =>
      simp only [valueNames, List.mem_append] at member
      simp only [nodes, List.mem_cons, List.mem_append]
      exact Or.inr (member.imp ofLeft ofRight)
  | ternary condition thenValue elseValue ofCondition ofThen ofElse =>
      simp only [valueNames, List.mem_append] at member
      simp only [nodes, List.mem_cons, List.mem_append]
      exact Or.inr (member.imp (fun before => before.imp ofCondition ofThen) ofElse)

theorem mentions_of_mem_valueNames {tree : Expr} {ident : String}
    (member : ident ∈ tree.valueNames) : tree.mentions ident = true := by
  unfold mentions
  rw [List.any_eq_true]
  exact ⟨.name [] ident, mem_nodes_of_mem_valueNames member, beq_self_eq_true ident⟩

end TensorBindings.Expr
