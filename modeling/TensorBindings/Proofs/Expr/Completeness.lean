import TensorBindings.Expr.Reader
import TensorBindings.Proofs.Expr.Lexing

/-!
Contract: every spaced spelling of a tree of the grammar reads as that tree.

Owns:
- the lexemes of a derived tree each stand where they are one lexeme;
- what the reader has pending after the lexemes of a tree: not always the tree itself, since
  operators of the tree can still be open, but something that closes to it;
- `parse_of_spells`, and from it that a text spells at most one tree.

The argument about the reader is one induction over derivations. Its invariant has two sides.
The stack below a tree of some level holds no operator that a token of that level would close,
and after the tree whatever closes at that level gives the tree on the same stack.

Does not own: the grammar (`Proofs.Expr.Grammar`), the division of texts (`Proofs.Expr.Lexing`).
-/

set_option autoImplicit false

namespace TensorBindings.Expr

open TensorBindings.Text

/-! ### Levels -/

namespace Category

def level : Category → Nat
  | ternary => 0
  | logicOr => 1
  | logicAnd => 2
  | equality => 3
  | relational => 4
  | additive => 5
  | multiplicative => 6
  | unary => 7
  | suffixed => 8
  | primary => 9

theorem level_of_tighter {category next : Category} (isNext : category.tighter? = some next) :
    next.level = category.level + 1 := by
  cases category <;> cases isNext <;> rfl

theorem level_of_mem_operators {category : Category} {op : BinaryOp}
    (isOperator : op ∈ category.operators) :
    op.level = category.level ∧ 0 < op.level ∧ op.level < 7 := by
  cases category <;> simp [operators] at isOperator
  all_goals rcases isOperator with rfl | rfl | rfl | rfl <;> decide

end Category

/-! ### Placement of lexemes -/

theorem operator_mayStandAfter_operand {category : Category} {op : BinaryOp}
    (isOperator : op ∈ category.operators) : (Token.operator op).MayStandAfter true := by
  cases op with
  | custom symbol => cases category <;> simp [Category.operators] at isOperator
  | ne => rfl
  | or | and | eq | lt | le | gt | ge | add | sub | mul | div | mod => trivial

private theorem placed_path {qualifier : List String} {ident : String} {rest : List Token}
    (areNames : ∀ part ∈ qualifier, IsName part) (isName : IsName ident)
    (placedRest : Placed true rest) :
    Placed false ((Expr.name qualifier ident).lexemes ++ rest) := by
  induction qualifier with
  | nil => exact ⟨isName, placedRest⟩
  | cons part parts inductionHypothesis =>
      obtain ⟨isPart, areParts⟩ := List.forall_mem_cons.mp areNames
      exact ⟨isPart, trivial, inductionHypothesis areParts⟩

private theorem placed_lexemesOfAll {trees : List Expr} {close : Token} {rest : List Token}
    (placedEach : ∀ tree ∈ trees, ∀ rest, Placed true rest → Placed false (tree.lexemes ++ rest))
    (closes : ∀ afterOperand, Placed afterOperand (close :: rest)) :
    Placed false (lexemesOfAll trees ++ close :: rest) := by
  match trees, placedEach with
  | [], _ => exact closes false
  | [tree], placedEach => exact placedEach tree List.mem_cons_self _ (closes true)
  | tree :: next :: others, placedEach =>
      obtain ⟨placedTree, placedOthers⟩ := List.forall_mem_cons.mp placedEach
      rw [lexemesOfAll, List.append_assoc]
      exact placedTree _ ⟨trivial, placed_lexemesOfAll placedOthers closes⟩

theorem Derives.placed {category : Category} {tree : Expr} (derives : Derives category tree) :
    ∀ rest, Placed true rest → Placed false (tree.lexemes ++ rest) := by
  induction derives with
  | tighter isNext inner inductionHypothesis => exact inductionHypothesis
  | ternary ofCondition ofThen ofElse placedCondition placedThen placedElse =>
      intro rest placedRest
      simp only [lexemes, List.append_assoc, List.cons_append]
      exact placedCondition _ ⟨trivial, placedThen _ ⟨trivial, placedElse _ placedRest⟩⟩
  | binary isOperator isNext ofLeft ofRight placedLeft placedRight =>
      intro rest placedRest
      simp only [lexemes, List.append_assoc, List.cons_append]
      exact placedLeft _ ⟨operator_mayStandAfter_operand isOperator, placedRight _ placedRest⟩
  | @unary op operand isOperator ofOperand placedOperand =>
      intro rest placedRest
      have mayStand : (unaryToken op).MayStandAfter false ∧ (unaryToken op).endsOperand = false := by
        cases op with
        | custom symbol => simp at isOperator
        | plus | minus | not => exact ⟨trivial, rfl⟩
      refine ⟨mayStand.1, ?_⟩
      rw [mayStand.2]
      exact placedOperand rest placedRest
  | member ofValue isName placedValue =>
      intro rest placedRest
      simp only [lexemes, List.append_assoc, List.cons_append, List.nil_append]
      exact placedValue _ ⟨trivial, isName, placedRest⟩
  | call ofCallee ofArguments placedCallee placedArguments =>
      intro rest placedRest
      simp only [lexemes, List.append_assoc, List.cons_append, List.nil_append]
      exact placedCallee _
        ⟨trivial, placed_lexemesOfAll placedArguments (fun _ => ⟨trivial, placedRest⟩)⟩
  | index ofValue ofPosition placedValue placedPosition =>
      intro rest placedRest
      simp only [lexemes, List.append_assoc, List.cons_append, List.nil_append]
      exact placedValue _ ⟨trivial, placedPosition _ ⟨trivial, placedRest⟩⟩
  | name areNames isName => exact fun _ => placed_path areNames isName
  | number isNumber =>
      intro rest placedRest
      exact ⟨⟨isNumber, fun absurdly => Bool.noConfusion absurdly⟩, placedRest⟩
  | string isQuoted => exact fun _ placedRest => ⟨isQuoted, placedRest⟩
  | paren ofInner placedInner =>
      intro rest placedRest
      simp only [lexemes, List.append_assoc, List.cons_append, List.nil_append]
      exact ⟨trivial, placedInner _ ⟨trivial, placedRest⟩⟩
  | list ofItems placedItems =>
      intro rest placedRest
      simp only [lexemes, List.append_assoc, List.cons_append, List.nil_append]
      exact ⟨trivial, placed_lexemesOfAll placedItems (fun _ => ⟨trivial, placedRest⟩)⟩

/-! ### Closing of operators -/

/-- A tree of this level can be read above the stack: no operator at its top would take the
tree's first operand for itself. -/
def Admits (level : Nat) : List Frame → Prop
  -- An operator before its operand binds tighter than every binary one, up to level six.
  | .unary _ :: _ => 7 ≤ level
  | .binary _ op :: _ => op.level < level
  | _ => True

theorem Admits.mono {level higher : Nat} {stack : List Frame} (admits : Admits level stack)
    (atMost : level ≤ higher) : Admits higher stack := by
  unfold Admits at admits ⊢
  split <;> simp_all <;> omega

private theorem settle_of_admits {level : Nat} {stack : List Frame} (admits : Admits level stack)
    (isBinary : level < 7) (value : Expr) : settle level stack value = (stack, value) := by
  unfold settle
  split
  · exact absurd admits (Nat.not_le.mpr isBinary)
  · exact if_neg (Nat.not_le.mpr admits)
  · rfl

/-- What is pending amounts to `tree` on `stack` for every token that closes operators down to
the level. -/
structure Amounts (level : Nat) (pending : List Frame × Expr) (stack : List Frame) (tree : Expr) :
    Prop where
  completes : complete pending.1 pending.2 = complete stack tree
  settles : 0 < level → ∀ down ≤ level, settle down pending.1 pending.2 = settle down stack tree
  same : 7 < level → pending = (stack, tree)

theorem Amounts.refl (level : Nat) (stack : List Frame) (tree : Expr) :
    Amounts level (stack, tree) stack tree :=
  ⟨rfl, fun _ _ _ => rfl, fun _ => rfl⟩

private theorem Amounts.of_tighter {level : Nat} {pending : List Frame × Expr} {stack : List Frame}
    {tree : Expr} (amounts : Amounts (level + 1) pending stack tree) :
    Amounts level pending stack tree where
  completes := amounts.completes
  settles := fun _ down atMost => amounts.settles (by omega) down (by omega)
  same := fun above => amounts.same (by omega)

theorem Amounts.binary {pending : List Frame × Expr} {stack : List Frame} {left right : Expr}
    {op : BinaryOp} (isBinary : op.level < 7)
    (amounts : Amounts (op.level + 1) pending (.binary left op :: stack) right) :
    Amounts op.level pending stack (.binary op left right) where
  completes := amounts.completes
  settles := by
    intro _ down atMost
    rw [amounts.settles (by omega) down (by omega), settle, if_pos atMost]
  same := fun above => by omega

theorem Amounts.unary {pending : List Frame × Expr} {stack : List Frame} {operand : Expr}
    {op : UnaryOp} (amounts : Amounts 7 pending (.unary op :: stack) operand) :
    Amounts 7 pending stack (.unary op operand) where
  completes := amounts.completes
  settles := fun positive down atMost => by rw [amounts.settles positive down atMost, settle]
  same := fun above => absurd above (by decide)

theorem Amounts.ternary {pending : List Frame × Expr} {stack : List Frame}
    {condition thenValue elseValue : Expr}
    (amounts : Amounts 0 pending (.elseBranch condition thenValue :: stack) elseValue) :
    Amounts 0 pending stack (.ternary condition thenValue elseValue) where
  completes := amounts.completes
  settles := fun positive => absurd positive (by decide)
  same := fun above => absurd above (by decide)

/-! ### Pending operands -/

/-- The operand that was just read, with the constructs that are open around it. -/
def ReaderState.pending? : ReaderState → Option (List Frame × Expr)
  | .named stack qualifier ident => some (stack, .name qualifier ident)
  | .operator stack value => some (stack, value)
  | _ => none

theorem readTokens_of_step {state next : ReaderState} {token : Token} {rest : List Token}
    (stepped : state.step token = some next) :
    readTokens state (token :: rest) = readTokens next rest := by
  cases state <;> simp only [readTokens, stepped]

private theorem readTokens_of_pending {state next : ReaderState} {pending : List Frame × Expr}
    {token : Token} {rest : List Token} (isPending : state.pending? = some pending)
    (noPath : token ≠ .scope)
    (stepped : ReaderState.stepOperator pending.1 pending.2 token = some next) :
    readTokens state (token :: rest) = readTokens next rest := by
  apply readTokens_of_step
  cases state with
  | operator stack value =>
      cases isPending
      exact stepped
  | named stack qualifier ident =>
      cases isPending
      rw [← stepped]
      cases token <;> first | rfl | exact absurd rfl noPath
  | operand stack => cases isPending
  | qualified stack path => cases isPending
  | selecting stack value => cases isPending
  | done tree => cases isPending

/-- From the stack on, the lexemes of the tree bring the reader to a state where something that
amounts to the tree is pending. -/
def ReadsAs (level : Nat) (stack : List Frame) (tree : Expr) : Prop :=
  ∃ state pending, state.pending? = some pending ∧ Amounts level pending stack tree ∧
    ∀ rest, readTokens (.operand stack) (tree.lexemes ++ rest) = readTokens state rest

private theorem readsAs_of_operator {level : Nat} {stack : List Frame} {tree : Expr}
    (reads : ∀ rest, readTokens (.operand stack) (tree.lexemes ++ rest) =
      readTokens (.operator stack tree) rest) :
    ReadsAs level stack tree :=
  ⟨_, _, rfl, Amounts.refl level stack tree, reads⟩

/-- After a tree of this level the token closes at least the operators that the tree can leave
open. -/
def Token.MayFollow (level : Nat) : Token → Prop
  | .colon | .comma | .closeParen | .closeBracket | .closeBrace | .endOfText => True
  | .question => 0 < level
  | .operator op => 0 < level ∧ op.level ≤ level
  | .dot | .openParen | .openBracket => 7 < level
  | _ => False

theorem Amounts.stepOperator {level : Nat} {pending : List Frame × Expr} {stack : List Frame}
    {tree : Expr} (amounts : Amounts level pending stack tree) {token : Token}
    (mayFollow : token.MayFollow level) :
    ReaderState.stepOperator pending.1 pending.2 token =
      ReaderState.stepOperator stack tree token := by
  cases token with
  | colon | comma | closeParen | closeBracket | closeBrace | endOfText =>
      simp only [ReaderState.stepOperator, amounts.completes]
  | question =>
      simp only [ReaderState.stepOperator, amounts.settles mayFollow 0 (Nat.zero_le level)]
  | operator op =>
      simp only [ReaderState.stepOperator, amounts.settles mayFollow.1 op.level mayFollow.2]
  | dot | openParen | openBracket => rw [amounts.same mayFollow]
  | name text | number text | string text => exact mayFollow.elim
  | not | scope | openBrace | unreadable => exact mayFollow.elim

/-- A token that may follow finds the tree as if it were pending itself. -/
theorem ReadsAs.step {level : Nat} {stack : List Frame} {tree : Expr}
    (reads : ReadsAs level stack tree) {token : Token} {next : ReaderState}
    (stepped : ReaderState.stepOperator stack tree token = some next)
    (mayFollow : token.MayFollow level) (rest : List Token) :
    readTokens (.operand stack) (tree.lexemes ++ token :: rest) = readTokens next rest := by
  obtain ⟨state, pending, isPending, amounts, readsTree⟩ := reads
  have noPath : token ≠ .scope := by
    intro isScope
    rw [isScope] at mayFollow
    exact mayFollow
  rw [← amounts.stepOperator mayFollow] at stepped
  rw [readsTree, readTokens_of_pending isPending noPath stepped]

/-! ### Comma-separated trees -/

/-- A list construct of the reader: the frame that collects the trees, the token that closes it,
and the tree that comes of it. -/
structure Listing where
  frame : List Expr → Frame
  close : Token
  tree : List Expr → Expr
  admits : ∀ read below, Admits 0 (frame read :: below)
  mayClose : close.MayFollow 0
  atComma : ∀ read below item, ReaderState.stepOperator (frame read :: below) item .comma =
    some (.operand (frame (read ++ [item]) :: below))
  atClose : ∀ read below item, ReaderState.stepOperator (frame read :: below) item close =
    some (.operator below (tree (read ++ [item])))
  atOnce : ∀ below, ReaderState.stepOperand (frame [] :: below) close =
    some (.operator below (tree []))

namespace Listing

def arguments (callee : Expr) : Listing where
  frame := .arguments callee
  close := .closeParen
  tree := .call callee
  admits := fun _ _ => trivial
  mayClose := trivial
  atComma := fun _ _ _ => rfl
  atClose := fun _ _ _ => rfl
  atOnce := fun _ => rfl

def items : Listing where
  frame := .items
  close := .closeBrace
  tree := .list
  admits := fun _ _ => trivial
  mayClose := trivial
  atComma := fun _ _ _ => rfl
  atClose := fun _ _ _ => rfl
  atOnce := fun _ => rfl

private theorem reads_nonempty (listing : Listing) {trees : List Expr} (nonempty : trees ≠ [])
    (readsEach : ∀ tree ∈ trees, ∀ stack, Admits 0 stack → ReadsAs 0 stack tree)
    (read : List Expr) (below : List Frame) (rest : List Token) :
    readTokens (.operand (listing.frame read :: below))
        (lexemesOfAll trees ++ listing.close :: rest) =
      readTokens (.operator below (listing.tree (read ++ trees))) rest := by
  match trees, nonempty, readsEach with
  | [tree], _, readsEach =>
      have readsTree := readsEach tree List.mem_cons_self _ (listing.admits read below)
      rw [lexemesOfAll, readsTree.step (listing.atClose read below tree) listing.mayClose]
  | tree :: next :: others, _, readsEach =>
      obtain ⟨readsFirst, readsOthers⟩ := List.forall_mem_cons.mp readsEach
      have readsTree := readsFirst _ (listing.admits read below)
      rw [lexemesOfAll, List.append_assoc, List.cons_append,
        readsTree.step (listing.atComma read below tree) trivial,
        reads_nonempty listing (List.cons_ne_nil _ _) readsOthers, List.append_assoc,
        List.singleton_append]

theorem reads (listing : Listing) {trees : List Expr}
    (readsEach : ∀ tree ∈ trees, ∀ stack, Admits 0 stack → ReadsAs 0 stack tree)
    (below : List Frame) (rest : List Token) :
    readTokens (.operand (listing.frame [] :: below))
        (lexemesOfAll trees ++ listing.close :: rest) =
      readTokens (.operator below (listing.tree trees)) rest := by
  by_cases nonempty : trees = []
  · rw [nonempty]
    exact readTokens_of_step (listing.atOnce below)
  · exact listing.reads_nonempty nonempty readsEach [] below rest

end Listing

/-! ### Trees -/

private theorem readTokens_path (stack : List Frame) (path qualifier : List String) (ident : String)
    (rest : List Token) :
    readTokens (.qualified stack path) ((Expr.name qualifier ident).lexemes ++ rest) =
      readTokens (.named stack (path ++ qualifier) ident) rest := by
  induction qualifier generalizing path with
  | nil => rw [List.append_nil]; rfl
  | cons part parts inductionHypothesis =>
      have extended := inductionHypothesis (path ++ [part])
      rw [List.append_assoc, List.singleton_append] at extended
      exact extended

private theorem readTokens_name (stack : List Frame) (qualifier : List String) (ident : String)
    (rest : List Token) :
    readTokens (.operand stack) ((Expr.name qualifier ident).lexemes ++ rest) =
      readTokens (.named stack qualifier ident) rest := by
  cases qualifier with
  | nil => rfl
  | cons part parts => exact readTokens_path stack [part] parts ident rest

theorem ReadsAs.ternary {stack : List Frame} {condition thenValue elseValue : Expr}
    (admits : Admits 0 stack) (readsCondition : ReadsAs 1 stack condition)
    (readsThen : ReadsAs 0 (.thenBranch condition :: stack) thenValue)
    (readsElse : ReadsAs 0 (.elseBranch condition thenValue :: stack) elseValue) :
    ReadsAs 0 stack (.ternary condition thenValue elseValue) := by
  have settled : settle 0 stack condition = (stack, condition) :=
    settle_of_admits admits (by decide) condition
  have atQuestion : ReaderState.stepOperator stack condition .question =
      some (.operand (.thenBranch condition :: stack)) := by
    simp only [ReaderState.stepOperator, settled]
  have atColon : ReaderState.stepOperator (.thenBranch condition :: stack) thenValue .colon =
      some (.operand (.elseBranch condition thenValue :: stack)) := rfl
  obtain ⟨state, pending, isPending, amounts, reads⟩ := readsElse
  refine ⟨state, pending, isPending, amounts.ternary, fun rest => ?_⟩
  simp only [lexemes, List.append_assoc, List.cons_append]
  rw [readsCondition.step atQuestion Nat.zero_lt_one, readsThen.step atColon trivial, reads]

theorem ReadsAs.binary {stack : List Frame} {op : BinaryOp} {left right : Expr}
    (positive : 0 < op.level) (isBinary : op.level < 7) (admits : Admits op.level stack)
    (readsLeft : ReadsAs op.level stack left)
    (readsRight : ReadsAs (op.level + 1) (.binary left op :: stack) right) :
    ReadsAs op.level stack (.binary op left right) := by
  have settled : settle op.level stack left = (stack, left) :=
    settle_of_admits admits isBinary left
  have atOperator : ReaderState.stepOperator stack left (.operator op) =
      some (.operand (.binary left op :: stack)) := by
    simp only [ReaderState.stepOperator, settled]
  obtain ⟨state, pending, isPending, amounts, reads⟩ := readsRight
  refine ⟨state, pending, isPending, amounts.binary isBinary, fun rest => ?_⟩
  simp only [lexemes, List.append_assoc, List.cons_append]
  rw [readsLeft.step atOperator ⟨positive, Nat.le_refl _⟩, reads]

theorem ReadsAs.unary {stack : List Frame} {op : UnaryOp} {operand : Expr}
    (atOperator : ReaderState.stepOperand stack (unaryToken op) =
      some (.operand (.unary op :: stack)))
    (readsOperand : ReadsAs 7 (.unary op :: stack) operand) :
    ReadsAs 7 stack (.unary op operand) := by
  have stepped : (ReaderState.operand stack).step (unaryToken op) =
      some (.operand (.unary op :: stack)) := atOperator
  obtain ⟨state, pending, isPending, amounts, reads⟩ := readsOperand
  refine ⟨state, pending, isPending, amounts.unary, fun rest => ?_⟩
  rw [lexemes, List.cons_append, readTokens_of_step stepped, reads]

/-- The lexemes of a derived tree read as the tree. -/
theorem Derives.readsAs {category : Category} {tree : Expr} (derives : Derives category tree) :
    ∀ stack, Admits category.level stack → ReadsAs category.level stack tree := by
  induction derives with
  | tighter isNext inner inductionHypothesis =>
      intro stack admits
      rw [Category.level_of_tighter isNext] at inductionHypothesis
      obtain ⟨state, pending, isPending, amounts, reads⟩ :=
        inductionHypothesis stack (admits.mono (Nat.le_succ _))
      exact ⟨state, pending, isPending, amounts.of_tighter, reads⟩
  | ternary _ _ _ readsCondition readsThen readsElse =>
      intro stack admits
      exact .ternary admits (readsCondition stack (admits.mono (by decide)))
        (readsThen (.thenBranch _ :: stack) trivial) (readsElse (.elseBranch _ _ :: stack) trivial)
  | @binary category next op left right isOperator isNext _ _ readsLeft readsRight =>
      intro stack admits
      obtain ⟨sameLevel, positive, isBinary⟩ := Category.level_of_mem_operators isOperator
      have admitsRight : Admits (category.level + 1) (.binary left op :: stack) := by
        show op.level < category.level + 1
        omega
      rw [Category.level_of_tighter isNext] at readsRight
      rw [← sameLevel] at readsLeft readsRight admits admitsRight ⊢
      exact .binary positive isBinary admits (readsLeft stack admits)
        (readsRight (.binary left op :: stack) admitsRight)
  | @unary op operand isOperator _ readsOperand =>
      intro stack _
      have atOperator : ReaderState.stepOperand stack (unaryToken op) =
          some (.operand (.unary op :: stack)) := by
        cases op with
        | custom symbol => simp at isOperator
        | plus | minus | not => rfl
      exact .unary atOperator (readsOperand (.unary op :: stack) (Nat.le_refl 7))
  | @member value field ofValue isName readsValue =>
      intro stack admits
      apply readsAs_of_operator
      intro rest
      simp only [lexemes, List.append_assoc, List.cons_append, List.nil_append]
      have atDot : ReaderState.stepOperator stack value .dot = some (.selecting stack value) := rfl
      rw [(readsValue stack admits).step atDot (Nat.lt_succ_self 7)]
      rfl
  | @call callee arguments ofCallee ofArguments readsCallee readsArguments =>
      intro stack admits
      apply readsAs_of_operator
      intro rest
      simp only [lexemes, List.append_assoc, List.cons_append, List.nil_append]
      have atOpen : ReaderState.stepOperator stack callee .openParen =
          some (.operand (.arguments callee [] :: stack)) := rfl
      rw [(readsCallee stack admits).step atOpen (Nat.lt_succ_self 7)]
      exact (Listing.arguments callee).reads readsArguments stack rest
  | @index value position ofValue ofPosition readsValue readsPosition =>
      intro stack admits
      apply readsAs_of_operator
      intro rest
      simp only [lexemes, List.append_assoc, List.cons_append, List.nil_append]
      have atOpen : ReaderState.stepOperator stack value .openBracket =
          some (.operand (.subscript value :: stack)) := rfl
      have atClose : ReaderState.stepOperator (.subscript value :: stack) position .closeBracket =
          some (.operator stack (.index value position)) := rfl
      rw [(readsValue stack admits).step atOpen (Nat.lt_succ_self 7),
        (readsPosition (.subscript value :: stack) trivial).step atClose trivial]
  | name areNames isName =>
      intro stack _
      exact ⟨_, _, rfl, Amounts.refl _ stack _, readTokens_name stack _ _⟩
  | number isNumber => exact fun stack _ => readsAs_of_operator fun _ => rfl
  | string isQuoted => exact fun stack _ => readsAs_of_operator fun _ => rfl
  | @paren inner ofInner readsInner =>
      intro stack _
      apply readsAs_of_operator
      intro rest
      simp only [lexemes, List.append_assoc, List.cons_append, List.nil_append]
      have atClose : ReaderState.stepOperator (.group :: stack) inner .closeParen =
          some (.operator stack (.paren inner)) := rfl
      rw [readTokens_of_step rfl, (readsInner (.group :: stack) trivial).step atClose trivial]
  | list ofItems readsItems =>
      intro stack _
      apply readsAs_of_operator
      intro rest
      simp only [lexemes, List.append_assoc, List.cons_append, List.nil_append]
      rw [readTokens_of_step rfl]
      exact Listing.items.reads readsItems stack rest

theorem readTokens_lexemes {tree : Expr} (derives : Derives .ternary tree) :
    readTokens (.operand []) (tree.lexemes ++ [.endOfText]) = .ok tree := by
  have atEnd : ReaderState.stepOperator [] tree .endOfText = some (.done tree) := rfl
  rw [(derives.readsAs [] trivial).step atEnd trivial]
  rfl

theorem parse_of_spells {text : String} {tree : Expr} (derives : Derives .ternary tree)
    (spells : Spells Separation text tree) : parse text = .ok tree := by
  obtain ⟨lead, cs, written, spaced, writes⟩ := spells
  have placed : Placed false tree.lexemes := by
    have placedAll := derives.placed [] trivial
    rwa [List.append_nil] at placedAll
  rw [parse, written, tokens_of_writes writes spaced placed]
  exact readTokens_lexemes derives

/-- A text with spacing between its lexemes reads as the tree that it spells, and it spells no
other tree. -/
theorem spelled_tree_is_read {text : String} {tree : Expr} (derives : Derives .ternary tree)
    (spells : Spells Separation text tree) :
    parse text = .ok tree ∧
      ∀ other, Derives .ternary other → Spells Separation text other → other = tree := by
  have reads := parse_of_spells derives spells
  refine ⟨reads, ?_⟩
  intro other derivesOther spellsOther
  have readsOther := parse_of_spells derivesOther spellsOther
  rw [reads] at readsOther
  exact (Except.ok.inj readsOther).symm

namespace Sample

/-- A ternary with a comparison for its condition, subtractions that associate to the left, and
both lexemes that depend on what stands before them. -/
def spelledTree : Expr :=
  .ternary
    (.binary .ne (.binary .sub (.binary .sub (.name [] "a") (.number ".5")) (.name [] "b"))
      (.string "'c'"))
    (.call (.name ["at"] "f") [.name [] "a", .list []])
    (.unary .not (.index (.member (.name [] "d") "e") (.number "0")))

def spelling : String := "a - .5 - b\n!= 'c' ? at :: f ( a ,\t { } )  : ! d . e [ 0 ] "

private theorem derives_spelledTree : Derives .ternary spelledTree := by
  have isName : ∀ ident ∈ ["a", "b", "d", "e", "f", "at"], IsName ident := by
    have single (c : Char) (starts : isNameStart c = true) {ident : String}
        (spelled : ident.toList = [c]) : IsName ident :=
      ⟨c, [], spelled, starts, List.forall_mem_nil _⟩
    simp only [List.forall_mem_cons]
    exact ⟨single 'a' (by decide) rfl, single 'b' (by decide) rfl, single 'd' (by decide) rfl,
      single 'e' (by decide) rfl, single 'f' (by decide) rfl,
      ⟨'a', ['t'], rfl, by decide, List.all_eq_true.mp (by decide)⟩, List.forall_mem_nil _⟩
  have half : IsNumber ".5" :=
    ⟨['.', '5'], [], [], rfl, .leadingPoint (by decide) (by decide), .absent, .absent⟩
  have nought : IsNumber "0" :=
    ⟨['0'], [], [], rfl, .whole (by decide) (by decide), .absent, .absent⟩
  have quoted : IsQuoted "'c'" :=
    ⟨'\'', ['c', '\''], .inr rfl, rfl, .plain (by decide) (by decide) .close⟩
  have leaf {category : Category} {tree : Expr} (isLeaf : Derives .primary tree) :
      Derives category tree := by
    cases category <;> repeat first | exact isLeaf | refine .tighter rfl ?_
  have name {category : Category} {ident : String}
      (listed : ident ∈ ["a", "b", "d", "e", "f", "at"]) : Derives category (.name [] ident) :=
    leaf (.name (List.forall_mem_nil _) (isName ident listed))
  refine .ternary ?condition ?thenValue ?elseValue
  case condition =>
    iterate 2 refine .tighter rfl ?_
    refine .binary (by decide) rfl ?_ (leaf (.string quoted))
    iterate 2 refine .tighter rfl ?_
    exact .binary (by decide) rfl
      (.binary (by decide) rfl (name (by decide)) (leaf (.number half))) (name (by decide))
  case thenValue =>
    iterate 8 refine .tighter rfl ?_
    refine .call (leaf (.name ?_ (isName "f" (by decide)))) ?_
    · simpa using isName "at" (by decide)
    · simp only [List.forall_mem_cons]
      exact ⟨name (by decide), leaf (.list (List.forall_mem_nil _)), List.forall_mem_nil _⟩
  case elseValue =>
    iterate 7 refine .tighter rfl ?_
    refine .unary (by decide) (.tighter rfl ?_)
    exact .index (.member (name (by decide)) (isName "e" (by decide))) (leaf (.number nought))

private theorem spells_spelledTree : Spells Separation spelling spelledTree := by
  have space : Separation [' '] := by decide
  have lineEnd : Separation ['\n'] := by decide
  have tab : Separation ['\t', ' '] := by decide
  have wide : Separation [' ', ' '] := by decide
  have trail : Spacing [' '] := by decide
  refine ⟨[], _, ?_, by decide, .more space <| .more space <| .more space <| .more space <|
    .more lineEnd <| .more space <| .more space <| .more space <| .more space <| .more space <|
    .more space <| .more space <| .more space <| .more tab <| .more space <| .more space <|
    .more wide <| .more space <| .more space <| .more space <| .more space <| .more space <|
    .more space <| .more space <| .last trail⟩
  rfl

theorem parse_spelling : parse spelling = .ok spelledTree ∧
    ∀ other, Derives .ternary other → Spells Separation spelling other → other = spelledTree :=
  spelled_tree_is_read derives_spelledTree spells_spelledTree

end Sample

end TensorBindings.Expr
