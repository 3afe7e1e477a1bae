import TensorBindings.Proofs.Expr.Completeness
import TensorBindings.Proofs.Expr.Division

/-!
Contract: a text that is read spells the tree that comes of it, and the tree is one of the
grammar.

Owns:
- the tokens that a state of the reader stands for: those of its open constructs from the
  outermost to the innermost, then those of what is pending;
- well-formed states, whose parts are trees of the grammar at the place where they stand, and
  whose operators are stacked so that each binds tighter than the one below it;
- for both, what one token preserves and from it what a whole run preserves;
- `read_tree_is_spelled`.

Does not own: the converse (`Proofs.Expr.Completeness`), the division of texts
(`Proofs.Expr.Division`).
-/

set_option autoImplicit false

namespace TensorBindings.Expr

open TensorBindings.Text

/-! ### Tokens of a state -/

def Frame.lexemes : Frame → List Token
  | .unary op => [unaryToken op]
  | .binary left op => left.lexemes ++ [.operator op]
  | .thenBranch condition => condition.lexemes ++ [.question]
  | .elseBranch condition thenValue =>
      condition.lexemes ++ (.question :: (thenValue.lexemes ++ [.colon]))
  | .group => [.openParen]
  | .items read => .openBrace :: read.flatMap (fun item => item.lexemes ++ [.comma])
  | .arguments callee read =>
      callee.lexemes ++ (.openParen :: read.flatMap (fun item => item.lexemes ++ [.comma]))
  | .subscript value => value.lexemes ++ [.openBracket]

/-- The tokens of open constructs. The innermost comes first in the stack and last in the
text. -/
def stackLexemes : List Frame → List Token
  | [] => []
  | frame :: below => stackLexemes below ++ frame.lexemes

/-- The tokens that lead from the start to this state. -/
def ReaderState.consumed : ReaderState → List Token
  | .operand stack => stackLexemes stack
  | .named stack qualifier ident => stackLexemes stack ++ (Expr.name qualifier ident).lexemes
  | .qualified stack path =>
      stackLexemes stack ++ path.flatMap (fun part => [.name part, .scope])
  | .selecting stack value => stackLexemes stack ++ (value.lexemes ++ [.dot])
  | .operator stack value => stackLexemes stack ++ value.lexemes
  | .done tree => tree.lexemes ++ [.endOfText]

private theorem lexemesOfAll_append_singleton (read : List Expr) (item : Expr) :
    lexemesOfAll (read ++ [item]) =
      read.flatMap (fun item => item.lexemes ++ [.comma]) ++ item.lexemes := by
  match read with
  | [] => rfl
  | [first] => simp [lexemesOfAll]
  | first :: second :: others =>
      have ofOthers := lexemesOfAll_append_singleton (second :: others) item
      simp only [List.cons_append] at ofOthers ⊢
      rw [lexemesOfAll, ofOthers]
      simp

/-- Closing operators moves tokens from the stack to the value. -/
theorem lexemes_settle {level : Nat} {stack below : List Frame} {value left : Expr}
    (settled : settle level stack value = (below, left)) :
    stackLexemes below ++ left.lexemes = stackLexemes stack ++ value.lexemes := by
  fun_induction settle level stack value with
  | case1 op stack value inductionHypothesis =>
      simp [inductionHypothesis settled, stackLexemes, Frame.lexemes, lexemes]
  | case2 op stack value operand atLeast inductionHypothesis =>
      simp [inductionHypothesis settled, stackLexemes, Frame.lexemes, lexemes]
  | case3 => cases settled; rfl
  | case4 => cases settled; rfl

private theorem lexemes_complete {stack below : List Frame} {value completed : Expr}
    (completes : complete stack value = (below, completed)) :
    stackLexemes below ++ completed.lexemes = stackLexemes stack ++ value.lexemes := by
  fun_induction complete stack value with
  | case1 op stack value inductionHypothesis =>
      simp [inductionHypothesis completes, stackLexemes, Frame.lexemes, lexemes]
  | case2 left op stack value inductionHypothesis =>
      simp [inductionHypothesis completes, stackLexemes, Frame.lexemes, lexemes]
  | case3 condition thenValue stack value inductionHypothesis =>
      simp [inductionHypothesis completes, stackLexemes, Frame.lexemes, lexemes]
  | case4 => cases completes; rfl

/-! ### Trees of a level -/

private theorem Category.level_injective {category other : Category}
    (same : category.level = other.level) : category = other := by
  cases category <;> cases other <;> first | rfl | cases same

private theorem Category.exists_tighter {category : Category} (loose : category.level < 9) :
    ∃ next, category.tighter? = some next := by
  cases category with
  | primary => exact absurd loose (by decide)
  | ternary | logicOr | logicAnd | equality | relational | additive | multiplicative | unary
    | suffixed => exact ⟨_, rfl⟩

/-- A tree of a category is one of every looser category. -/
theorem Derives.of_level_le {loose tight : Category} {tree : Expr} (derives : Derives tight tree)
    (atMost : loose.level ≤ tight.level) : Derives loose tree := by
  by_cases same : loose.level = tight.level
  · rw [Category.level_injective same]
    exact derives
  · have below : loose.level < 9 := by
      have highest : tight.level ≤ 9 := by cases tight <;> decide
      omega
    obtain ⟨next, isNext⟩ := Category.exists_tighter below
    have nextLevel := Category.level_of_tighter isNext
    exact .tighter isNext (derives.of_level_le (by omega))
termination_by tight.level - loose.level
decreasing_by omega

/-- Every operator that can be written belongs to a category. -/
theorem exists_category_of_mayStandAfter {afterOperand : Bool} {op : BinaryOp}
    (mayStand : (Token.operator op).MayStandAfter afterOperand) :
    ∃ category : Category, op ∈ category.operators := by
  cases op with
  | custom symbol => exact mayStand.elim
  | or => exact ⟨.logicOr, by decide⟩
  | and => exact ⟨.logicAnd, by decide⟩
  | eq | ne => exact ⟨.equality, by decide⟩
  | lt | le | gt | ge => exact ⟨.relational, by decide⟩
  | add | sub => exact ⟨.additive, by decide⟩
  | mul | div | mod => exact ⟨.multiplicative, by decide⟩

private theorem Derives.binary_of_level_lt {category tight : Category} {op : BinaryOp}
    {left right : Expr} (isOperator : op ∈ category.operators) (ofLeft : Derives category left)
    (ofRight : Derives tight right) (tighter : op.level < tight.level) :
    Derives category (.binary op left right) := by
  obtain ⟨sameLevel, -, isBinary⟩ := Category.level_of_mem_operators isOperator
  have loose : category.level < 9 := by omega
  obtain ⟨next, isNext⟩ := Category.exists_tighter loose
  have nextLevel := Category.level_of_tighter isNext
  exact .binary isOperator isNext ofLeft (ofRight.of_level_le (by omega))

/-! ### Well-formed states -/

/-- What was read of a construct is of the grammar, given the constructs around it. -/
def Frame.WellFormed (below : List Frame) : Frame → Prop
  | .unary op => op ∈ [UnaryOp.plus, .minus, .not]
  | .binary left op =>
      (∃ category : Category, op ∈ category.operators ∧ Derives category left) ∧
        Admits op.level below
  | .thenBranch condition => Derives .logicOr condition ∧ Admits 0 below
  | .elseBranch condition thenValue =>
      Derives .logicOr condition ∧ Derives .ternary thenValue ∧ Admits 0 below
  | .group => True
  | .items read => ∀ item ∈ read, Derives .ternary item
  | .arguments callee read => Derives .suffixed callee ∧ ∀ item ∈ read, Derives .ternary item
  | .subscript value => Derives .suffixed value

def StackWellFormed : List Frame → Prop
  | [] => True
  | frame :: below => frame.WellFormed below ∧ StackWellFormed below

def ReaderState.WellFormed : ReaderState → Prop
  | .operand stack => StackWellFormed stack
  | .named stack qualifier ident =>
      StackWellFormed stack ∧ (∀ part ∈ qualifier, IsName part) ∧ IsName ident
  | .qualified stack path => StackWellFormed stack ∧ ∀ part ∈ path, IsName part
  | .selecting stack value => StackWellFormed stack ∧ Derives .suffixed value
  | .operator stack value => StackWellFormed stack ∧ Derives .suffixed value
  | .done tree => Derives .ternary tree

/-- Operators before their operand and everything tighter can be read above any stack. -/
theorem StackWellFormed.admits {stack : List Frame} (wellFormed : StackWellFormed stack)
    {level : Nat} (isTight : 7 ≤ level) : Admits level stack := by
  cases stack with
  | nil => trivial
  | cons frame below =>
      cases frame with
      | unary op => exact isTight
      | binary left op =>
          obtain ⟨⟨⟨category, isOperator, -⟩, -⟩, -⟩ := wellFormed
          have isBinary := (Category.level_of_mem_operators isOperator).2.2
          exact Nat.lt_of_lt_of_le isBinary isTight
      | thenBranch | elseBranch | group | items | arguments | subscript => trivial

/-- Closing operators down to a level leaves a tree of that level, and a stack that admits
it. The tree on the way is always of a level that the stack admits. -/
theorem StackWellFormed.settle {level : Nat} {stack below : List Frame} {value left : Expr}
    {category : Category} (wellFormed : StackWellFormed stack) (derives : Derives category value)
    (admits : Admits category.level stack) (atLeast : level ≤ category.level)
    (noTernary : 0 < category.level) (isBinary : level < 7)
    (settled : settle level stack value = (below, left)) :
    StackWellFormed below ∧ Admits level below ∧
      ∃ result : Category, level ≤ result.level ∧ 0 < result.level ∧ Derives result left := by
  fun_induction Expr.settle level stack value generalizing category with
  | case1 op stack value inductionHypothesis =>
      obtain ⟨isOperator, ofBelow⟩ := wellFormed
      have ofOperand : Derives .unary value := derives.of_level_le admits
      exact inductionHypothesis ofBelow (.unary isOperator ofOperand)
        (ofBelow.admits (Nat.le_refl 7)) (Nat.le_of_lt isBinary) (by decide) settled
  | case2 left op stack value closes inductionHypothesis =>
      obtain ⟨⟨⟨ofOp, isOperator, ofLeft⟩, admitsBelow⟩, ofBelow⟩ := wellFormed
      obtain ⟨sameLevel, positive, -⟩ := Category.level_of_mem_operators isOperator
      rw [sameLevel] at admitsBelow closes positive
      exact inductionHypothesis ofBelow (.binary_of_level_lt isOperator ofLeft derives admits)
        admitsBelow closes positive settled
  | case3 left op stack value stays =>
      cases settled
      exact ⟨wellFormed, Nat.lt_of_not_le stays, category, atLeast, noTernary, derives⟩
  | case4 stack value noUnary noBinary =>
      cases settled
      refine ⟨wellFormed, ?_, category, atLeast, noTernary, derives⟩
      unfold Admits
      split
      · exact absurd rfl (noUnary _ _)
      · exact absurd rfl (noBinary _ _ _)
      · trivial

theorem StackWellFormed.complete {stack below : List Frame} {value completed : Expr}
    {category : Category} (wellFormed : StackWellFormed stack) (derives : Derives category value)
    (admits : Admits category.level stack)
    (completes : complete stack value = (below, completed)) :
    StackWellFormed below ∧ Derives .ternary completed := by
  fun_induction Expr.complete stack value generalizing category with
  | case1 op stack value inductionHypothesis =>
      obtain ⟨isOperator, ofBelow⟩ := wellFormed
      have ofOperand : Derives .unary value := derives.of_level_le admits
      exact inductionHypothesis ofBelow (.unary isOperator ofOperand)
        (ofBelow.admits (Nat.le_refl 7)) completes
  | case2 left op stack value inductionHypothesis =>
      obtain ⟨⟨⟨ofOp, isOperator, ofLeft⟩, admitsBelow⟩, ofBelow⟩ := wellFormed
      rw [(Category.level_of_mem_operators isOperator).1] at admitsBelow
      exact inductionHypothesis ofBelow (.binary_of_level_lt isOperator ofLeft derives admits)
        admitsBelow completes
  | case3 condition thenValue stack value inductionHypothesis =>
      obtain ⟨⟨ofCondition, ofThen, admitsBelow⟩, ofBelow⟩ := wellFormed
      have ofElse : Derives .ternary value := derives.of_level_le (Nat.zero_le _)
      exact inductionHypothesis ofBelow (.ternary ofCondition ofThen ofElse) admitsBelow completes
  | case4 =>
      cases completes
      exact ⟨wellFormed, derives.of_level_le (Nat.zero_le _)⟩

/-! ### Steps -/

/-- The token is a lexeme of some text, or marks the end of one. -/
def Token.Occurs (token : Token) : Prop :=
  token = .endOfText ∨ ∃ afterOperand, token.MayStandAfter afterOperand

/-- The state is well-formed, and these tokens lead to it. -/
structure ReaderState.Explains (state : ReaderState) (consumed : List Token) : Prop where
  wellFormed : state.WellFormed
  consumes : state.consumed = consumed

private theorem explains_stepOperand {stack : List Frame} {token : Token} {next : ReaderState}
    (wellFormed : StackWellFormed stack) (occurs : token.Occurs)
    (stepped : ReaderState.stepOperand stack token = some next) :
    next.Explains (stackLexemes stack ++ [token]) := by
  rcases occurs with rfl | ⟨_, mayStand⟩
  · cases stepped
  cases token with
  | name ident =>
      cases stepped
      exact ⟨⟨wellFormed, List.forall_mem_nil _, mayStand⟩, rfl⟩
  | number text =>
      cases stepped
      exact ⟨⟨wellFormed, .tighter rfl (.number mayStand.1)⟩, rfl⟩
  | string text =>
      cases stepped
      exact ⟨⟨wellFormed, .tighter rfl (.string mayStand)⟩, rfl⟩
  | operator op =>
      -- Only the signs stand before an operand.
      cases op <;> cases stepped
      all_goals exact ⟨⟨by simp [Frame.WellFormed], wellFormed⟩, rfl⟩
  | not =>
      cases stepped
      exact ⟨⟨by simp [Frame.WellFormed], wellFormed⟩, rfl⟩
  | openParen =>
      cases stepped
      exact ⟨⟨trivial, wellFormed⟩, rfl⟩
  | openBrace =>
      cases stepped
      exact ⟨⟨List.forall_mem_nil _, wellFormed⟩, rfl⟩
  | closeParen =>
      simp only [ReaderState.stepOperand] at stepped
      split at stepped <;> cases stepped
      obtain ⟨⟨ofCallee, ofRead⟩, ofBelow⟩ := wellFormed
      refine ⟨⟨ofBelow, .call ofCallee ofRead⟩, ?_⟩
      simp [ReaderState.consumed, stackLexemes, Frame.lexemes, lexemes, lexemesOfAll]
  | closeBrace =>
      simp only [ReaderState.stepOperand] at stepped
      split at stepped <;> cases stepped
      obtain ⟨ofRead, ofBelow⟩ := wellFormed
      refine ⟨⟨ofBelow, .tighter rfl (.list ofRead)⟩, ?_⟩
      simp [ReaderState.consumed, stackLexemes, Frame.lexemes, lexemes, lexemesOfAll]
  | dot | scope | comma | question | colon | openBracket | closeBracket | endOfText
    | unreadable => cases stepped

private theorem forall_mem_concat {α : Type} {Holds : α → Prop} {read : List α} {item : α}
    (ofRead : ∀ other ∈ read, Holds other) (ofItem : Holds item) :
    ∀ other ∈ read ++ [item], Holds other :=
  List.forall_mem_append.mpr ⟨ofRead, List.forall_mem_singleton.mpr ofItem⟩

/-- A token after an operand closes what it can complete and then extends what is left. -/
theorem explains_stepOperator {stack : List Frame} {value : Expr} {token : Token}
    {next : ReaderState} (wellFormed : StackWellFormed stack)
    (ofValue : Derives .suffixed value) (occurs : token.Occurs)
    (stepped : ReaderState.stepOperator stack value token = some next) :
    next.Explains (stackLexemes stack ++ (value.lexemes ++ [token])) := by
  have admits : Admits Category.suffixed.level stack := wellFormed.admits (by decide)
  have completes {below : List Frame} {completed : Expr}
      (closed : complete stack value = (below, completed)) :=
    wellFormed.complete ofValue admits closed
  rw [← List.append_assoc]
  cases token with
  | dot =>
      cases stepped
      exact ⟨⟨wellFormed, ofValue⟩, (List.append_assoc _ _ _).symm⟩
  | openParen =>
      cases stepped
      refine ⟨⟨⟨ofValue, List.forall_mem_nil _⟩, wellFormed⟩, ?_⟩
      simp [ReaderState.consumed, stackLexemes, Frame.lexemes]
  | openBracket =>
      cases stepped
      exact ⟨⟨ofValue, wellFormed⟩, (List.append_assoc _ _ _).symm⟩
  | operator op =>
      obtain ⟨_, mayStand⟩ := occurs.resolve_left (by simp)
      obtain ⟨category, isOperator⟩ := exists_category_of_mayStandAfter mayStand
      obtain ⟨sameLevel, -, isBinary⟩ := Category.level_of_mem_operators isOperator
      cases settled : settle op.level stack value with
      | mk below left =>
          simp only [ReaderState.stepOperator, settled, Option.some.injEq] at stepped
          subst stepped
          obtain ⟨ofBelow, admitsBelow, result, atLeast, -, ofLeft⟩ :=
            wellFormed.settle ofValue admits (by show op.level ≤ 8; omega) (by decide) isBinary
              settled
          have ofOperand : Derives category left := ofLeft.of_level_le (by omega)
          refine ⟨⟨⟨⟨category, isOperator, ofOperand⟩, admitsBelow⟩, ofBelow⟩, ?_⟩
          rw [← lexemes_settle settled, List.append_assoc]
          rfl
  | question =>
      cases settled : settle 0 stack value with
      | mk below condition =>
          simp only [ReaderState.stepOperator, settled, Option.some.injEq] at stepped
          subst stepped
          obtain ⟨ofBelow, admitsBelow, result, -, positive, ofCondition⟩ :=
            wellFormed.settle ofValue admits (Nat.zero_le _) (by decide) (by decide) settled
          refine ⟨⟨⟨ofCondition.of_level_le positive, admitsBelow⟩, ofBelow⟩, ?_⟩
          rw [← lexemes_settle settled, List.append_assoc]
          rfl
  | colon =>
      simp only [ReaderState.stepOperator] at stepped
      split at stepped <;> cases stepped
      rename_i closed
      obtain ⟨⟨⟨ofCondition, admitsBelow⟩, ofBelow⟩, ofThen⟩ := completes closed
      refine ⟨⟨⟨ofCondition, ofThen, admitsBelow⟩, ofBelow⟩, ?_⟩
      rw [← lexemes_complete closed]
      simp [ReaderState.consumed, stackLexemes, Frame.lexemes]
  | comma =>
      simp only [ReaderState.stepOperator] at stepped
      split at stepped <;> cases stepped
      · rename_i closed
        obtain ⟨⟨⟨ofCallee, ofRead⟩, ofBelow⟩, ofItem⟩ := completes closed
        refine ⟨⟨⟨ofCallee, forall_mem_concat ofRead ofItem⟩, ofBelow⟩, ?_⟩
        rw [← lexemes_complete closed]
        simp [ReaderState.consumed, stackLexemes, Frame.lexemes]
      · rename_i closed
        obtain ⟨⟨ofRead, ofBelow⟩, ofItem⟩ := completes closed
        refine ⟨⟨forall_mem_concat ofRead ofItem, ofBelow⟩, ?_⟩
        rw [← lexemes_complete closed]
        simp [ReaderState.consumed, stackLexemes, Frame.lexemes]
  | closeParen =>
      simp only [ReaderState.stepOperator] at stepped
      split at stepped <;> cases stepped
      · rename_i closed
        obtain ⟨⟨-, ofBelow⟩, ofInner⟩ := completes closed
        refine ⟨⟨ofBelow, .tighter rfl (.paren ofInner)⟩, ?_⟩
        rw [← lexemes_complete closed]
        simp [ReaderState.consumed, stackLexemes, Frame.lexemes, lexemes]
      · rename_i closed
        obtain ⟨⟨⟨ofCallee, ofRead⟩, ofBelow⟩, ofItem⟩ := completes closed
        refine ⟨⟨ofBelow, .call ofCallee (forall_mem_concat ofRead ofItem)⟩, ?_⟩
        rw [← lexemes_complete closed]
        simp [ReaderState.consumed, stackLexemes, Frame.lexemes, lexemes,
          lexemesOfAll_append_singleton]
  | closeBracket =>
      simp only [ReaderState.stepOperator] at stepped
      split at stepped <;> cases stepped
      rename_i closed
      obtain ⟨⟨ofContainer, ofBelow⟩, ofPosition⟩ := completes closed
      refine ⟨⟨ofBelow, .index ofContainer ofPosition⟩, ?_⟩
      rw [← lexemes_complete closed]
      simp [ReaderState.consumed, stackLexemes, Frame.lexemes, lexemes]
  | closeBrace =>
      simp only [ReaderState.stepOperator] at stepped
      split at stepped <;> cases stepped
      rename_i closed
      obtain ⟨⟨ofRead, ofBelow⟩, ofItem⟩ := completes closed
      refine ⟨⟨ofBelow, .tighter rfl (.list (forall_mem_concat ofRead ofItem))⟩, ?_⟩
      rw [← lexemes_complete closed]
      simp [ReaderState.consumed, stackLexemes, Frame.lexemes, lexemes,
        lexemesOfAll_append_singleton]
  | endOfText =>
      simp only [ReaderState.stepOperator] at stepped
      split at stepped <;> cases stepped
      rename_i closed
      obtain ⟨-, ofTree⟩ := completes closed
      refine ⟨ofTree, ?_⟩
      rw [← lexemes_complete closed]
      rfl
  | name | number | string | not | scope | openBrace | unreadable => cases stepped

private theorem explains_step {state next : ReaderState} {token : Token}
    (wellFormed : state.WellFormed) (occurs : token.Occurs)
    (stepped : state.step token = some next) : next.Explains (state.consumed ++ [token]) := by
  cases state with
  | operand stack =>
      exact explains_stepOperand wellFormed occurs stepped
  | operator stack value =>
      obtain ⟨ofStack, ofValue⟩ := wellFormed
      rw [ReaderState.consumed, List.append_assoc]
      exact explains_stepOperator ofStack ofValue occurs stepped
  | named stack qualifier ident =>
      obtain ⟨ofStack, areNames, isName⟩ := wellFormed
      by_cases isScope : token = .scope
      · subst isScope
        cases stepped
        refine ⟨⟨ofStack, forall_mem_concat areNames isName⟩, ?_⟩
        simp [ReaderState.consumed, lexemes]
      · have ofOperator : ReaderState.stepOperator stack (.name qualifier ident) token =
            some next := by
          rw [← stepped]
          cases token <;> first | rfl | exact absurd rfl isScope
        rw [ReaderState.consumed, List.append_assoc]
        exact explains_stepOperator ofStack (.tighter rfl (.name areNames isName)) occurs
          ofOperator
  | qualified stack path =>
      obtain ⟨ofStack, areNames⟩ := wellFormed
      cases token <;> cases stepped
      obtain ⟨_, isName⟩ := occurs.resolve_left (by simp)
      refine ⟨⟨ofStack, areNames, isName⟩, ?_⟩
      simp [ReaderState.consumed, lexemes]
  | selecting stack value =>
      obtain ⟨ofStack, ofValue⟩ := wellFormed
      cases token <;> cases stepped
      obtain ⟨_, isName⟩ := occurs.resolve_left (by simp)
      refine ⟨⟨ofStack, .member ofValue isName⟩, ?_⟩
      simp [ReaderState.consumed, lexemes]
  | done tree => cases stepped

/-! ### Runs -/

theorem exists_step_of_readTokens {state : ReaderState} {token : Token} {rest : List Token}
    {tree : Expr} (reads : readTokens state (token :: rest) = .ok tree) :
    ∃ next, state.step token = some next ∧ readTokens next rest = .ok tree := by
  cases stepped : state.step token with
  | none => cases state <;> simp [readTokens, stepped] at reads
  | some next => exact ⟨next, rfl, by rwa [readTokens_of_step stepped] at reads⟩

/-- The tokens before the end marker of an accepted run are those of the tree. -/
theorem explains_readTokens {state : ReaderState} {written : List Token} {tree : Expr}
    {afterOperand : Bool} (wellFormed : state.WellFormed) (placed : Placed afterOperand written)
    (reads : readTokens state (written ++ [.endOfText]) = .ok tree) :
    Derives .ternary tree ∧ state.consumed ++ written = tree.lexemes := by
  induction written generalizing state afterOperand with
  | nil =>
      obtain ⟨next, stepped, readsNext⟩ := exists_step_of_readTokens reads
      have explains := explains_step wellFormed (Or.inl rfl) stepped
      cases next with
      | done result =>
          cases readsNext
          have consumes : tree.lexemes ++ [.endOfText] = state.consumed ++ [.endOfText] :=
            explains.consumes
          rw [List.append_nil]
          exact ⟨explains.wellFormed, (List.append_cancel_right consumes).symm⟩
      | operand | named | qualified | selecting | operator => cases readsNext
  | cons token rest inductionHypothesis =>
      obtain ⟨mayStand, placedRest⟩ := placed
      obtain ⟨next, stepped, readsNext⟩ := exists_step_of_readTokens reads
      have explains := explains_step wellFormed (Or.inr ⟨_, mayStand⟩) stepped
      obtain ⟨derives, consumes⟩ := inductionHypothesis explains.wellFormed placedRest readsNext
      rw [explains.consumes, List.append_assoc] at consumes
      exact ⟨derives, consumes⟩

private theorem step_unreadable (state : ReaderState) : state.step .unreadable = none := by
  cases state <;> rfl

/-- No tree comes of a text with an unreadable place. -/
theorem readTokens_unreadable {state : ReaderState} {written : List Token} {tree : Expr} :
    readTokens state (written ++ [.unreadable]) ≠ .ok tree := by
  intro reads
  induction written generalizing state with
  | nil =>
      obtain ⟨next, stepped, -⟩ := exists_step_of_readTokens reads
      rw [step_unreadable] at stepped
      cases stepped
  | cons token rest inductionHypothesis =>
      obtain ⟨next, -, readsNext⟩ := exists_step_of_readTokens reads
      exact inductionHypothesis readsNext

/-- A text that is read is divided into the lexemes of its tree, which is one of the grammar. -/
theorem derives_of_parse {text : String} {tree : Expr} (reads : parse text = .ok tree) :
    Derives .ternary tree ∧ tokens false text.toList = tree.lexemes ++ [.endOfText] := by
  unfold parse at reads
  obtain ⟨written, divided | divided⟩ := tokens_ends false text.toList
  · rw [divided] at reads
    obtain ⟨placed, -⟩ := writes_of_tokens divided
    have atStart : (ReaderState.operand []).WellFormed := trivial
    obtain ⟨derives, consumes⟩ := explains_readTokens atStart placed reads
    obtain rfl : written = tree.lexemes := consumes
    exact ⟨derives, divided⟩
  · rw [divided] at reads
    exact absurd reads readTokens_unreadable

/-- A text that is read as a tree spells this tree, with spacing allowed anywhere between its
lexemes, and the tree is one of the grammar. -/
theorem read_tree_is_spelled {text : String} {tree : Expr} (reads : parse text = .ok tree) :
    Derives .ternary tree ∧ Spells Spacing text tree := by
  obtain ⟨derives, divided⟩ := derives_of_parse reads
  obtain ⟨-, lead, cs, spelled, spaced, nothing | writes⟩ := writes_of_tokens divided
  · rw [parse, divided, nothing.1] at reads
    cases reads
  · exact ⟨derives, lead, cs, spelled, spaced, writes⟩

namespace Sample

/-- The lexemes of `spelledTree` with hardly any spacing. -/
def tightSpelling : String := "a-.5-b!='c'?at::f(a,{})\n:!d.e[0]"

private theorem parse_tightSpelling : parse tightSpelling = .ok spelledTree := by
  with_unfolding_all rfl

theorem tightSpelling_is_spelled :
    parse tightSpelling = .ok spelledTree ∧
      Derives .ternary spelledTree ∧ Spells Spacing tightSpelling spelledTree :=
  ⟨parse_tightSpelling, read_tree_is_spelled parse_tightSpelling⟩

end Sample

end TensorBindings.Expr
