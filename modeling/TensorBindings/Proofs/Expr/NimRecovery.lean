import TensorBindings.Proofs.Expr.NimLexemes
import TensorBindings.Proofs.Expr.Soundness

/-!
Contract: the Nim text of a tree determines the tree up to spelling.

Owns:
- the normal form of a tree, in which only differences of spelling are gone;
- the recovery of the normal form from the text, and `recover_nimText`: it succeeds on the text
  of every tree of the grammar;
- that two trees that were read have one text exactly if they have one normal form.

Lexemes are recovered from right to left. From the left it depends on how many words follow
whether `not`, `and` or `if` is a name; from the right a word before a space is a name only if
the space belongs to an operator or to `else`, which have been met by then.

Does not own: the division of a text into lexemes (`Proofs.Expr.NimLexemes`).
-/

set_option autoImplicit false

namespace TensorBindings.Expr

/-! ### Normal form -/

mutual

/-- The tree with `change` applied at every node, from the leaves up. -/
def rebuild (change : Expr → Expr) : Expr → Expr
  | .name qualifier ident => change (.name qualifier ident)
  | .number text => change (.number text)
  | .string text => change (.string text)
  | .member value field => change (.member (rebuild change value) field)
  | .call callee arguments =>
      change (.call (rebuild change callee) (rebuildAll change arguments))
  | .index value position =>
      change (.index (rebuild change value) (rebuild change position))
  | .unary op operand => change (.unary op (rebuild change operand))
  | .binary op left right => change (.binary op (rebuild change left) (rebuild change right))
  | .ternary condition thenValue elseValue =>
      change (.ternary (rebuild change condition) (rebuild change thenValue)
        (rebuild change elseValue))
  | .list items => change (.list (rebuildAll change items))
  | .paren inner => change (.paren (rebuild change inner))
  | .hole => change .hole

def rebuildAll (change : Expr → Expr) : List Expr → List Expr
  | [] => []
  | tree :: rest => rebuild change tree :: rebuildAll change rest

end

private theorem rebuildAll_eq_map (change : Expr → Expr) (trees : List Expr) :
    rebuildAll change trees = trees.map (rebuild change) := by
  induction trees with
  | nil => rfl
  | cons tree rest inductionHypothesis => rw [rebuildAll, inductionHypothesis, List.map_cons]

/-- The names of a path, each a member of the one before it. -/
def memberChain : List String → String → Expr
  | [], ident => .name [] ident
  | first :: rest, ident => .member (rest.foldl .member (.name [] first)) ident

/-- The operand of a sign without parentheses around an operator before its operand. -/
def signOperand (op : UnaryOp) : Expr → Expr
  | .paren (.unary inner operand) =>
      if op.isSign then .unary inner operand else .paren (.unary inner operand)
  | operand => operand

/-- Written qualifiers become members, numbers are those of Nim, and a sign stands right before
another operator. -/
def normalNode : Expr → Expr
  | .name qualifier ident => memberChain (qualifier.filter (· ∉ droppedQualifiers)) ident
  | .number text => .number (Number.toNim text)
  | .unary op operand => .unary op (signOperand op operand)
  | tree => tree

/-- The tree without differences of spelling. -/
def normal (tree : Expr) : Expr := tree.rebuild normalNode

/-! ### The tree with all its parentheses -/

/-- A node with the parentheses that its Nim text has. -/
def spelledNode : Expr → Expr
  | .name qualifier ident => memberChain (qualifier.filter (· ∉ droppedQualifiers)) ident
  | .number text => .number (Number.toNim text)
  | .unary op operand =>
      if op.isSign ∧ operand.isUnary then .unary op (.paren operand) else .unary op operand
  | .ternary condition thenValue elseValue => .paren (.ternary condition thenValue elseValue)
  | tree => tree

/-- The tree whose formula has the lexemes of the Nim text, as far as the two languages have
them in common. -/
def spelledOut (tree : Expr) : Expr := tree.rebuild spelledNode

def isTernary : Expr → Bool
  | .ternary _ _ _ => true
  | _ => false

mutual

/-- The tree without the parentheses that a text always has. -/
def condense : Expr → Expr
  | .paren inner => if inner.isTernary then condense inner else .paren (condense inner)
  | .unary op operand => .unary op (signOperand op (condense operand))
  | .member value field => .member (condense value) field
  | .call callee arguments => .call (condense callee) (condenseAll arguments)
  | .index value position => .index (condense value) (condense position)
  | .binary op left right => .binary op (condense left) (condense right)
  | .ternary condition thenValue elseValue =>
      .ternary (condense condition) (condense thenValue) (condense elseValue)
  | .list items => .list (condenseAll items)
  | .name qualifier ident => .name qualifier ident
  | .number text => .number text
  | .string text => .string text
  | .hole => .hole

def condenseAll : List Expr → List Expr
  | [] => []
  | tree :: rest => condense tree :: condenseAll rest

end

private theorem condenseAll_eq_map (trees : List Expr) :
    condenseAll trees = trees.map condense := by
  induction trees with
  | nil => rfl
  | cons tree rest inductionHypothesis => rw [condenseAll, inductionHypothesis, List.map_cons]

section MemberChain

private theorem isUnary_memberChain (qualifier : List String) (ident : String) :
    (memberChain qualifier ident).isUnary = false := by
  cases qualifier <;> rfl

private theorem isTernary_memberChain (qualifier : List String) (ident : String) :
    (memberChain qualifier ident).isTernary = false := by
  cases qualifier <;> rfl

private theorem condense_memberChain (qualifier : List String) (ident : String) :
    condense (memberChain qualifier ident) = memberChain qualifier ident := by
  have ofMembers (fields : List String) : ∀ value, condense value = value →
      condense (fields.foldl .member value) = fields.foldl .member value := by
    induction fields with
    | nil => exact fun value same => same
    | cons field rest inductionHypothesis =>
        intro value same
        apply inductionHypothesis
        rw [condense, same]
  cases qualifier with
  | nil => rfl
  | cons first rest => rw [memberChain, condense, ofMembers rest _ rfl]

private theorem derives_memberChain {qualifier : List String} {ident : String}
    (areNames : ∀ part ∈ qualifier, IsName part) (isName : IsName ident) :
    Derives .suffixed (memberChain qualifier ident) := by
  have single {text : String} (isName : IsName text) : Derives .suffixed (.name [] text) :=
    .tighter rfl (.name (List.forall_mem_nil _) isName)
  have ofMembers (fields : List String) (areFields : ∀ field ∈ fields, IsName field) :
      ∀ value, Derives .suffixed value → Derives .suffixed (fields.foldl .member value) := by
    induction fields with
    | nil => exact fun value derives => derives
    | cons field rest inductionHypothesis =>
        intro value derives
        obtain ⟨isField, areRest⟩ := List.forall_mem_cons.mp areFields
        exact inductionHypothesis areRest _ (.member derives isField)
  cases qualifier with
  | nil => exact single isName
  | cons first rest =>
      obtain ⟨isFirst, areRest⟩ := List.forall_mem_cons.mp areNames
      exact .member (ofMembers rest areRest _ (single isFirst)) isName

private theorem lexemes_memberChain (qualifier : List String) (ident : String) :
    (memberChain qualifier ident).lexemes =
      qualifier.flatMap (fun part => [.name part, .dot]) ++ [.name ident] := by
  have ofMembers (fields : List String) : ∀ value : Expr,
      (fields.foldl .member value).lexemes ++ [.dot] =
        value.lexemes ++ .dot :: fields.flatMap (fun part => [.name part, .dot]) := by
    induction fields with
    | nil => exact fun value => rfl
    | cons field rest inductionHypothesis =>
        intro value
        rw [List.foldl_cons, inductionHypothesis, lexemes]
        simp
  cases qualifier with
  | nil => rfl
  | cons first rest =>
      have chained := ofMembers rest (.name [] first)
      rw [memberChain, lexemes, ← List.singleton_append, ← List.append_assoc, chained]
      simp [lexemes]

private theorem nimText_memberChain (qualifier : List String) (ident : String) :
    (memberChain qualifier ident).nimText = ".".intercalate (qualifier ++ [ident]) := by
  have ofMembers (fields : List String) (last : String) : ∀ value : Expr,
      (fields.foldl .member value).nimText ++ "." ++ last =
        value.nimText ++ "." ++ ".".intercalate (fields ++ [last]) := by
    induction fields with
    | nil =>
        intro value
        rw [List.nil_append, String.intercalate_singleton]
        rfl
    | cons field rest inductionHypothesis =>
        intro value
        rw [List.foldl_cons, inductionHypothesis, List.cons_append,
          String.intercalate_cons_of_ne_nil (by simp), nimText]
        simp only [String.append_assoc]
  have single (text : String) : nimText (.name [] text) = text := by
    rw [nimText, List.filter_nil, List.nil_append, String.intercalate_singleton]
  cases qualifier with
  | nil => rw [List.nil_append, String.intercalate_singleton, memberChain, single]
  | cons first rest =>
      rw [memberChain, nimText, ofMembers, single, List.cons_append,
        String.intercalate_cons_of_ne_nil (by simp)]

end MemberChain

/-! ### Forms of rebuilt trees -/

private theorem isUnary_normal (tree : Expr) : tree.normal.isUnary = tree.isUnary := by
  cases tree with
  | name qualifier ident => exact isUnary_memberChain _ ident
  | _ => rfl

private theorem isUnary_spelledOut (tree : Expr) : tree.spelledOut.isUnary = tree.isUnary := by
  cases tree with
  | name qualifier ident => exact isUnary_memberChain _ ident
  | unary op operand =>
      simp only [spelledOut, rebuild, spelledNode]
      split_ifs <;> rfl
  | _ => rfl

private theorem spelledOut_unary (op : UnaryOp) (operand : Expr) :
    (Expr.unary op operand).spelledOut =
      if op.isSign ∧ operand.isUnary then .unary op (.paren operand.spelledOut)
      else .unary op operand.spelledOut := by
  rw [← isUnary_spelledOut operand]
  rfl

private theorem isTernary_spelledOut (tree : Expr) : tree.spelledOut.isTernary = false := by
  cases tree with
  | name qualifier ident => exact isTernary_memberChain _ ident
  | unary op operand =>
      rw [spelledOut_unary]
      split_ifs <;> rfl
  | _ => rfl

private theorem condense_paren (inner : Expr) :
    condense (.paren inner.spelledOut) = .paren (condense inner.spelledOut) := by
  rw [condense, isTernary_spelledOut]
  rfl

private theorem signOperand_paren {op : UnaryOp} {operand : Expr} (isSign : op.isSign = true)
    (isUnary : operand.isUnary = true) :
    signOperand op (.paren operand) = signOperand op operand := by
  cases operand with
  | unary inner innermost => exact if_pos isSign
  | _ => cases isUnary

/-- The parentheses around a ternary are those it always has. -/
theorem condense_spelledOut {category : Category} {tree : Expr} (derives : Derives category tree) :
    condense tree.spelledOut = tree.normal := by
  have ofAll {trees : List Expr}
      (ofEach : ∀ tree ∈ trees, condense tree.spelledOut = tree.normal) :
      condenseAll (rebuildAll spelledNode trees) = rebuildAll normalNode trees := by
    rw [condenseAll_eq_map, rebuildAll_eq_map, rebuildAll_eq_map, List.map_map]
    exact List.map_congr_left ofEach
  induction derives with
  | tighter isNext inner inductionHypothesis => exact inductionHypothesis
  | name areNames isName => exact condense_memberChain _ _
  | number isNumber => rfl
  | string isQuoted => rfl
  | member ofValue isName condensed => exact congrArg (Expr.member · _) condensed
  | call ofCallee ofArguments condensed condensedEach =>
      exact congrArg₂ Expr.call condensed (ofAll condensedEach)
  | index ofValue ofPosition condensedValue condensedPosition =>
      exact congrArg₂ Expr.index condensedValue condensedPosition
  | binary isOperator isNext ofLeft ofRight condensedLeft condensedRight =>
      exact congrArg₂ (Expr.binary _) condensedLeft condensedRight
  | @ternary condition thenValue elseValue ofCondition ofThen ofElse condensedCondition
      condensedThen condensedElse =>
      calc condense (Expr.ternary condition thenValue elseValue).spelledOut
          = .ternary (condense condition.spelledOut) (condense thenValue.spelledOut)
              (condense elseValue.spelledOut) := rfl
        _ = (Expr.ternary condition thenValue elseValue).normal := by
            rw [condensedCondition, condensedThen, condensedElse]
            rfl
  | list ofItems condensedEach => exact congrArg Expr.list (ofAll condensedEach)
  | @paren inner ofInner condensed =>
      calc condense (Expr.paren inner).spelledOut
          = .paren (condense inner.spelledOut) := condense_paren inner
        _ = (Expr.paren inner).normal := congrArg Expr.paren condensed
  | @unary op operand isOperator ofOperand condensed =>
      have asNormal : (Expr.unary op operand).normal =
          .unary op (signOperand op operand.normal) := rfl
      rw [spelledOut_unary, asNormal]
      split_ifs with wrapped
      · have isUnary : operand.normal.isUnary = true := by rw [isUnary_normal, wrapped.2]
        rw [condense, condense_paren, condensed, signOperand_paren wrapped.1 isUnary]
      · rw [condense, condensed]

/-- What a category becomes when names become chains of members. -/
def Category.spelledOut : Category → Category
  | primary => suffixed
  | category => category

theorem Derives.tighterSpelledOut {category next : Category} {tree : Expr}
    (isNext : category.tighter? = some next) (inner : Derives next.spelledOut tree) :
    Derives category.spelledOut tree := by
  cases category <;> cases isNext <;> first
    | exact inner
    | exact .tighter rfl inner

theorem Derives.binarySpelledOut {category next : Category} {op : BinaryOp} {left right : Expr}
    (isOperator : op ∈ category.operators) (isNext : category.tighter? = some next)
    (ofLeft : Derives category.spelledOut left) (ofRight : Derives next.spelledOut right) :
    Derives category.spelledOut (.binary op left right) := by
  have sameCategory : category.spelledOut = category := by
    cases category <;> first | rfl | cases isOperator
  have sameNext : next.spelledOut = next := by
    cases category <;> cases isNext <;> first | rfl | cases isOperator
  rw [sameCategory] at ofLeft ⊢
  rw [sameNext] at ofRight
  exact .binary isOperator isNext ofLeft ofRight

theorem Derives.spelledOut {category : Category} {tree : Expr} (derives : Derives category tree) :
    Derives category.spelledOut tree.spelledOut := by
  have ofAll {trees : List Expr}
      (ofEach : ∀ tree ∈ trees, Derives Category.ternary tree.spelledOut) :
      ∀ tree ∈ rebuildAll spelledNode trees, Derives .ternary tree := by
    rw [rebuildAll_eq_map]
    exact List.forall_mem_map.mpr ofEach
  have atPrimary {tree : Expr} (derives : Derives .primary tree) : Derives .suffixed tree :=
    .tighter rfl derives
  induction derives with
  | tighter isNext inner inductionHypothesis => exact .tighterSpelledOut isNext inductionHypothesis
  | name areNames isName =>
      exact derives_memberChain
        (fun part member => areNames part (List.mem_filter.mp member).1) isName
  | number isNumber => exact atPrimary (.number (isNimNumber_toNim isNumber).isNumber)
  | string isQuoted => exact atPrimary (.string isQuoted)
  | member ofValue isName spelled => exact .member spelled isName
  | call ofCallee ofArguments spelled spelledEach => exact .call spelled (ofAll spelledEach)
  | index ofValue ofPosition spelledValue spelledPosition =>
      exact .index spelledValue spelledPosition
  | binary isOperator isNext ofLeft ofRight spelledLeft spelledRight =>
      exact .binarySpelledOut isOperator isNext spelledLeft spelledRight
  | ternary ofCondition ofThen ofElse spelledCondition spelledThen spelledElse =>
      have grouped := Derives.paren (.ternary spelledCondition spelledThen spelledElse)
      exact grouped.of_level_le (by decide)
  | list ofItems spelledEach => exact atPrimary (.list (ofAll spelledEach))
  | paren ofInner spelled => exact atPrimary (.paren spelled)
  | @unary op operand isOperator ofOperand spelled =>
      rw [spelledOut_unary]
      split_ifs
      · have grouped := Derives.paren (spelled.of_level_le (by decide : Category.ternary.level ≤ _))
        exact .unary isOperator (grouped.of_level_le (by decide))
      · exact .unary isOperator spelled

/-! ### Recovery of the tokens -/

/-- What stands to the left of the place that recovery has reached. -/
inductive Awaits where
  /-- An operand, or what adjoins an operand without a space. -/
  | operand
  /-- A keyword, an operator or a separator, whose space has been met. -/
  | keyword
  /-- The space before an operator or the word `else`. -/
  | space
  /-- The word `else`, whose colon has been met. -/
  | elseWord
deriving DecidableEq, Repr

/-- The tokens to the right of a place, within the innermost brackets around it and outside of
them. -/
structure Recovery where
  awaits : Awaits
  /-- The colon of `else` was met within the innermost brackets. -/
  inThen : Bool
  tokens : List Token
  outer : List (Bool × List Token)

namespace Recovery

def put (state : Recovery) (awaits : Awaits) (token : Token) : Recovery :=
  { state with awaits, tokens := token :: state.tokens }

def enter (state : Recovery) : Recovery :=
  ⟨.operand, false, [], (state.inThen, state.tokens) :: state.outer⟩

def leave (state : Recovery) (opening closing : Token) : Recovery :=
  match state.outer with
  | (inThen, tokens) :: outer =>
      ⟨.operand, inThen, opening :: (state.tokens ++ closing :: tokens), outer⟩
  | [] => state

/-- A token that no space follows. -/
def adjoin (state : Recovery) : Token → Recovery
  | .closeParen | .closeBracket => state.enter
  | .openParen => state.leave .openParen .closeParen
  | .openBracket => state.leave .openBracket .closeBracket
  | token => state.put .operand token

/-- A token that a space follows. -/
def separate (state : Recovery) : Token → Recovery
  | .name word =>
      if word = "if" then { state with awaits := .operand }
      else if word = "not" then state.put .operand .not
      else if word = "or" then state.put .space (.operator .or)
      else if word = "and" then state.put .space (.operator .and)
      else state.put .space (.operator .mod)
  | .colon =>
      if state.inThen then { state.put .operand .question with inThen := false }
      else { state.put .elseWord .colon with inThen := true }
  | .comma => state.put .operand .comma
  | token => state.put .space token

/-- One lexeme more to the left. -/
def extend (lexeme : NimLexeme) (state : Recovery) : Recovery :=
  match state.awaits, lexeme with
  | _, .openList => state.leave .openBrace .closeBrace
  | .space, .space => { state with awaits := .operand }
  | _, .space => { state with awaits := .keyword }
  | .operand, .token token => state.adjoin token
  | .keyword, .token token => state.separate token
  | _, .token _ => { state with awaits := .space }

/-- The lexemes are recovered as these tokens, whatever stands to their right. -/
def Yields (form : List NimLexeme) (tokens : List Token) : Prop :=
  ∀ inThen right outer, form.foldr extend ⟨.operand, inThen, right, outer⟩ =
    ⟨.operand, inThen, tokens ++ right, outer⟩

theorem Yields.append {left right : List NimLexeme} {leftTokens rightTokens : List Token}
    (yieldsLeft : Yields left leftTokens) (yieldsRight : Yields right rightTokens) :
    Yields (left ++ right) (leftTokens ++ rightTokens) := by
  intro inThen behind outer
  rw [List.foldr_append, yieldsRight, yieldsLeft, List.append_assoc]

/-- Brackets around lexemes are put around their tokens. -/
theorem Yields.enclose {form : List NimLexeme} {tokens : List Token} (yields : Yields form tokens)
    {opening closing : NimLexeme} {first last : Token}
    (enters : ∀ inThen right outer, extend closing ⟨.operand, inThen, right, outer⟩ =
      ⟨.operand, false, [], (inThen, right) :: outer⟩)
    (leaves : ∀ inThen right outer, extend opening ⟨.operand, inThen, right, outer⟩ =
      leave ⟨.operand, inThen, right, outer⟩ first last) :
    Yields (opening :: (form ++ [closing])) (first :: (tokens ++ [last])) := by
  intro inThen right outer
  rw [List.foldr_cons, List.foldr_append, List.foldr_cons, List.foldr_nil, enters, yields, leaves]
  simp only [leave, List.append_nil, List.append_assoc, List.cons_append, List.nil_append]

private theorem yields_path (qualifier : List String) (ident : String) :
    Yields (pathForm qualifier ident) (memberChain qualifier ident).lexemes := by
  intro inThen right outer
  rw [lexemes_memberChain, pathForm]
  induction qualifier with
  | nil => rfl
  | cons part parts inductionHypothesis =>
      rw [List.flatMap_cons, List.append_assoc, List.foldr_append, inductionHypothesis]
      rfl

private theorem yields_all {trees : List Expr}
    (yieldsEach : ∀ tree ∈ trees, Yields tree.nimForm tree.spelledOut.lexemes) :
    Yields (nimFormOfAll trees) (lexemesOfAll (trees.map Expr.spelledOut)) := by
  intro inThen right outer
  match trees, yieldsEach with
  | [], _ => rfl
  | [tree], yieldsEach => exact yieldsEach tree List.mem_cons_self inThen right outer
  | tree :: next :: rest, yieldsEach =>
      obtain ⟨yields, yieldsOthers⟩ := List.forall_mem_cons.mp yieldsEach
      have ofOthers := yields_all yieldsOthers inThen right outer
      rw [nimFormOfAll, List.foldr_append, List.foldr_cons, List.foldr_cons, ofOthers]
      simp only [List.map_cons, lexemesOfAll, List.append_assoc, List.cons_append]
      exact yields inThen _ outer
termination_by trees.length

private theorem yields_unaryOp {op : UnaryOp} (isOperator : op ∈ [UnaryOp.plus, .minus, .not]) :
    Yields (unaryNimForm op) [unaryToken op] := by
  cases op with
  | plus | minus | not => exact fun _ _ _ => rfl
  | custom symbol => simp at isOperator

private theorem yields_binaryOp {category : Category} {op : BinaryOp}
    (isOperator : op ∈ category.operators) :
    Yields [.space, .token (binaryNimToken op), .space] [.operator op] := by
  cases op with
  | custom symbol => cases category <;> simp [Category.operators] at isOperator
  | _ => exact fun _ _ _ => rfl

/-- The lexemes of a tree are recovered as the tokens of the tree with all its parentheses. -/
theorem yields_nimForm {category : Category} {tree : Expr} (derives : Derives category tree) :
    Yields tree.nimForm tree.spelledOut.lexemes := by
  have ofAll {trees : List Expr}
      (yieldsEach : ∀ tree ∈ trees, Yields tree.nimForm tree.spelledOut.lexemes) :
      Yields (nimFormOfAll trees) (lexemesOfAll (rebuildAll spelledNode trees)) := by
    rw [rebuildAll_eq_map]
    exact yields_all yieldsEach
  have parens {form : List NimLexeme} {tokens : List Token} (yields : Yields form tokens) :
      Yields (.token .openParen :: (form ++ [.token .closeParen]))
        (.openParen :: (tokens ++ [.closeParen])) :=
    yields.enclose (fun _ _ _ => rfl) (fun _ _ _ => rfl)
  induction derives with
  | tighter isNext inner inductionHypothesis => exact inductionHypothesis
  | name areNames isName => exact yields_path _ _
  | number isNumber => exact fun _ _ _ => rfl
  | string isQuoted => exact fun _ _ _ => rfl
  | @member value field ofValue isName yields =>
      have ofField : Yields [.token .dot, .token (.name field)] [.dot, .name field] :=
        fun _ _ _ => rfl
      exact yields.append ofField
  | call ofCallee ofArguments yields yieldsEach => exact yields.append (parens (ofAll yieldsEach))
  | index ofValue ofPosition yieldsValue yieldsPosition =>
      exact yieldsValue.append (yieldsPosition.enclose (fun _ _ _ => rfl) (fun _ _ _ => rfl))
  | binary isOperator isNext ofLeft ofRight yieldsLeft yieldsRight =>
      exact yieldsLeft.append ((yields_binaryOp isOperator).append yieldsRight)
  | list ofItems yieldsEach =>
      exact (ofAll yieldsEach).enclose (fun _ _ _ => rfl) (fun _ _ _ => rfl)
  | paren ofInner yields => exact parens yields
  | unary isOperator ofOperand yields =>
      rw [nimForm, spelledOut_unary]
      split_ifs
      · exact (yields_unaryOp isOperator).append (parens yields)
      · exact (yields_unaryOp isOperator).append yields
  | @ternary condition thenValue elseValue ofCondition ofThen ofElse yieldsCondition yieldsThen
      yieldsElse =>
      intro inThen right outer
      have atClose : extend (.token .closeParen) ⟨.operand, inThen, right, outer⟩ =
          ⟨.operand, false, [], (inThen, right) :: outer⟩ := rfl
      -- The first colon from the right is that of `else`, the second one ends the condition.
      have atElse (tokens : List Token) (outer : List (Bool × List Token)) :
          extend .space (extend (.token (.name "else")) (extend (.token .colon)
            (extend .space ⟨.operand, false, tokens, outer⟩))) =
          ⟨.operand, true, .colon :: tokens, outer⟩ := rfl
      have atThen (tokens : List Token) (outer : List (Bool × List Token)) :
          extend (.token .colon) (extend .space ⟨.operand, true, tokens, outer⟩) =
          ⟨.operand, false, .question :: tokens, outer⟩ := rfl
      have atIf (tokens : List Token) :
          extend (.token .openParen) (extend (.token (.name "if"))
            (extend .space ⟨.operand, false, tokens, (inThen, right) :: outer⟩)) =
          ⟨.operand, inThen, .openParen :: (tokens ++ .closeParen :: right), outer⟩ := rfl
      simp only [nimForm, List.foldr_cons, List.foldr_append, List.foldr_nil]
      rw [atClose, yieldsElse, atElse, yieldsThen, atThen, yieldsCondition, atIf]
      simp [spelledOut, rebuild, spelledNode, lexemes]

end Recovery

/-! ### Recovery of the tree -/

/-- The normal form of the tree whose Nim text this is. -/
def recover (text : String) : Except SyntaxFault Expr :=
  (readTokens (.operand [])
    (((nimLexemes text.toList).foldr Recovery.extend ⟨.operand, false, [], []⟩).tokens ++
      [.endOfText])).map condense

theorem recover_nimText {tree : Expr} (derives : Derives .ternary tree) :
    recover tree.nimText = .ok tree.normal := by
  have divided : nimLexemes tree.nimText.toList = tree.nimForm := by
    have atEnd := dividesAs_nimText derives [] .nothing
    rwa [List.append_nil, nimLexemes, List.append_nil] at atEnd
  have recovered := Recovery.yields_nimForm derives false [] []
  rw [recover, divided, recovered, List.append_nil, readTokens_lexemes derives.spelledOut,
    Except.map, condense_spelledOut derives]

/-! ### Texts and normal forms -/

private theorem nimText_signOperand (op : UnaryOp) (operand : Expr) :
    nimText (.unary op (signOperand op operand)) = nimText (.unary op operand) := by
  unfold signOperand
  split
  · rename_i inner innermost
    by_cases isSign : op.isSign = true
    · have bare : nimText (.unary op (.unary inner innermost)) =
          op.nimText ++ "(" ++ nimText (.unary inner innermost) ++ ")" :=
        if_pos ⟨isSign, rfl⟩
      have grouped : nimText (.unary op (.paren (.unary inner innermost))) =
          op.nimText ++ ("(" ++ nimText (.unary inner innermost) ++ ")") :=
        if_neg (fun both => nomatch both.2)
      rw [if_pos isSign, bare, grouped]
      simp only [String.append_assoc]
    · rw [if_neg isSign]
  · rfl

private theorem nimTexts_eq_map (trees : List Expr) : nimTexts trees = trees.map nimText := by
  induction trees with
  | nil => rfl
  | cons tree rest inductionHypothesis => rw [nimTexts, inductionHypothesis, List.map_cons]

/-- The normal form has the text of the tree. -/
theorem nimText_normal {category : Category} {tree : Expr} (derives : Derives category tree) :
    tree.normal.nimText = tree.nimText := by
  have ofAll {trees : List Expr} (ofEach : ∀ tree ∈ trees, tree.normal.nimText = tree.nimText) :
      nimTexts (rebuildAll normalNode trees) = nimTexts trees := by
    rw [nimTexts_eq_map, nimTexts_eq_map, rebuildAll_eq_map, List.map_map]
    exact List.map_congr_left ofEach
  induction derives with
  | tighter isNext inner inductionHypothesis => exact inductionHypothesis
  | name areNames isName => exact nimText_memberChain _ _
  | number isNumber => exact toNim_eq_self (isNimNumber_toNim isNumber)
  | string isQuoted => rfl
  | member ofValue isName same => exact congrArg (· ++ "." ++ _) same
  | call ofCallee ofArguments same sameEach =>
      exact congrArg₂ (fun callee arguments => callee ++ "(" ++ ", ".intercalate arguments ++ ")")
        same (ofAll sameEach)
  | index ofValue ofPosition sameValue samePosition =>
      exact congrArg₂ (fun value position => value ++ "[" ++ position ++ "]") sameValue samePosition
  | binary isOperator isNext ofLeft ofRight sameLeft sameRight =>
      exact congrArg₂ (fun left right => left ++ " " ++ BinaryOp.nimText _ ++ " " ++ right)
        sameLeft sameRight
  | @ternary condition thenValue elseValue ofCondition ofThen ofElse sameCondition sameThen
      sameElse =>
      have asNormal : (Expr.ternary condition thenValue elseValue).normal =
          .ternary condition.normal thenValue.normal elseValue.normal := rfl
      rw [asNormal, nimText, nimText, sameCondition, sameThen, sameElse]
  | list ofItems sameEach =>
      exact congrArg (fun items => "@[" ++ ", ".intercalate items ++ "]") (ofAll sameEach)
  | paren ofInner same => exact congrArg ("(" ++ · ++ ")") same
  | @unary op operand isOperator ofOperand same =>
      calc (Expr.unary op operand).normal.nimText
          = nimText (.unary op operand.normal) := nimText_signOperand op operand.normal
        _ = nimText (.unary op operand) := by
            rw [nimText, nimText, isUnary_normal, same]

private theorem Mantissa.ne_nil {mantissa : List Char} (isMantissa : Mantissa mantissa) :
    mantissa ≠ [] := by
  cases isMantissa with
  | whole nonempty areDigits => exact nonempty
  | pointed nonempty areDigits areDecimals => simp
  | leadingPoint nonempty areDecimals => simp

theorem faultOfAll?_eq_none_iff {trees : List Expr} :
    faultOfAll? trees = none ↔ ∀ tree ∈ trees, tree.fault? = none := by
  induction trees with
  | nil => simp [faultOfAll?]
  | cons tree rest inductionHypothesis =>
      rw [faultOfAll?, Option.or_eq_none_iff, inductionHypothesis, List.forall_mem_cons]

/-- Nothing in a tree of the grammar stands in the way of a text. -/
theorem fault?_of_derives {category : Category} {tree : Expr} (derives : Derives category tree) :
    tree.fault? = none := by
  induction derives with
  | tighter isNext inner inductionHypothesis => exact inductionHypothesis
  | name areNames isName => rfl
  | @number text isNumber =>
      have nonempty : text ≠ "" := by
        rintro rfl
        obtain ⟨mantissa, exponent, width, spelled, isMantissa, -, -⟩ := isNumber
        exact isMantissa.ne_nil (List.append_eq_nil_iff.mp spelled.symm).1
      exact if_neg nonempty
  | string isQuoted => rfl
  | member ofValue isName ofValueFault => exact ofValueFault
  | call ofCallee ofArguments ofCalleeFault ofEach =>
      rw [fault?, faultOfAll?_eq_none_iff.mpr ofEach, ofCalleeFault]
      rfl
  | index ofValue ofPosition first second => rw [fault?, first, second]; rfl
  | unary isOperator ofOperand first => exact first
  | binary isOperator isNext ofLeft ofRight first second => rw [fault?, first, second]; rfl
  | ternary ofCondition ofThen ofElse first second third =>
      rw [fault?, first, second, third]
      rfl
  | list ofItems ofEach => exact faultOfAll?_eq_none_iff.mpr ofEach
  | paren ofInner first => exact first

/-- A tree of the grammar has a text. -/
theorem toNim_of_derives {category : Category} {tree : Expr} (derives : Derives category tree) :
    tree.toNim = .ok tree.nimText := by
  rw [toNim, fault?_of_derives derives]

/-- Trees of the grammar with one text have one normal form. -/
theorem nimText_eq_iff {left right : Expr} (derivesLeft : Derives .ternary left)
    (derivesRight : Derives .ternary right) :
    left.nimText = right.nimText ↔ left.normal = right.normal := by
  constructor
  · intro same
    have recovered := recover_nimText derivesLeft
    rw [same, recover_nimText derivesRight] at recovered
    exact (Except.ok.inj recovered).symm
  · intro same
    rw [← nimText_normal derivesLeft, ← nimText_normal derivesRight, same]

/-- Two trees that were read have the same Nim text exactly if they differ by no more than
qualifiers that are not written, qualifiers for members, spellings of numbers, and parentheses
between a sign and another operator before its operand. -/
theorem texts_of_parse {first second : String} {left right : Expr}
    (readsLeft : parse first = .ok left) (readsRight : parse second = .ok right) :
    ∃ leftText rightText, left.toNim = .ok leftText ∧ right.toNim = .ok rightText ∧
      (leftText = rightText ↔ left.normal = right.normal) := by
  obtain ⟨derivesLeft, -⟩ := derives_of_parse readsLeft
  obtain ⟨derivesRight, -⟩ := derives_of_parse readsRight
  exact ⟨left.nimText, right.nimText, toNim_of_derives derivesLeft,
    toNim_of_derives derivesRight, nimText_eq_iff derivesLeft derivesRight⟩

end TensorBindings.Expr
