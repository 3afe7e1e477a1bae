import TensorBindings.Proofs.Expr.NimRecovery
import TensorBindings.Proofs.Expr.Structure

/-!
Contract: the expressions whose Nim text is a formula again, and the same one.

Owns: the nodes that are written as they were read, and the theorem that a tree of such nodes is
read back from its text.

The text has spaces around binary operators and behind commas only. All other lexemes stand next to
each other, so the division of the text has to find the places between them. There is one place
where it would not: a point right behind a whole number belongs to the number. So a member of a
whole number is no plain node, and every step of the induction says of what follows a tree that it
is no point if the text of the tree ends in a whole number.

Does not own: the grouping of lexemes (`Proofs.Expr.Completeness`).
-/

set_option autoImplicit false

namespace TensorBindings.Expr

open TensorBindings.Text

/-! ### Plain nodes -/

def IsWhole (text : String) : Prop := AllDigits text.toList

instance (text : String) : Decidable (IsWhole text) :=
  inferInstanceAs (Decidable (AllDigits text.toList))

/-- The node is spelled in Nim as in formulas: no path, no number that changes, no member of a whole
number, no word for an operator, no parentheses that the printer adds, no ternary and no list. -/
def isPlainNode : Expr → Bool
  | .name qualifier _ => qualifier.isEmpty
  | .number text => Number.toNim text = text
  | .member (.number text) _ => ¬ IsWhole text
  | .unary op operand => op ≠ .not ∧ ¬ (op.isSign ∧ operand.isUnary)
  | .binary op _ _ => op ∉ [BinaryOp.or, .and, .mod]
  | .ternary _ _ _ => false
  | .list _ => false
  | _ => true

def IsPlain (tree : Expr) : Prop := ∀ node ∈ tree.nodes, node.isPlainNode = true

instance (tree : Expr) : Decidable tree.IsPlain :=
  decidable_of_iff (tree.nodes.all isPlainNode = true) List.all_eq_true

/-! ### Lexemes side by side -/

section Division

variable {afterOperand : Bool} {follow : List Char}

private theorem tokens_space (afterOperand : Bool) (cs : List Char) :
    tokens afterOperand (' ' :: cs) = tokens afterOperand cs := by
  rw [tokens.eq_def, tokens.eq_def afterOperand cs]
  rfl

private theorem tokens_name {text : String} (isName : IsName text)
    (follows : FollowsOperand follow) :
    tokens afterOperand (text.toList ++ follow) = .name text :: tokens true follow := by
  obtain ⟨first, rest, spelled, starts, parts⟩ := isName
  rw [spelled]
  have found := lexeme?_of_name afterOperand spelled starts parts (follows.stops (by decide))
  exact tokens_of_found (List.forall_mem_nil _) (isSpacing_eq_false (by decide) starts) found

private theorem tokens_string {text : String} (isQuoted : IsQuoted text) :
    tokens afterOperand (text.toList ++ follow) = .string text :: tokens true follow := by
  obtain ⟨quote, rest, isQuote, spelled, closes⟩ := isQuoted
  rw [spelled]
  have notSpace : isSpacing quote = false := by rcases isQuote with rfl | rfl <;> decide
  exact tokens_of_found (List.forall_mem_nil _) notSpace
    (lexeme?_of_quote afterOperand follow isQuote spelled closes)

/-- A mark that begins no longer lexeme, and no number, is a lexeme of its own. -/
theorem tokens_mark {mark : Char} {token : Token} (isLone : mark ∈ loneMarks)
    (isToken : single? mark = some token)
    (noNumber : mark = '.' → startsWithDigit follow = false) :
    tokens afterOperand (mark :: follow) = token :: tokens token.endsOperand follow := by
  have isSymbol := mem_symbolChars_of_loneMark isLone
  have found : lexeme? afterOperand mark ([] ++ follow) =
      some (token, ([] : List Char).length) := by
    rw [List.nil_append, lexeme?_eq_symbol? isSymbol noNumber]
    simp [symbol?, pair?_of_loneMark isLone, isToken]
  exact tokens_of_found (List.forall_mem_nil _) (eq_false_of_any (by decide) isSymbol) found

@[simp] theorem tokens_openParen (afterOperand : Bool) (rest : List Char) :
    tokens afterOperand ('(' :: rest) = .openParen :: tokens false rest :=
  tokens_mark (by decide) rfl (absurd · (by decide))

@[simp] theorem tokens_closeParen (afterOperand : Bool) (rest : List Char) :
    tokens afterOperand (')' :: rest) = .closeParen :: tokens true rest :=
  tokens_mark (by decide) rfl (absurd · (by decide))

@[simp] theorem tokens_openBracket (afterOperand : Bool) (rest : List Char) :
    tokens afterOperand ('[' :: rest) = .openBracket :: tokens false rest :=
  tokens_mark (by decide) rfl (absurd · (by decide))

@[simp] theorem tokens_closeBracket (afterOperand : Bool) (rest : List Char) :
    tokens afterOperand (']' :: rest) = .closeBracket :: tokens true rest :=
  tokens_mark (by decide) rfl (absurd · (by decide))

@[simp] theorem tokens_comma (afterOperand : Bool) (rest : List Char) :
    tokens afterOperand (',' :: rest) = .comma :: tokens false rest :=
  tokens_mark (by decide) rfl (absurd · (by decide))

private theorem tokens_field {field : String} (isName : IsName field)
    (follows : FollowsOperand follow) :
    tokens true ('.' :: (field.toList ++ follow)) = .dot :: .name field :: tokens true follow := by
  have noNumber : startsWithDigit (field.toList ++ follow) = false := by
    obtain ⟨first, rest, spelled, starts, -⟩ := isName
    rw [spelled]
    exact isDecimalDigit_eq_false_of_nameStart starts
  rw [tokens_mark (by decide) rfl (fun _ => noNumber)]
  exact congrArg _ (tokens_name isName follows)

private theorem tokens_sign {op : UnaryOp} (isOperator : op ∈ [UnaryOp.plus, .minus, .not])
    (plain : op ≠ .not) :
    tokens false (op.nimText.toList ++ follow) = unaryToken op :: tokens false follow := by
  cases op with
  | plus | minus => exact tokens_mark (by decide) rfl (absurd · (by decide))
  | not => exact absurd rfl plain
  | custom symbol => simp at isOperator

/-- A binary operator with spaces around it. -/
theorem tokens_binaryOp {category : Category} {op : BinaryOp}
    (isOperator : op ∈ category.operators) (plain : op ∉ [BinaryOp.or, .and, .mod]) :
    tokens true (' ' :: (op.nimText.toList ++ ' ' :: follow)) =
      .operator op :: tokens false follow := by
  have sameText : op.nimText = (Token.operator op).spelling := by
    cases op with
    | or | and | mod => exact absurd (by decide) plain
    | _ => rfl
  have space : Spacing [' '] := by decide
  have ends : Ends (' ' :: follow) := forall_head_cons (by decide) follow
  have isRead := (operator_mayStandAfter_operand isOperator).isReadAfter
  have divided := tokens_of_lexeme space isRead ends
  rw [tokens_space] at divided
  rw [sameText]
  exact divided

end Division

/-! ### Numbers -/

section Number

variable {fraction exponent follow : List Char}

/-- A point belongs to a number only if it stands right behind the whole part. -/
theorem fractionLength_append (isFraction : Fraction fraction) (isExponent : Exponent exponent)
    (follows : FollowsOperand follow)
    (noPoint : fraction = [] → exponent = [] → follow.head? ≠ some '.') :
    fractionLength (fraction ++ (exponent ++ follow)) = fraction.length := by
  cases isFraction with
  | absent =>
      apply fractionLength_of_stops
      intro c isHead
      rw [beq_eq_false_iff_ne]
      rintro rfl
      cases isExponent with
      | absent => exact noPoint rfl rfl isHead
      | unsigned marked _ _ =>
          obtain rfl : _ = '.' := by simpa using isHead
          exact absurd marked (by decide)
      | signed marked _ _ _ =>
          obtain rfl : _ = '.' := by simpa using isHead
          exact absurd marked (by decide)
  | present _ areDecimals =>
      have extent := digitsLength_append areDecimals (stops_of_exponent isExponent follows).1
      rw [List.cons_append, fractionLength, extent, List.length_cons, Nat.add_comm]

private theorem afterDigitLength_append {digits : List Char} (areDigits : AllDigits digits)
    (isFraction : Fraction fraction) (isExponent : Exponent exponent)
    (follows : FollowsOperand follow)
    (noPoint : fraction = [] → exponent = [] → follow.head? ≠ some '.') :
    afterDigitLength (digits ++ (fraction ++ (exponent ++ follow))) =
      digits.length + fraction.length + exponent.length := by
  have ofDigits := digitsLength_append areDigits (stops_of_fraction isFraction isExponent follows)
  have ofFraction := fractionLength_append isFraction isExponent follows noPoint
  have ofExponent := exponentLength_of_follows isExponent follows
  have ofWidth : widthMarkLength follow = 0 :=
    widthMarkLength_append .absent (follows.stops (by decide))
  have behind : (digits ++ (fraction ++ (exponent ++ follow))).drop
      (digits.length + fraction.length) = exponent ++ follow := by
    rw [← List.append_assoc, ← List.length_append, List.drop_left]
  simp only [afterDigitLength, numberTailLength, ofDigits, List.drop_left, ofFraction, behind,
    ofExponent, ofWidth, Nat.add_zero]

/-- A number of Nim is one lexeme of a formula, unless it is whole and a point follows. -/
theorem tokens_number {text : String} (isNumber : IsNimNumber text) (afterOperand : Bool)
    (follows : FollowsOperand follow) (noPoint : IsWhole text → follow.head? ≠ some '.') :
    tokens afterOperand (text.toList ++ follow) = .number text :: tokens true follow := by
  obtain ⟨whole, fraction, exponent, spelled, nonempty, areDigits, isFraction, isExponent⟩ :=
    isNumber
  have pointless : fraction = [] → exponent = [] → follow.head? ≠ some '.' := by
    rintro rfl rfl
    apply noPoint
    rw [IsWhole, spelled, List.append_nil, List.append_nil]
    exact areDigits
  obtain ⟨digit, others, rfl⟩ := List.exists_cons_of_ne_nil nonempty
  obtain ⟨isDigit, areOthers⟩ := List.forall_mem_cons.mp areDigits
  have extent : afterDigitLength ((others ++ (fraction ++ exponent)) ++ follow) =
      (others ++ (fraction ++ exponent)).length := by
    have lengths := afterDigitLength_append areOthers isFraction isExponent follows pointless
    simp only [List.append_assoc, List.length_append] at lengths ⊢
    omega
  rw [List.cons_append] at spelled
  rw [spelled]
  exact tokens_of_found (List.forall_mem_nil _) (isSpacing_eq_false_of_digit isDigit)
    (lexeme?_of_digit afterOperand isDigit spelled extent)

end Number

/-! ### Trees -/

/-- The text of the tree ends in a whole number. -/
def endsInWhole : Expr → Prop
  | .number text => IsWhole text
  | .unary _ operand => endsInWhole operand
  | .binary _ _ right => endsInWhole right
  | _ => False

/-- What can stand behind the text of a tree without a change to its last lexeme. -/
structure FollowsText (tree : Expr) (follow : List Char) : Prop where
  follows : FollowsOperand follow
  noPoint : tree.endsInWhole → follow.head? ≠ some '.'

theorem FollowsText.mark {tree : Expr} {c : Char} {rest : List Char}
    (isMark : c ∈ operandFollowers) : FollowsText tree (c :: rest) where
  follows := .mark isMark
  noPoint := by
    intro _ isHead
    obtain rfl : c = '.' := by simpa using isHead
    exact absurd isMark (by decide)

/-- The text of the tree is divided into the lexemes of the tree. -/
def DividesAsRead (tree : Expr) : Prop :=
  ∀ follow, FollowsText tree follow →
    tokens false (tree.nimText.toList ++ follow) = tree.lexemes ++ tokens true follow

/-- A tree that can be the value of a member ends in a whole number only if it is one. -/
theorem Derives.endsInWhole_of_suffixed {category : Category} {value : Expr}
    (derives : Derives category value) (tight : 8 ≤ category.level) (ends : value.endsInWhole) :
    ∃ text, value = .number text ∧ IsWhole text := by
  induction derives with
  | tighter isNext _ inductionHypothesis =>
      rw [Category.level_of_tighter isNext] at inductionHypothesis
      exact inductionHypothesis (by omega) ends
  | binary isOperator =>
      obtain ⟨sameLevel, _, isBinary⟩ := Category.level_of_mem_operators isOperator
      omega
  | unary => exact absurd tight (by decide)
  | number => exact ⟨_, rfl, ends⟩
  | ternary | member | call | index | name | string | paren | list => exact ends.elim

private theorem dividesAsRead_all {trees : List Expr}
    (dividesEach : ∀ tree ∈ trees, tree.DividesAsRead) (rest : List Char) :
    tokens false ((", ".intercalate (nimTexts trees)).toList ++ ')' :: rest) =
      lexemesOfAll trees ++ .closeParen :: tokens true rest := by
  match trees, dividesEach with
  | [], _ => exact tokens_closeParen false rest
  | [tree], dividesEach =>
      rw [nimTexts, nimTexts, String.intercalate_singleton, lexemesOfAll,
        dividesEach tree List.mem_cons_self _ (.mark (by decide)), tokens_closeParen]
  | tree :: next :: others, dividesEach =>
      obtain ⟨divides, dividesOthers⟩ := List.forall_mem_cons.mp dividesEach
      rw [nimTexts, nimTexts, String.intercalate_cons_cons, String.toList_append,
        String.toList_append, List.append_assoc, List.append_assoc]
      calc tokens false (tree.nimText.toList ++ (',' :: ' ' ::
            ((", ".intercalate (nimTexts (next :: others))).toList ++ ')' :: rest)))
          = tree.lexemes ++ (.comma :: (lexemesOfAll (next :: others) ++
              .closeParen :: tokens true rest)) := by
            rw [divides _ (.mark (by decide)), tokens_comma, tokens_space,
              dividesAsRead_all dividesOthers rest]
        _ = lexemesOfAll (tree :: next :: others) ++ .closeParen :: tokens true rest := by
            rw [lexemesOfAll, List.append_assoc, List.cons_append]
termination_by trees.length

theorem IsPlain.node {tree : Expr} (plain : tree.IsPlain) : tree.isPlainNode = true :=
  plain tree (self_mem_nodes tree)

theorem IsPlain.part {tree part : Expr} (plain : tree.IsPlain) (inside : part ∈ tree.nodes) :
    part.IsPlain :=
  fun node isNode => plain node (nodes_subset_of_mem inside isNode)

/-- The text of a plain tree of the grammar is divided into the lexemes of the tree. -/
theorem dividesAsRead_of_plain {category : Category} {tree : Expr}
    (derives : Derives category tree) (plain : tree.IsPlain) : tree.DividesAsRead := by
  induction derives with
  | tighter _ _ inductionHypothesis => exact inductionHypothesis plain
  | @name qualifier ident _ isName =>
      intro follow behind
      obtain rfl : qualifier = [] := List.isEmpty_iff.mp plain.node
      exact tokens_name isName behind.follows
  | @number text isNumber =>
      intro follow behind
      have unchanged : Number.toNim text = text := of_decide_eq_true plain.node
      have isNimNumber := isNimNumber_toNim isNumber
      rw [unchanged] at isNimNumber
      rw [nimText, unchanged]
      exact tokens_number isNimNumber false behind.follows behind.noPoint
  | string isQuoted =>
      intro follow behind
      exact tokens_string isQuoted
  | @member value field ofValue isName divides =>
      intro follow behind
      have noPoint : ¬ value.endsInWhole := by
        intro ends
        obtain ⟨text, rfl, isWhole⟩ := ofValue.endsInWhole_of_suffixed (by decide) ends
        exact of_decide_eq_true plain.node isWhole
      have selects : FollowsText value ('.' :: (field.toList ++ follow)) :=
        ⟨followsOperand_field isName follow, fun ends => absurd ends noPoint⟩
      simp only [nimText, lexemes, String.toList_append, List.append_assoc]
      calc tokens false (value.nimText.toList ++ ('.' :: (field.toList ++ follow)))
          = value.lexemes ++ (.dot :: .name field :: tokens true follow) := by
            rw [divides (plain.part (by simp [nodes])) _ selects,
              tokens_field isName behind.follows]
        _ = _ := rfl
  | @call callee arguments _ _ divides dividesEach =>
      intro follow _
      have dividesAll : ∀ argument ∈ arguments, argument.DividesAsRead := by
        intro argument member
        exact dividesEach argument member (plain.part (by simp [nodes, mem_nodesOfAll member]))
      simp only [nimText, lexemes, String.toList_append, List.append_assoc]
      calc tokens false (callee.nimText.toList ++
            ('(' :: ((", ".intercalate (nimTexts arguments)).toList ++ (')' :: follow))))
          = callee.lexemes ++ (.openParen ::
              (lexemesOfAll arguments ++ .closeParen :: tokens true follow)) := by
            rw [divides (plain.part (by simp [nodes])) _ (.mark (by decide)), tokens_openParen,
              dividesAsRead_all dividesAll]
        _ = _ := by simp
  | @index value position _ _ dividesValue dividesPosition =>
      intro follow _
      simp only [nimText, lexemes, String.toList_append, List.append_assoc]
      calc tokens false (value.nimText.toList ++
            ('[' :: (position.nimText.toList ++ (']' :: follow))))
          = value.lexemes ++ (.openBracket ::
              (position.lexemes ++ .closeBracket :: tokens true follow)) := by
            rw [dividesValue (plain.part (by simp [nodes])) _ (.mark (by decide)),
              tokens_openBracket,
              dividesPosition (plain.part (by simp [nodes])) _ (.mark (by decide)),
              tokens_closeBracket]
        _ = _ := by simp
  | @unary op operand isOperator _ divides =>
      intro follow behind
      obtain ⟨notWord, noParens⟩ : op ≠ .not ∧ ¬ (op.isSign ∧ operand.isUnary) :=
        of_decide_eq_true plain.node
      rw [nimText, if_neg noParens, String.toList_append, List.append_assoc,
        tokens_sign isOperator notWord,
        divides (plain.part (by simp [nodes])) follow ⟨behind.follows, behind.noPoint⟩]
      rfl
  | @binary _ _ op left right isOperator _ _ _ dividesLeft dividesRight =>
      intro follow behind
      simp only [nimText, lexemes, String.toList_append, List.append_assoc]
      calc tokens false (left.nimText.toList ++
            (' ' :: (op.nimText.toList ++ (' ' :: (right.nimText.toList ++ follow)))))
          = left.lexemes ++ (.operator op :: (right.lexemes ++ tokens true follow)) := by
            rw [dividesLeft (plain.part (by simp [nodes])) _ (.mark (by decide)),
              tokens_binaryOp isOperator (of_decide_eq_true plain.node),
              dividesRight (plain.part (by simp [nodes])) follow ⟨behind.follows, behind.noPoint⟩]
        _ = _ := by simp
  | @paren inner _ divides =>
      intro follow _
      simp only [nimText, lexemes, String.toList_append, List.append_assoc]
      calc tokens false ('(' :: (inner.nimText.toList ++ (')' :: follow)))
          = .openParen :: (inner.lexemes ++ .closeParen :: tokens true follow) := by
            rw [tokens_openParen, divides (plain.part (by simp [nodes])) _ (.mark (by decide)),
              tokens_closeParen]
        _ = _ := by simp
  | ternary => exact absurd plain.node (by simp [isPlainNode])
  | list => exact absurd plain.node (by simp [isPlainNode])

/-- A plain tree that was read has a text, and the text is read as the same tree. -/
theorem plain_tree_is_read_from_its_text {text : String} {tree : Expr}
    (reads : parse text = .ok tree) (plain : tree.IsPlain) :
    ∃ printed, tree.toNim = .ok printed ∧ parse printed = .ok tree := by
  obtain ⟨derives, -⟩ := derives_of_parse reads
  refine ⟨tree.nimText, toNim_of_derives derives, ?_⟩
  have divided := dividesAsRead_of_plain derives plain [] ⟨.nothing, fun _ => by simp⟩
  rw [List.append_nil, tokens_of_spacing (List.forall_mem_nil _)] at divided
  rw [parse, divided]
  exact readTokens_lexemes derives

namespace Sample

/-- The places where lexemes stand next to each other: a member of a number with an exponent, signs
before numbers and calls, an index in an argument. -/
def adjacentText : String := "-2.5e-3.e4 * x . f(1.0 .g,-y[ +1 ], '!') != (-(a-1))/3"

def adjacentTree : Expr :=
  .binary .ne
    (.binary .mul
      (.unary .minus (.member (.number "2.5e-3") "e4"))
      (.call (.member (.name [] "x") "f")
        [.member (.number "1.0") "g",
          .unary .minus (.index (.name [] "y") (.unary .plus (.number "1"))), .string "'!'"]))
    (.binary .div
      (.paren (.unary .minus (.paren (.binary .sub (.name [] "a") (.number "1")))))
      (.number "3"))

private theorem parse_adjacentText : parse adjacentText = .ok adjacentTree := by
  with_unfolding_all rfl

theorem adjacentTree_is_read_from_its_text :
    parse adjacentText = .ok adjacentTree ∧ adjacentTree.IsPlain ∧
      ∃ printed, adjacentTree.toNim = .ok printed ∧ parse printed = .ok adjacentTree := by
  have plain : adjacentTree.IsPlain := by decide +kernel
  exact ⟨parse_adjacentText, plain, plain_tree_is_read_from_its_text parse_adjacentText plain⟩

end Sample

end TensorBindings.Expr
