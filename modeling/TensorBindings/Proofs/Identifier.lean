import TensorBindings.Identifier
import TensorBindings.Proofs.Fallible

/-!
Contract: which engine names share an identifier.

Owns: the names that look as if a step of the escape had been taken on them already, the
reversal of each step on all other names, and the identifiers of names without an underscore.

The escape marks what it changes with the letters `u` and `a`, which engine names may hold
themselves. So `_x` and `u_x` have one identifier. Of two such names at least one looks
escaped, since every other name is recovered from its identifier (`unescape_escape`).

Does not own: whether an identifier is one of Nim.
-/

set_option autoImplicit false

namespace TensorBindings.Identifier

/-- The name has the letter `u` beside an underscore or `a` before a reserved word. -/
def LooksEscaped (name : String) : Prop :=
  ['_', 'u'] <:+: name.toList ∨ ['u', '_'] <:+: name.toList ∨
    ∃ word ∈ reserved, name = "a" ++ word

instance (name : String) : Decidable (LooksEscaped name) :=
  inferInstanceAs (Decidable (_ ∨ _))

/-! ### Names without an underscore -/

/-- No reserved word has an underscore. -/
theorem underscore_notMem_reserved : ∀ word ∈ reserved, '_' ∉ word.toList := by
  decide +kernel

private theorem underscore_mem_closeEnd_iff {cs : List Char} : '_' ∈ closeEnd cs ↔ '_' ∈ cs := by
  unfold closeEnd
  split_ifs <;> simp

private theorem underscore_mem_closeStart_iff {cs : List Char} :
    '_' ∈ closeStart cs ↔ '_' ∈ cs := by
  unfold closeStart
  split_ifs <;> simp

private theorem underscore_mem_avoidReserved_iff {cs : List Char} :
    '_' ∈ avoidReserved cs ↔ '_' ∈ cs := by
  unfold avoidReserved
  split_ifs <;> simp

private theorem closeEnd_eq_self {cs : List Char} (none : '_' ∉ cs) : closeEnd cs = cs := by
  refine if_neg fun isLast => none ?_
  exact List.mem_of_getLast? isLast

private theorem closeStart_eq_self {cs : List Char} (none : '_' ∉ cs) : closeStart cs = cs := by
  refine if_neg fun isFirst => none ?_
  exact List.mem_of_head? isFirst

theorem separateUnderscores_eq_self {cs : List Char} (apart : ¬ ['_', '_'] <:+: cs) :
    separateUnderscores cs = cs := by
  fun_induction separateUnderscores cs with
  | case1 rest inductionHypothesis => exact absurd ⟨[], rest, rfl⟩ apart
  | case2 c rest notDoubled inductionHypothesis =>
      rw [inductionHypothesis fun inRest => apart (inRest.trans (List.suffix_cons c rest).isInfix)]
  | case3 => rfl

private theorem apart_of_no_underscore {cs : List Char} (none : '_' ∉ cs) : ¬ ['_', '_'] <:+: cs :=
  fun inside => none (inside.subset List.mem_cons_self)

private theorem underscore_mem_separateUnderscores {cs : List Char} (some : '_' ∈ cs) :
    '_' ∈ separateUnderscores cs := by
  fun_induction separateUnderscores cs with
  | case1 rest inductionHypothesis => exact List.mem_cons_self
  | case2 c rest notDoubled inductionHypothesis =>
      rcases List.mem_cons.mp some with isFirst | inRest
      · exact isFirst ▸ List.mem_cons_self
      · exact List.mem_cons_of_mem c (inductionHypothesis inRest)
  | case3 => exact some

/-! ### Reversal of the steps

Each step leaves a mark that no plain name has in that place, so the step is undone where the
mark is found. -/

def openEnd (cs : List Char) : List Char :=
  if ['_', 'u'] <:+ cs then cs.dropLast else cs

def openStart (cs : List Char) : List Char :=
  if ['u', '_'] <+: cs then cs.tail else cs

def allowReserved (cs : List Char) : List Char :=
  if cs.head? = some 'a' ∧ String.ofList cs.tail ∈ reserved then cs.tail else cs

section Reversal

variable {cs : List Char}

private theorem openEnd_closeEnd (plain : ¬ ['_', 'u'] <:+: cs) : openEnd (closeEnd cs) = cs := by
  unfold closeEnd
  split_ifs with isLast
  · obtain ⟨before, rfl⟩ := List.getLast?_eq_some_iff.mp isLast
    have marked : ['_', 'u'] <:+ before ++ ['_'] ++ ['u'] := ⟨before, by simp⟩
    rw [openEnd, if_pos marked, List.dropLast_concat]
  · exact if_neg fun marked => plain marked.isInfix

private theorem openStart_closeStart (plain : ¬ ['u', '_'] <+: cs) :
    openStart (closeStart cs) = cs := by
  unfold closeStart
  split_ifs with isFirst
  · obtain ⟨rest, rfl⟩ := List.head?_eq_some_iff.mp isFirst
    have marked : ['u', '_'] <+: 'u' :: '_' :: rest := ⟨rest, rfl⟩
    rw [openStart, if_pos marked, List.tail_cons]
  · exact if_neg plain

private theorem allowReserved_avoidReserved
    (plain : ∀ word, String.ofList word ∈ reserved → cs ≠ 'a' :: word) :
    allowReserved (avoidReserved cs) = cs := by
  unfold avoidReserved
  split_ifs with isReserved
  · rw [allowReserved, List.head?_cons, List.tail_cons, if_pos ⟨rfl, isReserved⟩]
  · refine if_neg ?_
    rintro ⟨isFirst, tailReserved⟩
    obtain ⟨word, rfl⟩ := List.head?_eq_some_iff.mp isFirst
    exact plain word tailReserved rfl

/-- To close the end of a name puts no mark at its start. -/
theorem infix_of_prefix_closeEnd (begins : ['u', '_'] <+: closeEnd cs) : ['u', '_'] <:+: cs := by
  unfold closeEnd at begins
  split_ifs at begins
  · rcases List.prefix_concat_iff.mp begins with whole | inner
    · have sameLast := congrArg List.getLast? whole
      simp at sameLast
    · exact inner.isInfix
  · exact begins.isInfix

end Reversal

/-- Undo the separation of underscores. -/
def joinUnderscores : List Char → List Char
  | '_' :: 'u' :: '_' :: 'u' :: rest => '_' :: '_' :: joinUnderscores rest
  | c :: rest => c :: joinUnderscores rest
  | [] => []

/-- The letter `u` follows an underscore at the end only. -/
def MarkedAtEndOnly (cs : List Char) : Prop :=
  ∀ before after, cs = before ++ '_' :: 'u' :: after → after = []

namespace MarkedAtEndOnly

theorem tail {c : Char} {rest : List Char} (marked : MarkedAtEndOnly (c :: rest)) :
    MarkedAtEndOnly rest := by
  intro before after split
  exact marked (c :: before) after (by rw [split, List.cons_append])

theorem cons {c : Char} {rest : List Char} (marked : MarkedAtEndOnly rest) (other : c ≠ '_') :
    MarkedAtEndOnly (c :: rest) := by
  intro before after split
  cases before with
  | nil => exact absurd (List.head_eq_of_cons_eq split) other
  | cons first others => exact marked others after (List.tail_eq_of_cons_eq split)

theorem closeEnd {cs : List Char} (plain : ¬ ['_', 'u'] <:+: cs) :
    MarkedAtEndOnly (closeEnd cs) := by
  intro before after split
  unfold Identifier.closeEnd at split
  split_ifs at split
  · rcases List.eq_nil_or_concat after with rfl | ⟨inner, last, rfl⟩
    · rfl
    · -- Without its last letter the list is the name, in which no such pair occurs.
      refine absurd ⟨before, inner, ?_⟩ plain
      have longer : cs ++ ['u'] = (before ++ '_' :: 'u' :: inner) ++ [last] := by simpa using split
      simpa using (List.append_inj_left' longer rfl).symm
  · exact absurd ⟨before, after, by simp [split]⟩ plain

theorem closeStart {cs : List Char} (marked : MarkedAtEndOnly cs) :
    MarkedAtEndOnly (closeStart cs) := by
  unfold Identifier.closeStart
  split_ifs
  · exact marked.cons (by decide)
  · exact marked

theorem avoidReserved {cs : List Char} (marked : MarkedAtEndOnly cs) :
    MarkedAtEndOnly (avoidReserved cs) := by
  unfold Identifier.avoidReserved
  split_ifs
  · exact marked.cons (by decide)
  · exact marked

end MarkedAtEndOnly

theorem head?_separateUnderscores (cs : List Char) :
    (separateUnderscores cs).head? = cs.head? := by
  fun_cases separateUnderscores cs <;> rfl

/-- The separation of underscores can be undone where no marks were before. -/
theorem joinUnderscores_separateUnderscores {cs : List Char} (marked : MarkedAtEndOnly cs) :
    joinUnderscores (separateUnderscores cs) = cs := by
  fun_induction separateUnderscores cs with
  | case1 rest inductionHypothesis =>
      rw [joinUnderscores, inductionHypothesis marked.tail.tail]
  | case2 c rest notDoubled inductionHypothesis =>
      have ofRest := inductionHypothesis marked.tail
      -- A mark in the result is one of the name, and nothing may follow that.
      have unmarked : ∀ others, c = '_' → separateUnderscores rest ≠ 'u' :: '_' :: others := by
        rintro others rfl ofTail
        have first : rest.head? = some 'u' := by
          rw [← head?_separateUnderscores, ofTail]
          rfl
        obtain ⟨after, rfl⟩ := List.head?_eq_some_iff.mp first
        obtain rfl : after = [] := marked [] after rfl
        simp [separateUnderscores] at ofTail
      rw [joinUnderscores, ofRest]
      exact fun others isUnderscore => unmarked ('u' :: others) isUnderscore
  | case3 => rfl

/-! ### Identifiers -/

theorem escape_of_no_underscore {name : String} (none : '_' ∉ name.toList) :
    escape name = if name ∈ reserved then "a" ++ name else name := by
  unfold escape avoidReserved
  rw [closeEnd_eq_self none, closeStart_eq_self none, String.ofList_toList]
  split_ifs
  · rw [separateUnderscores_eq_self (apart_of_no_underscore (by simpa using none)),
      String.ofList_cons, String.ofList_toList]
    rfl
  · rw [separateUnderscores_eq_self (apart_of_no_underscore none), String.ofList_toList]

/-- The underscores of a name do not get lost. -/
theorem underscore_mem_escape {name : String} (some : '_' ∈ name.toList) :
    '_' ∈ (escape name).toList := by
  rw [escape, String.toList_ofList]
  apply underscore_mem_separateUnderscores
  rw [underscore_mem_avoidReserved_iff, underscore_mem_closeStart_iff, underscore_mem_closeEnd_iff]
  exact some

/-- An identifier that begins with no `a` and has no underscore is that of one name only. -/
theorem escape_eq_iff {name word : String} (none : '_' ∉ word.toList)
    (unreserved : word ∉ reserved) (unmarked : word.toList.head? ≠ some 'a') :
    escape name = word ↔ name = word := by
  constructor
  · rintro rfl
    have plain : '_' ∉ name.toList := fun some => none (underscore_mem_escape some)
    rw [escape_of_no_underscore plain] at unmarked ⊢
    split_ifs at unmarked ⊢
    · exact absurd (by simp) unmarked
    · rfl
  · rintro rfl
    rw [escape_of_no_underscore none, if_neg unreserved]

/-- A name that is closed to a reserved word behind `a` is that text itself. -/
theorem looksEscaped_of_close_eq {name : String} {word : List Char}
    (isReserved : String.ofList word ∈ reserved)
    (closed : closeStart (closeEnd name.toList) = 'a' :: word) : LooksEscaped name := by
  have noneInWord : '_' ∉ word := by
    simpa using underscore_notMem_reserved _ isReserved
  have none : '_' ∉ name.toList := by
    rw [← underscore_mem_closeEnd_iff, ← underscore_mem_closeStart_iff, closed]
    simpa using noneInWord
  rw [closeEnd_eq_self none, closeStart_eq_self none] at closed
  refine Or.inr (Or.inr ⟨String.ofList word, isReserved, ?_⟩)
  apply String.toList_injective
  rw [closed]
  simp

/-- The name of an identifier, if it does not look escaped. -/
def unescape (identifier : String) : String :=
  String.ofList (openEnd (openStart (allowReserved (joinUnderscores identifier.toList))))

/-- A name that does not look escaped is recovered from its identifier, the last step first. -/
theorem unescape_escape {name : String} (plain : ¬ LooksEscaped name) :
    unescape (escape name) = name := by
  have plainEnd : ¬ ['_', 'u'] <:+: name.toList := fun inside => plain (Or.inl inside)
  have plainStart : ¬ ['u', '_'] <+: closeEnd name.toList := fun begins =>
    plain (Or.inr (Or.inl (infix_of_prefix_closeEnd begins)))
  have plainWord : ∀ word, String.ofList word ∈ reserved →
      closeStart (closeEnd name.toList) ≠ 'a' :: word := fun _ isReserved closed =>
    plain (looksEscaped_of_close_eq isReserved closed)
  have marked : MarkedAtEndOnly (avoidReserved (closeStart (closeEnd name.toList))) :=
    (MarkedAtEndOnly.closeEnd plainEnd).closeStart.avoidReserved
  rw [unescape, escape, String.toList_ofList, joinUnderscores_separateUnderscores marked,
    allowReserved_avoidReserved plainWord, openStart_closeStart plainStart,
    openEnd_closeEnd plainEnd, String.ofList_toList]

theorem eq_of_escape_eq {left right : String} (leftPlain : ¬ LooksEscaped left)
    (rightPlain : ¬ LooksEscaped right) (same : escape left = escape right) : left = right := by
  rw [← unescape_escape leftPlain, same, unescape_escape rightPlain]

/-- Names that do not look escaped have identifiers of their own, from which they can be read
off. -/
theorem plain_names_share_no_identifier {left right : String} (leftPlain : ¬ LooksEscaped left)
    (rightPlain : ¬ LooksEscaped right) :
    (escape left = escape right → left = right) ∧
      unescape (escape left) = left ∧ unescape (escape right) = right :=
  ⟨eq_of_escape_eq leftPlain rightPlain, unescape_escape leftPlain, unescape_escape rightPlain⟩

/-- Two names whose runs of underscores differ in length at both ends. -/
theorem runs_of_underscores_stay_apart :
    ¬ LooksEscaped "___x__" ∧ ¬ LooksEscaped "__x___" ∧ escape "___x__" ≠ escape "__x___" ∧
      unescape "u_u_u_x_u_uu" = "___x__" ∧ unescape "u_u_ux_u_u_u" = "__x___" := by
  have leftPlain : ¬ LooksEscaped "___x__" := by decide +kernel
  have rightPlain : ¬ LooksEscaped "__x___" := by decide +kernel
  have leftEscaped : escape "___x__" = "u_u_u_x_u_uu" := by decide +kernel
  have rightEscaped : escape "__x___" = "u_u_ux_u_u_u" := by decide +kernel
  obtain ⟨apart, leftRead, rightRead⟩ := plain_names_share_no_identifier leftPlain rightPlain
  rw [leftEscaped] at leftRead
  rw [rightEscaped] at rightRead
  exact ⟨leftPlain, rightPlain, fun same => absurd (apart same) (by decide), leftRead, rightRead⟩

end TensorBindings.Identifier
