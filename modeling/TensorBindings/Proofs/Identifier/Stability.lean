import TensorBindings.Proofs.Identifier

/-!
Contract: what identifiers look like.

Owns: the texts that the escape has nothing to do on, the theorem that every identifier is such
a text, and the characters of an identifier. The escape of an identifier is therefore that
identifier.

The steps of the escape follow one another, and no later step undoes what an earlier one has
reached: the letters that are put before and behind a name are no underscores, a reserved word
has no underscore to separate, and a separated underscore has the letter `u` on its right.

Does not own: which names share an identifier (`Proofs.Identifier`).
-/

set_option autoImplicit false

namespace TensorBindings.Identifier

/-- No underscore stands at an end or beside another one, and the text is not reserved. -/
structure IsSettled (text : String) : Prop where
  start : text.toList.head? ≠ some '_'
  ending : text.toList.getLast? ≠ some '_'
  separate : ¬ ['_', '_'] <:+: text.toList
  unreserved : text ∉ reserved

/-- ASCII letters, digits and underscores, of which the first is no digit. -/
structure IsWord (text : String) : Prop where
  characters : ∀ c ∈ text.toList, c.isAlpha = true ∨ c.isDigit = true ∨ c = '_'
  start : ∀ c, text.toList.head? = some c → c.isDigit = false

/-! ### The two ends -/

private theorem getLast?_closeEnd_ne (cs : List Char) : (closeEnd cs).getLast? ≠ some '_' := by
  unfold closeEnd
  split_ifs with isLast
  · simp
  · exact isLast

private theorem head?_closeStart_ne (cs : List Char) : (closeStart cs).head? ≠ some '_' := by
  unfold closeStart
  split_ifs with isFirst
  · simp
  · exact isFirst

/-- A letter in front leaves the end of a list closed. -/
theorem getLast?_cons_ne {cs : List Char} (closed : cs.getLast? ≠ some '_') {c : Char}
    (other : c ≠ '_') : (c :: cs).getLast? ≠ some '_' := by
  rw [List.getLast?_cons]
  cases last : cs.getLast? with
  | none => simpa using other
  | some found => simpa [last] using closed

private theorem getLast?_closeStart_ne {cs : List Char} (closed : cs.getLast? ≠ some '_') :
    (closeStart cs).getLast? ≠ some '_' := by
  unfold closeStart
  split_ifs
  · exact getLast?_cons_ne closed (by decide)
  · exact closed

private theorem getLast?_avoidReserved_ne {cs : List Char} (closed : cs.getLast? ≠ some '_') :
    (avoidReserved cs).getLast? ≠ some '_' := by
  unfold avoidReserved
  split_ifs
  · exact getLast?_cons_ne closed (by decide)
  · exact closed

private theorem head?_avoidReserved_ne {cs : List Char} (closed : cs.head? ≠ some '_') :
    (avoidReserved cs).head? ≠ some '_' := by
  unfold avoidReserved
  split_ifs
  · simp
  · exact closed

private theorem getLast?_separateUnderscores_ne {cs : List Char} (closed : cs.getLast? ≠ some '_') :
    (separateUnderscores cs).getLast? ≠ some '_' := by
  fun_induction separateUnderscores cs with
  | case1 rest inductionHypothesis =>
      -- The last of the two underscores is followed by a closed list.
      have ofRest : rest.getLast? ≠ some '_' := by
        intro isLast
        exact closed (by simp [List.getLast?_cons, isLast])
      simpa [List.getLast?_cons] using
        getLast?_cons_ne (inductionHypothesis ofRest) (c := 'u') (by decide)
  | case2 c rest notDoubled inductionHypothesis =>
      cases rest with
      | nil => exact closed
      | cons next others =>
          obtain ⟨after, split⟩ :=
            List.head?_eq_some_iff.mp (head?_separateUnderscores (next :: others))
          rw [List.getLast?_cons_cons] at closed
          rw [split] at inductionHypothesis ⊢
          rw [List.getLast?_cons_cons]
          exact inductionHypothesis closed
  | case3 => simp

/-! ### Underscores in a row -/

/-- Separated underscores are never side by side. -/
theorem not_infix_separateUnderscores (cs : List Char) :
    ¬ ['_', '_'] <:+: separateUnderscores cs := by
  fun_induction separateUnderscores cs with
  | case1 rest inductionHypothesis =>
      simp [List.infix_cons_iff, inductionHypothesis]
  | case2 c rest notDoubled inductionHypothesis =>
      rw [List.infix_cons_iff, List.cons_prefix_cons]
      rintro (⟨rfl, second⟩ | inRest)
      · have first : rest.head? = some '_' := by
          obtain ⟨after, split⟩ := second
          rw [← head?_separateUnderscores, ← split]
          rfl
        obtain ⟨after, rfl⟩ := List.head?_eq_some_iff.mp first
        exact notDoubled after rfl rfl
      · exact inductionHypothesis inRest
  | case3 => simp

/-! ### Reserved words -/

/-- The letter before a reserved word makes no other reserved word of it. -/
theorem marked_notMem_reserved : ∀ word ∈ reserved, "a" ++ word ∉ reserved := by
  decide +kernel

private theorem escape_notMem_reserved (name : String) : escape name ∉ reserved := by
  by_cases some : '_' ∈ name.toList
  · intro isReserved
    exact underscore_notMem_reserved _ isReserved (underscore_mem_escape some)
  · rw [escape_of_no_underscore some]
    split_ifs with isReserved
    · exact marked_notMem_reserved name isReserved
    · exact isReserved

/-! ### Characters -/

section Characters

variable {cs : List Char} {c : Char}

private theorem mem_of_mem_closeEnd (member : c ∈ closeEnd cs) : c ∈ cs ∨ c = 'u' := by
  unfold closeEnd at member
  split_ifs at member
  · simpa using member
  · exact Or.inl member

private theorem mem_of_mem_closeStart (member : c ∈ closeStart cs) : c ∈ cs ∨ c = 'u' := by
  unfold closeStart at member
  split_ifs at member
  · simpa [or_comm] using member
  · exact Or.inl member

private theorem mem_of_mem_avoidReserved (member : c ∈ avoidReserved cs) : c ∈ cs ∨ c = 'a' := by
  unfold avoidReserved at member
  split_ifs at member
  · simpa [or_comm] using member
  · exact Or.inl member

private theorem mem_of_mem_separateUnderscores (member : c ∈ separateUnderscores cs) :
    c ∈ cs ∨ c = 'u' := by
  fun_induction separateUnderscores cs with
  | case1 rest inductionHypothesis => grind
  | case2 first rest notDoubled inductionHypothesis => grind
  | case3 => exact Or.inl member

end Characters

/-- An identifier has the characters of its name and the two letters that mark it. -/
theorem mem_of_mem_escape {name : String} {c : Char} (member : c ∈ (escape name).toList) :
    c ∈ name.toList ∨ c = 'u' ∨ c = 'a' := by
  rw [escape, String.toList_ofList] at member
  rcases mem_of_mem_separateUnderscores member with avoided | isMark
  · rcases mem_of_mem_avoidReserved avoided with closed | isMark
    · rcases mem_of_mem_closeStart closed with endClosed | isMark
      · exact (mem_of_mem_closeEnd endClosed).imp_right Or.inl
      · exact Or.inr (Or.inl isMark)
    · exact Or.inr (Or.inr isMark)
  · exact Or.inr (Or.inl isMark)

private theorem head?_escape (name : String) :
    (escape name).toList.head? = name.toList.head? ∨ (escape name).toList.head? = some 'u' ∨
      (escape name).toList.head? = some 'a' := by
  have ofEnd : (closeEnd name.toList).head? = name.toList.head? := by
    unfold closeEnd
    split_ifs with isLast
    · cases chars : name.toList with
      | nil => simp [chars] at isLast
      | cons first rest => rfl
    · rfl
  rw [escape, String.toList_ofList, head?_separateUnderscores]
  unfold avoidReserved closeStart
  split_ifs <;> simp [ofEnd]

/-- An identifier of a word is a word. -/
theorem IsWord.escape {name : String} (word : IsWord name) : IsWord (escape name) where
  characters := by
    intro c member
    rcases mem_of_mem_escape member with inName | rfl | rfl
    · exact word.characters c inName
    · exact Or.inl (by decide)
    · exact Or.inl (by decide)
  start := by
    intro c isFirst
    rcases head?_escape name with same | marked | marked
    · exact word.start c (same ▸ isFirst)
    · rw [← Option.some.inj (marked.symm.trans isFirst)]
      decide
    · rw [← Option.some.inj (marked.symm.trans isFirst)]
      decide

/-! ### Identifiers -/

private theorem isSettled_escape (name : String) : IsSettled (escape name) where
  start := by
    rw [escape, String.toList_ofList, head?_separateUnderscores]
    exact head?_avoidReserved_ne (head?_closeStart_ne _)
  ending := by
    rw [escape, String.toList_ofList]
    apply getLast?_separateUnderscores_ne
    apply getLast?_avoidReserved_ne
    exact getLast?_closeStart_ne (getLast?_closeEnd_ne _)
  separate := by
    rw [escape, String.toList_ofList]
    exact not_infix_separateUnderscores _
  unreserved := escape_notMem_reserved name

/-- A settled text is its own identifier. -/
theorem IsSettled.escape_eq {text : String} (settled : IsSettled text) : escape text = text := by
  have endKept : closeEnd text.toList = text.toList := if_neg settled.ending
  have startKept : closeStart text.toList = text.toList := if_neg settled.start
  have wordKept : avoidReserved text.toList = text.toList :=
    if_neg (by simpa using settled.unreserved)
  rw [escape, endKept, startKept, wordKept, separateUnderscores_eq_self settled.separate,
    String.ofList_toList]

/-- Every identifier is settled and stays what it is, and the identifier of a word is a word. -/
theorem escape_gives_stable_identifier (name : String) :
    IsSettled (escape name) ∧ (IsWord name → IsWord (escape name)) ∧
      escape (escape name) = escape name :=
  ⟨isSettled_escape name, IsWord.escape, (isSettled_escape name).escape_eq⟩

/-- A name with two underscores at each end, around a reserved word. -/
theorem double_underscored_keyword_is_escaped :
    IsWord "__and__" ∧ escape "__and__" = "u_u_uand_u_uu" ∧ IsWord (escape "__and__") ∧
      IsSettled (escape "__and__") := by
  have word : IsWord "__and__" := ⟨by simp, by simp⟩
  obtain ⟨settled, words, -⟩ := escape_gives_stable_identifier "__and__"
  exact ⟨word, by decide +kernel, words word, settled⟩

end TensorBindings.Identifier
