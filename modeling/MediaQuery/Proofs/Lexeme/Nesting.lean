import MediaQuery.Lexeme.Basic

/-!
# Open brackets

The brackets that are open after some lexemes are a stack. A block is what stands
between an opening bracket and the place where the stack is as it was before it;
everything here follows from what one token does to the stack.
-/

namespace MediaQuery

namespace Token

theorem nest_closing (bracket : Bracket) (brackets : List Bracket) :
    nest (bracket :: brackets) (.closing bracket) = brackets := by
  simp [nest]

theorem nest_of_opens {token : Token} {bracket : Bracket} (opens : token.opens = some bracket)
    (brackets : List Bracket) : token.nest brackets = bracket :: brackets := by
  cases token <;> simp_all [nest, Token.opens]

theorem nest_nil_of_opens_eq_none {token : Token} (opens : token.opens = none) :
    token.nest [] = [] := by
  cases token <;> simp_all [nest, Token.opens]

theorem isBlank_cases {token : Token} (blank : token.isBlank = true) :
    token = .space ∨ token = .comment := by
  cases token <;> simp_all [isBlank]

theorem opens_of_isBlank {token : Token} (blank : token.isBlank = true) : token.opens = none := by
  rcases isBlank_cases blank with rfl | rfl <;> rfl

theorem nest_of_isBlank {token : Token} (blank : token.isBlank = true) (brackets : List Bracket) :
    token.nest brackets = brackets := by
  cases token <;> simp_all [nest, Token.opens, isBlank]

/-- The last open bracket goes only with the bracket that closes it. -/
theorem eq_closing_of_nest_eq_nil {token : Token} {brackets : List Bracket}
    (nonempty : brackets ≠ []) (closes : token.nest brackets = []) :
    ∃ bracket, token = .closing bracket ∧ brackets = [bracket] := by
  rcases List.exists_cons_of_ne_nil nonempty with ⟨bracket, outer, rfl⟩
  cases token with
  | closing other =>
      by_cases fits : bracket = other
      · subst other
        rw [nest_closing] at closes
        exact ⟨bracket, rfl, by rw [closes]⟩
      · simp [nest, fits] at closes
  | _ => simp [nest, Token.opens] at closes

/-- As long as a bracket is open, the outermost one stays the same. -/
theorem getLast?_nest {token : Token} {brackets : List Bracket} (nonempty : brackets ≠ [])
    (stays : token.nest brackets ≠ []) :
    (token.nest brackets).getLast? = brackets.getLast? := by
  rcases List.exists_cons_of_ne_nil nonempty with ⟨bracket, outer, rfl⟩
  cases token with
  | closing other =>
      by_cases fits : bracket = other
      · subst other
        rw [nest_closing] at stays ⊢
        rw [List.getLast?_cons_of_ne_nil stays]
      · simp [nest, fits]
  | _ => simp [nest, Token.opens, List.getLast?_cons_cons]

end Token

namespace Lexeme

/-- The open brackets after lexemes, the innermost first. -/
def nestAll (brackets : List Bracket) (lexemes : List Lexeme) : List Bracket :=
  lexemes.foldl (fun brackets lexeme => lexeme.token.nest brackets) brackets

@[simp]
theorem nestAll_nil (brackets : List Bracket) : nestAll brackets [] = brackets :=
  rfl

@[simp]
theorem nestAll_cons (brackets : List Bracket) (lexeme : Lexeme) (lexemes : List Lexeme) :
    nestAll brackets (lexeme :: lexemes) = nestAll (lexeme.token.nest brackets) lexemes :=
  rfl

theorem nestAll_append (brackets : List Bracket) (front back : List Lexeme) :
    nestAll brackets (front ++ back) = nestAll (nestAll brackets front) back :=
  List.foldl_append

theorem nestAll_of_isBlank {lexemes : List Lexeme}
    (blank : ∀ lexeme ∈ lexemes, lexeme.isBlank = true) (brackets : List Bracket) :
    nestAll brackets lexemes = brackets := by
  induction lexemes with
  | nil => rfl
  | cons lexeme lexemes ih =>
      rw [nestAll_cons, Token.nest_of_isBlank (blank lexeme (by simp))]
      exact ih fun other member => blank other (List.mem_cons_of_mem _ member)

@[simp]
theorem blockContent_nil (brackets : List Bracket) : blockContent brackets [] = [] :=
  rfl

theorem blockContent_cons (brackets : List Bracket) (lexeme : Lexeme) (rest : List Lexeme) :
    blockContent brackets (lexeme :: rest) =
      if lexeme.token.nest brackets = [] then []
      else lexeme :: blockContent (lexeme.token.nest brackets) rest := by
  rw [blockContent]
  split
  · rename_i closes
    simp [closes]
  · rename_i bracket outer stays
    simp [stays]

theorem blockContent_isPrefix (brackets : List Bracket) (lexemes : List Lexeme) :
    blockContent brackets lexemes <+: lexemes := by
  induction lexemes generalizing brackets with
  | nil => exact List.prefix_refl _
  | cons lexeme rest ih =>
      rw [blockContent_cons]
      split
      · exact List.nil_prefix
      · exact (List.prefix_cons_inj lexeme).mpr (ih _)

theorem blockContent_blockContent (brackets : List Bracket) (lexemes : List Lexeme) :
    blockContent brackets (blockContent brackets lexemes) = blockContent brackets lexemes := by
  induction lexemes generalizing brackets with
  | nil => rfl
  | cons lexeme rest ih =>
      rw [blockContent_cons]
      split
      · rfl
      · rename_i stays
        rw [blockContent_cons, if_neg stays, ih]

theorem blockContent_append {brackets : List Bracket} {front : List Lexeme}
    (inside : blockContent brackets front = front) (back : List Lexeme) :
    blockContent brackets (front ++ back) =
      front ++ blockContent (nestAll brackets front) back := by
  induction front generalizing brackets with
  | nil => rfl
  | cons lexeme rest ih =>
      rw [blockContent_cons] at inside
      split at inside
      · simp at inside
      · rename_i stays
        rw [List.cons.injEq] at inside
        rw [List.cons_append, blockContent_cons, if_neg stays, ih inside.2, nestAll_cons,
          List.cons_append]

theorem blockContent_eq_of_append {brackets : List Bracket} {front back : List Lexeme}
    (inside : blockContent brackets (front ++ back) = front ++ back) :
    blockContent brackets front = front := by
  induction front generalizing brackets with
  | nil => rfl
  | cons lexeme rest ih =>
      rw [List.cons_append, blockContent_cons] at inside
      split at inside
      · simp at inside
      · rename_i stays
        rw [List.cons.injEq] at inside
        rw [blockContent_cons, if_neg stays, ih inside.2]

theorem nestAll_blockContent_ne_nil {brackets : List Bracket} (nonempty : brackets ≠ [])
    (lexemes : List Lexeme) : nestAll brackets (blockContent brackets lexemes) ≠ [] := by
  induction lexemes generalizing brackets with
  | nil => exact nonempty
  | cons lexeme rest ih =>
      rw [blockContent_cons]
      split
      · exact nonempty
      · rename_i stays
        exact ih stays

/--
A block either runs to the end, or is followed by the bracket that closes it, and
then this bracket is the only one open at its end.
-/
theorem blockContent_cases {brackets : List Bracket} (nonempty : brackets ≠ [])
    (lexemes : List Lexeme) :
    blockContent brackets lexemes = lexemes ∨
      ∃ bracket text rest, brackets.getLast? = some bracket ∧
        nestAll brackets (blockContent brackets lexemes) = [bracket] ∧
        lexemes = blockContent brackets lexemes ++ ⟨.closing bracket, text⟩ :: rest := by
  induction lexemes generalizing brackets with
  | nil => exact Or.inl rfl
  | cons lexeme rest ih =>
      rw [blockContent_cons]
      split
      · rename_i closes
        rcases Token.eq_closing_of_nest_eq_nil nonempty closes with ⟨bracket, closing, rfl⟩
        right
        refine ⟨bracket, lexeme.text, rest, rfl, rfl, ?_⟩
        rw [← closing]
        rfl
      · rename_i stays
        rcases ih stays with runs | ⟨bracket, text, tail, outermost, level, parts⟩
        · left
          rw [runs]
        · right
          refine ⟨bracket, text, tail, ?_, level, ?_⟩
          · rw [← outermost, Token.getLast?_nest nonempty stays]
          · rw [List.cons_append, ← parts]

/--
Lexemes that can stand between a pair of brackets: none of them closes the pair,
and they close all that they open.
-/
structure Fills (bracket : Bracket) (lexemes : List Lexeme) : Prop where
  inside : blockContent [bracket] lexemes = lexemes
  level : nestAll [bracket] lexemes = [bracket]

namespace Fills

theorem nil (bracket : Bracket) : Fills bracket [] where
  inside := rfl
  level := rfl

theorem blockContent_append {bracket : Bracket} {lexemes : List Lexeme}
    (fills : Fills bracket lexemes) (text : List Char) (rest : List Lexeme) :
    blockContent [bracket] (lexemes ++ ⟨.closing bracket, text⟩ :: rest) = lexemes := by
  rw [Lexeme.blockContent_append fills.inside, fills.level, blockContent_cons, Token.nest_closing]
  simp

theorem append {bracket : Bracket} {front back : List Lexeme} (first : Fills bracket front)
    (second : Fills bracket back) : Fills bracket (front ++ back) where
  inside := by rw [Lexeme.blockContent_append first.inside, first.level, second.inside]
  level := by rw [nestAll_append, first.level, second.level]

/-- The rest of a fitting row, past lexemes that open and close what they need. -/
theorem of_append_left {bracket : Bracket} {front back : List Lexeme}
    (fills : Fills bracket (front ++ back)) (level : nestAll [bracket] front = [bracket]) :
    Fills bracket back where
  inside := by
    have inside := fills.inside
    rw [Lexeme.blockContent_append (blockContent_eq_of_append inside), level] at inside
    exact List.append_cancel_left inside
  level := by
    have whole := fills.level
    rwa [nestAll_append, level] at whole

theorem of_append_blank {bracket : Bracket} {front back : List Lexeme}
    (fills : Fills bracket (front ++ back)) (blank : ∀ lexeme ∈ back, lexeme.isBlank = true) :
    Fills bracket front where
  inside := blockContent_eq_of_append fills.inside
  level := by
    have level := fills.level
    rwa [nestAll_append, nestAll_of_isBlank blank] at level

theorem singleton {bracket : Bracket} {lexeme : Lexeme}
    (level : lexeme.token.nest [bracket] = [bracket]) : Fills bracket [lexeme] where
  inside := by simp [blockContent_cons, level]
  level := level

theorem of_forall {bracket : Bracket} {lexemes : List Lexeme}
    (level : ∀ lexeme ∈ lexemes, lexeme.token.nest [bracket] = [bracket]) :
    Fills bracket lexemes := by
  induction lexemes with
  | nil => exact nil bracket
  | cons lexeme rest ih =>
      have first := singleton (level lexeme (by simp))
      exact first.append (ih fun other member => level other (List.mem_cons_of_mem _ member))

end Fills

/-- A bracket that is closed in the end has a content that fills it. -/
theorem exists_closing_of_level {bracket : Bracket} {lexemes : List Lexeme}
    (level : nestAll [bracket] lexemes = []) :
    ∃ content text rest, Fills bracket content ∧ nestAll [] rest = [] ∧
      lexemes = content ++ ⟨.closing bracket, text⟩ :: rest := by
  have inside := blockContent_blockContent [bracket] lexemes
  rcases blockContent_cases (List.cons_ne_nil bracket []) lexemes with
    runs | ⟨outer, text, rest, outermost, contentLevel, parts⟩
  · have stillOpen := nestAll_blockContent_ne_nil (List.cons_ne_nil bracket []) lexemes
    rw [runs] at stillOpen
    exact absurd level stillOpen
  · have same : bracket = outer := by simpa using outermost
    subst same
    refine ⟨blockContent [bracket] lexemes, text, rest, ⟨inside, contentLevel⟩, ?_, parts⟩
    rw [parts, nestAll_append, contentLevel, nestAll_cons, Token.nest_closing] at level
    exact level

/-- Lexemes made of single tokens and of closed blocks. -/
inductive Balanced : List Lexeme → Prop
  | nil : Balanced []
  | token {lexeme : Lexeme} {rest : List Lexeme} (opens : lexeme.token.opens = none)
      (balanced : Balanced rest) : Balanced (lexeme :: rest)
  | block {lexeme : Lexeme} {bracket : Bracket} {content rest : List Lexeme} {text : List Char}
      (opens : lexeme.token.opens = some bracket) (fills : Fills bracket content)
      (balanced : Balanced rest) :
      Balanced (lexeme :: (content ++ ⟨.closing bracket, text⟩ :: rest))

/-- Lexemes are balanced if they close all the brackets they open. -/
theorem balanced_of_level {lexemes : List Lexeme} (level : nestAll [] lexemes = []) :
    Balanced lexemes := by
  induction size : lexemes.length using Nat.strongRecOn generalizing lexemes with
  | ind size ih =>
      match lexemes with
      | [] => exact Balanced.nil
      | lexeme :: rest =>
          rw [List.length_cons] at size
          rcases opens : lexeme.token.opens with _ | bracket
          · rw [nestAll_cons, Token.nest_nil_of_opens_eq_none opens] at level
            exact Balanced.token opens (ih rest.length (by omega) level rfl)
          · rw [nestAll_cons, Token.nest_of_opens opens] at level
            rcases exists_closing_of_level level with ⟨content, text, tail, fills, behind, rfl⟩
            rw [List.length_append, List.length_cons] at size
            exact Balanced.block opens fills (ih tail.length (by omega) behind rfl)

end Lexeme

end MediaQuery
