import LiveSpec.Proofs.Expr.Spelling

/-!
# Printing a statement

`Statement.text` writes a statement without a blank, its strings between single quotes. Each token
is spelled as it is printed (`Token.spelled_chars`), so this is one of the texts of the statement.
Its tokens can stand beside each other (`Statement.Writable.isChain`), so the scanner keeps them
apart. Any text of a statement, whatever the blanks and the quotes, is read as that statement
(`Statement.read_spaced`).
-/

namespace LiveSpec

namespace Token

/-- The characters of a string with a backslash before each quote and each backslash. -/
def escaped : List Char → List Char
  | [] => []
  | c :: cs => if c = '\'' ∨ c = '\\' then '\\' :: c :: escaped cs else c :: escaped cs

/-- The characters of a token. -/
def chars : Token → List Char
  | .variable name => '#' :: name.toList
  | .ident name => name.toList
  | .text s => '\'' :: (escaped s.toList ++ ['\''])
  | .integer n => (toString n).toList
  | .decimal x => (Value.floatText x).toList
  | .leftParen => ['(']
  | .rightParen => [')']
  | .leftBracket => ['[']
  | .rightBracket => [']']
  | .dot => ['.']
  | .comma => [',']
  | .equals => ['=']

/-- The tokens of which statements are made, floating-point numbers aside. -/
def Valid : Token → Prop
  | .variable name => IsRun name
  | .ident name => IsIdent name
  | .integer n => -0x8000000000000000 ≤ n ∧ n < 0x8000000000000000
  | .decimal _ => False
  | _ => True

theorem quoted_escaped (cs : List Char) : Quoted '\'' cs (escaped cs) := by
  induction cs with
  | nil => exact .nil
  | cons c cs ih =>
    by_cases hc : c = '\'' ∨ c = '\\'
    · rw [escaped, if_pos hc]
      exact .escaped ih
    · rw [escaped, if_neg hc]
      exact .plain (fun h => hc (.inl h)) (fun h => hc (.inr h)) ih

theorem toList_toString (m : Nat) : (toString m).toList = Nat.toDigits 10 m := by
  rw [Nat.toString_eq_ofList_toDigits, String.toList_ofList]

theorem isDigit_of_mem_toString {m : Nat} {d : Char} (hd : d ∈ (toString m).toList) :
    Numeral.isDigit d = true := by
  rw [toList_toString] at hd
  have hdigit := Nat.isDigit_of_mem_toDigits (by decide) (by decide) hd
  simpa [Char.isDigit, Numeral.isDigit, Char.le_def] using hdigit

theorem toString_ne_nil (m : Nat) : (toString m).toList ≠ [] := by
  rw [toList_toString]
  exact Nat.toDigits_ne_nil

/-- The digits of a number denote it. -/
theorem ofDigitChars_toString (m : Nat) : Nat.ofDigitChars 10 (toString m).toList 0 = m := by
  rw [toList_toString]
  exact Nat.ofDigitChars_ten_toDigits

theorem spelled_toString {n : Int} (low : -0x8000000000000000 ≤ n) (high : n < 0x8000000000000000) :
    (integer n).Spelled (toString n).toList := by
  cases n with
  | ofNat m =>
    have hm : Nat.ofDigitChars 10 (toString m).toList 0 < 0x8000000000000000 := by
      rw [ofDigitChars_toString]
      simp only [Int.ofNat_eq_natCast] at high
      omega
    have hspelled := Spelled.natural (toString_ne_nil m) (fun d => isDigit_of_mem_toString) hm
    rw [ofDigitChars_toString] at hspelled
    exact hspelled
  | negSucc m =>
    have hm : Nat.ofDigitChars 10 (toString (m + 1)).toList 0 ≤ 0x8000000000000000 := by
      rw [ofDigitChars_toString]
      omega
    have hspelled := Spelled.negative (toString_ne_nil (m + 1))
      (fun d => isDigit_of_mem_toString) hm
    have htext : (toString (Int.negSucc m)).toList = '-' :: (toString (m + 1)).toList := by
      have hsign : toString (Int.negSucc m) = "-" ++ toString (m + 1) := rfl
      rw [hsign, String.toList_append]
      rfl
    rw [ofDigitChars_toString] at hspelled
    rw [htext]
    exact hspelled

/-- A token is spelled as it is printed. -/
theorem spelled_chars {t : Token} (h : t.Valid) : t.Spelled t.chars := by
  cases t with
  | «variable» name => exact .reference h
  | ident name => exact .ident h
  | text s => exact .text (.inl rfl) (quoted_escaped s.toList)
  | integer n => exact spelled_toString h.1 h.2
  | decimal x => exact h.elim
  | _ => exact .mark rfl

end Token

/-- Tokens that are printed one after the other. -/
theorem Spaced.flatMap_chars {ts : List Token} (h : ∀ t ∈ ts, t.Valid) :
    Spaced ts (ts.flatMap Token.chars) := by
  induction ts with
  | nil => exact .nil
  | cons t ts ih =>
    exact .token (Token.spelled_chars (h t List.mem_cons_self))
      (ih fun t' ht' => h t' (List.mem_cons_of_mem t ht'))

/-! ## The tokens of a statement -/

namespace Token

/-- Before a mark every token can stand. -/
theorem isChain_append_mark {ts ts' : List Token} {m : Token} (hm : m.isMark = true)
    (h : ts.IsChain Beside) (h' : (m :: ts').IsChain Beside) : (ts ++ m :: ts').IsChain Beside := by
  apply List.isChain_append.mpr ⟨h, h', ?_⟩
  intro t _ t' ht'
  cases ht'
  refine ⟨.inr hm, fun _ => ?_⟩
  cases m <;> first | rfl | cases hm

/-- After a mark other than a point every token can stand. -/
theorem isChain_mark_cons {ts : List Token} {m : Token} (hm : m.isMark = true) (hdot : m ≠ .dot)
    (h : ts.IsChain Beside) : (m :: ts).IsChain Beside := by
  apply List.isChain_cons.mpr ⟨?_, h⟩
  intro t _
  exact ⟨.inl hm, fun hm => absurd hm hdot⟩

theorem isIdent_keyword {name : String} (h : isKeyword name = true) : IsIdent name := by
  have hname : name = "true" ∨ name = "false" ∨ name = "null" := by
    simpa [isKeyword, or_assoc] using h
  rcases hname with rfl | rfl | rfl <;> decide +kernel

end Token

namespace Expr

open Token

theorem valid_argumentTokens {args : List Expr} (h : ∀ e ∈ args, ∀ t ∈ e.tokens, t.Valid) :
    ∀ t ∈ argumentTokens args, t.Valid := by
  induction args with
  | nil => exact List.forall_mem_singleton.mpr trivial
  | cons e args ih =>
    have he := h e List.mem_cons_self
    have hes := ih fun e he => h e (List.mem_cons_of_mem _ he)
    cases args with
    | nil => exact List.forall_mem_append.mpr ⟨he, List.forall_mem_singleton.mpr trivial⟩
    | cons e' es => exact List.forall_mem_append.mpr ⟨he, List.forall_mem_cons.mpr ⟨trivial, hes⟩⟩

theorem Writable.valid {e : Expr} (h : e.Writable) : ∀ t ∈ e.tokens, t.Valid := by
  induction h with
  | null => exact List.forall_mem_singleton.mpr (isIdent_keyword rfl)
  | bool b => cases b <;> exact List.forall_mem_singleton.mpr (isIdent_keyword rfl)
  | string s => exact List.forall_mem_singleton.mpr trivial
  | int low high => exact List.forall_mem_singleton.mpr ⟨low, high⟩
  | reference h => exact List.forall_mem_singleton.mpr h
  | property h => exact List.forall_mem_singleton.mpr h
  | call h _ _ ih => exact List.forall_mem_cons.mpr ⟨h,
    List.forall_mem_cons.mpr ⟨trivial, valid_argumentTokens ih⟩⟩
  | field _ h ih =>
    have hdot : Token.dot.Valid := trivial
    apply List.forall_mem_append.mpr ⟨ih, ?_⟩
    exact List.forall_mem_cons.mpr ⟨hdot, List.forall_mem_singleton.mpr h⟩
  | index _ _ iht ihk =>
    have hleft : Token.leftBracket.Valid := trivial
    rw [tokens, List.append_assoc]
    apply List.forall_mem_append.mpr ⟨iht, List.forall_mem_cons.mpr ⟨hleft, ?_⟩⟩
    exact List.forall_mem_append.mpr ⟨ihk, List.forall_mem_singleton.mpr trivial⟩

theorem isChain_argumentTokens {args : List Expr} (h : ∀ e ∈ args, e.tokens.IsChain Beside) :
    (argumentTokens args).IsChain Beside := by
  induction args with
  | nil => simp [argumentTokens]
  | cons e args ih =>
    have he := h e List.mem_cons_self
    have hes := ih fun e he => h e (List.mem_cons_of_mem _ he)
    cases args with
    | nil => exact isChain_append_mark rfl he (by simp)
    | cons e' es => exact isChain_append_mark rfl he (isChain_mark_cons rfl (by simp) hes)

theorem Writable.isChain {e : Expr} (h : e.Writable) : e.tokens.IsChain Beside := by
  induction h with
  | null | string | int | reference | property => simp [tokens, Value.literalTokens]
  | bool b => cases b <;> simp [tokens, Value.literalTokens]
  | call _ _ _ ih =>
    apply List.isChain_cons_cons.mpr ⟨⟨.inr rfl, by simp⟩, ?_⟩
    exact isChain_mark_cons rfl (by simp) (isChain_argumentTokens ih)
  | field _ _ ih => exact isChain_append_mark rfl ih (by simp [Beside, isMark, isInteger])
  | index _ _ iht ihk =>
    rw [tokens, List.append_assoc]
    apply isChain_append_mark rfl iht
    exact isChain_mark_cons rfl (by simp) (isChain_append_mark rfl ihk (by simp))

end Expr

namespace Statement

open Token

theorem Writable.valid {st : Statement} (h : st.Writable) : ∀ t ∈ st.tokens, t.Valid := by
  cases h with
  | assign h hv => simpa [tokens, Valid, h] using hv.valid
  | eval h => exact h.valid

theorem Writable.isChain {st : Statement} (h : st.Writable) : st.tokens.IsChain Beside := by
  cases h with
  | assign _ hv =>
    apply List.isChain_cons_cons.mpr ⟨⟨.inr rfl, by simp⟩, ?_⟩
    exact isChain_mark_cons rfl (by simp) hv.isChain
  | eval h => exact h.isChain

/-- The text of a statement, without blanks. -/
def text (st : Statement) : String := .ofList (st.tokens.flatMap Token.chars)

/-- **All texts of a statement are read as that statement,** and what is printed is one of them. -/
theorem read_spaced {st : Statement} (h : st.Writable) :
    Spaced st.tokens st.text.toList ∧ ∀ text : String, Spaced st.tokens text.toList →
      read text = .ok st := by
  refine ⟨?_, fun text hspaced => ?_⟩
  · rw [text, String.toList_ofList]
    exact Spaced.flatMap_chars h.valid
  · have hscan : Token.scan text = .ok st.tokens := hspaced.scanFrom h.isChain 0
    rw [read, hscan]
    exact ofTokens_tokens h

/-- A statement with a field that is named like a truth value. -/
def saving : Statement :=
  .assign "0x" (.field (.call "save" [.literal (.int (-42)), .literal (.string "it's"),
    .index (.field (.variable "row") "true") (.literal .null)]) "size")

/-- One of its texts has a line break, a broad blank and a number that begins with a zero, and the
apostrophe is between quotes of the other kind. -/
theorem read_saving : saving.Writable ∧
    Spaced saving.tokens "\n#0x= save(-042,\u2003\"it's\",#row.true [null]).size".toList ∧
    read "\n#0x= save(-042,\u2003\"it's\",#row.true [null]).size" = .ok saving := by
  have hwritable : saving.Writable := by
    refine .assign (by decide +kernel) (.field (.call (by decide +kernel) (by decide) ?_)
      (by decide +kernel))
    intro e he
    simp only [List.mem_cons, List.not_mem_nil, or_false] at he
    rcases he with rfl | rfl | rfl
    · exact .int (by decide) (by decide)
    · exact .string _
    · exact .index (.field (.reference (by decide +kernel)) (by decide +kernel)) .null
  have hnumber : (Token.integer (-Nat.ofDigitChars 10 "042".toList 0)).Spelled
      ('-' :: "042".toList) :=
    .negative (by decide) (List.all_eq_true.mp (by decide)) (by decide)
  have hquoted : Token.Quoted '"' "it's".toList "it's".toList :=
    .plain (by decide) (by decide) <| .plain (by decide) (by decide) <|
      .plain (by decide) (by decide) <|
      .plain (by decide) (by decide) .nil
  have hkey : Spaced [.leftBracket, .ident "null", .rightBracket, .rightParen, .dot, .ident "size"]
      "[null]).size".toList :=
    .token (.mark rfl) <| .token (.ident (by decide +kernel)) <| .token (.mark rfl) <|
      .token (.mark rfl) <|
      .token (.mark rfl) <| .token (.ident (by decide +kernel)) .nil
  have hspaced :
      Spaced saving.tokens "\n#0x= save(-042,\u2003\"it's\",#row.true [null]).size".toList :=
    .blank rfl <| .token (.reference (by decide +kernel)) <| .token (.mark rfl) <| .blank rfl <|
      .token (.ident (by decide +kernel)) <| .token (.mark rfl) <| .token hnumber <|
        .token (.mark rfl) <|
      .blank rfl <| .token (.text (.inr rfl) hquoted) <| .token (.mark rfl) <|
      .token (.reference (by decide +kernel)) <| .token (.mark rfl) <|
        .token (.ident (by decide +kernel)) <|
      .blank rfl hkey
  exact ⟨hwritable, hspaced, (read_spaced hwritable).2 _ hspaced⟩

end Statement
end LiveSpec
