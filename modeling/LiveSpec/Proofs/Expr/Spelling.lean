import LiveSpec.Proofs.Expr.Grammar

/-!
# The spelling of tokens

A list of tokens has many texts: blanks can stand before, after and between the tokens, each string
can stand between quotes of either kind, and a character in a string can stand after a backslash.
`Token.Spelled` says how one token is written and `Spaced` how a list of them is.

The scanner takes as much as it can for one token. That it stops in the right place without a blank
is a matter of what can stand beside what: of two neighbours in a statement one is a mark, and a
point is never followed by a number (`Token.Beside`). So what follows a name is no character of
names, and what follows a number is neither a digit nor a point with a digit after it
(`Token.EndsAt`, `Spaced.endsAt`), and the tokens of the text are scanned as they are
(`Spaced.scanFrom`).
-/

namespace LiveSpec

open Text (isBlank within)
open Numeral (isDigit)

namespace Token

/-! ## Classes of characters -/

/-- The code points of the blanks. -/
def blankPoints : List Nat :=
  [9, 10, 11, 12, 13, 32, 0x85, 0xA0, 0x1680, 0x2000, 0x2001, 0x2002, 0x2003, 0x2004, 0x2005,
    0x2006, 0x2007, 0x2008,
    0x2009, 0x200A, 0x2028, 0x2029, 0x202F, 0x205F, 0x3000]

/-- The code points of ASCII that begin a token other than a name. -/
def otherPoints : List Nat :=
  ['(', ')', '[', ']', '.', ',', '=', '#', '\'', '"', '-', '0', '1', '2', '3', '4', '5', '6', '7',
    '8', '9'].map Char.toNat

variable {c : Char} {t : Token} {cs rest : List Char}

/-- A blank is one of the code points listed. -/
theorem mem_blankPoints (h : isBlank c = true) : c.toNat ∈ blankPoints := by
  simp only [isBlank, Bool.or_eq_true, Bool.and_eq_true, decide_eq_true_eq, beq_iff_eq] at h
  simp only [blankPoints, List.mem_cons, List.not_mem_nil, or_false]
  omega

/-- A blank is no character of names. -/
theorem inName_of_isBlank (h : isBlank c = true) : inName c = false := by
  have hpoints : ∀ n ∈ blankPoints, within n Text.alphabetic = false ∧
      within n Text.numeric = false ∧ n ≠ 95 := by
    decide +kernel
  obtain ⟨halpha, hnumeric, hline⟩ := hpoints _ (mem_blankPoints h)
  have hne : c ≠ '_' := by
    rintro rfl
    exact hline rfl
  simp [inName, Text.isLetterOrNumber, Text.isLetter, halpha, hnumeric, hne]

/-- What begins a name is no blank and begins no other token. -/
theorem notMem_of_beginsName (h : beginsName c = true) : c.toNat ∉ blankPoints ++ otherPoints := by
  have hpoints : ∀ n ∈ blankPoints ++ otherPoints, within n Text.alphabetic = false ∧ n ≠ 95 := by
    decide +kernel
  intro hmem
  obtain ⟨halpha, hline⟩ := hpoints _ hmem
  have hne : c ≠ '_' := by
    rintro rfl
    exact hline rfl
  simp [beginsName, Text.isLetter, halpha, hne] at h

/-- A digit is one of the other code points listed. -/
theorem mem_otherPoints_of_isDigit (h : isDigit c = true) : c.toNat ∈ otherPoints := by
  simp only [isDigit, Bool.and_eq_true, decide_eq_true_eq] at h
  have hlow : 48 ≤ c.toNat := h.1
  have hhigh : c.toNat ≤ 57 := h.2
  have hall : ∀ n ∈ List.range' 48 10, n ∈ otherPoints := by decide
  exact hall _ (List.mem_range'_1.mpr ⟨hlow, by omega⟩)

/-- No digit is blank. -/
theorem isBlank_of_isDigit (h : isDigit c = true) : isBlank c = false := by
  have hdisjoint : ∀ n ∈ blankPoints, n ∉ otherPoints := by decide
  by_contra hb
  exact hdisjoint _ (mem_blankPoints (by simpa using hb)) (mem_otherPoints_of_isDigit h)

/-- No name begins with a digit. -/
theorem isDigit_of_beginsName (h : beginsName c = true) : isDigit c = false := by
  by_contra hd
  exact notMem_of_beginsName h
    (List.mem_append_right _ (mem_otherPoints_of_isDigit (by simpa using hd)))

/-- No name begins with a blank. -/
theorem isBlank_of_beginsName (h : beginsName c = true) : isBlank c = false := by
  by_contra hb
  exact notMem_of_beginsName h (List.mem_append_left _ (mem_blankPoints (by simpa using hb)))

/-- No name begins with a mark, a quote or another character of the language. -/
theorem ne_of_beginsName (h : beginsName c = true) {d : Char}
    (hd : d.toNat ∈ otherPoints) : c ≠ d := by
  rintro rfl
  exact notMem_of_beginsName h (List.mem_append_right _ hd)

/-- The characters that are a token each. -/
def markChars : List Char := ['(', ')', '[', ']', '.', ',', '=']

theorem forall_markChars {p : Char → Prop} :
    (∀ c ∈ markChars, p c) ↔ p '(' ∧ p ')' ∧ p '[' ∧ p ']' ∧ p '.' ∧ p ',' ∧ p '=' := by
  simp [markChars]

theorem mem_markChars (h : ofMark? c = some t) : c ∈ markChars := by
  by_contra hmem
  simp only [markChars, List.mem_cons, List.not_mem_nil, or_false, not_or] at hmem
  simp [ofMark?, hmem] at h

/-- A character that is no mark makes no token of one character. -/
theorem ofMark?_eq_none (h : c ∉ markChars) : ofMark? c = none := by
  cases hmark : ofMark? c with
  | none => rfl
  | some t => exact absurd (mem_markChars hmark) h

theorem ofMark?_of_beginsName (h : beginsName c = true) : ofMark? c = none := by
  have hall : ∀ d ∈ markChars, d.toNat ∈ otherPoints := forall_markChars.mpr (by decide)
  apply ofMark?_eq_none
  intro hmem
  exact notMem_of_beginsName h (List.mem_append_right _ (hall c hmem))

/-- What begins a number begins no other token. -/
theorem ne_of_isDigit (h : isDigit c = true ∨ c = '-') :
    ofMark? c = none ∧ c ≠ '#' ∧ ¬ (c = '\'' ∨ c = '"') := by
  have hother {d : Char} (hd : isDigit d = false ∧ d ≠ '-') : c ≠ d := by
    rintro rfl
    simp [hd] at h
  refine ⟨ofMark?_eq_none ?_, hother (by decide), ?_⟩
  · have hall : ∀ d ∈ markChars, isDigit d = false ∧ d ≠ '-' := forall_markChars.mpr (by decide)
    intro hmem
    exact hother (hall c hmem) rfl
  · rintro (hc | hc)
    · exact hother (by decide) hc
    · exact hother (by decide) hc

/-! ## How a token is written -/

/-- A string between quotes of a kind: each character stands for itself, or after a backslash. The
quote and the backslash only stand after one. -/
inductive Quoted (quote : Char) : List Char → List Char → Prop
  | nil : Quoted quote [] []
  | plain {c : Char} {cs body : List Char} (hquote : c ≠ quote) (hslash : c ≠ '\\')
    (h : Quoted quote cs body) :
    Quoted quote (c :: cs) (c :: body)
  | escaped {c : Char} {cs body : List Char} (h : Quoted quote cs body) :
    Quoted quote (c :: cs) ('\\' :: c :: body)

/-- The texts of a token. A number can begin with zeros. -/
inductive Spelled : Token → List Char → Prop
  | reference {name : String} (h : IsRun name) : Spelled (.variable name) ('#' :: name.toList)
  | ident {name : String} (h : IsIdent name) : Spelled (.ident name) name.toList
  | text {quote : Char} {s : String} {body : List Char} (hquote : quote = '\'' ∨ quote = '"')
    (h : Quoted quote s.toList body) : Spelled (.text s) (quote :: (body ++ [quote]))
  | natural {ds : List Char} (hne : ds ≠ []) (hds : ∀ d ∈ ds, isDigit d = true)
    (high : Nat.ofDigitChars 10 ds 0 < 0x8000000000000000) :
      Spelled (.integer (Nat.ofDigitChars 10 ds 0)) ds
  | negative {ds : List Char} (hne : ds ≠ []) (hds : ∀ d ∈ ds, isDigit d = true)
    (low : Nat.ofDigitChars 10 ds 0 ≤ 0x8000000000000000) :
      Spelled (.integer (-Nat.ofDigitChars 10 ds 0)) ('-' :: ds)
  | mark {c : Char} {t : Token} (h : ofMark? c = some t) : Spelled t [c]

/-- Says that a text does not go on with what could belong to a token before it. -/
def EndsAt : Token → List Char → Prop
  | .variable _, rest | .ident _, rest => ∀ c ∈ rest.head?, inName c = false
  | .integer _, rest =>
    (∀ c ∈ rest.head?, isDigit c = false) ∧ ∀ d more, rest = '.' :: d :: more → isDigit d = false
  | _, _ => True

/-- A run of characters of a class ends where a character is none of it. -/
theorem span_run {p : Char → Bool} (h : ∀ c ∈ cs, p c = true)
    (hrest : ∀ c ∈ rest.head?, p c = false) :
    (cs ++ rest).takeWhile p = cs ∧ (cs ++ rest).dropWhile p = rest := by
  rw [List.takeWhile_append_of_pos h, List.dropWhile_append_of_pos h]
  cases rest with
  | nil => simp
  | cons c rest =>
    have hc := hrest c rfl
    simp [hc]

/-- The body of a string ends at the quote that does not stand after a backslash. -/
theorem textBody_quoted {quote : Char} {body : List Char} (hquote : quote ≠ '\\')
    (h : Quoted quote cs body) (rest : List Char) :
    textBody quote (body ++ quote :: rest) = some (cs, rest) := by
  induction h with
  | nil =>
    cases rest with
    | nil => simp [textBody]
    | cons d rest => simp [textBody, hquote]
  | @plain c cs body hne hslash _ ih =>
    obtain ⟨d, ds, hds⟩ : ∃ d ds, body ++ quote :: rest = d :: ds := by
      cases body <;> exact ⟨_, _, rfl⟩
    rw [hds] at ih
    rw [List.cons_append, hds, textBody, if_neg hslash, if_neg hne, ih]
    rfl
  | @escaped c cs body _ ih =>
    rw [List.cons_append, List.cons_append, textBody, if_pos rfl, ih]
    rfl

/-! ## Scanning one token -/

/-- The first token of a text, with the text after it. -/
def first (position : Nat) (c : Char) (cs : List Char) : Except SyntaxFault (Token × List Char) :=
  (next position c cs).map fun r => (r.1, r.2.1)

variable {position : Nat}

/-- A mark is read as its token, whatever follows. -/
theorem first_mark (h : ofMark? c = some t) : first position c rest = .ok (t, rest) := by
  simp only [first, next, h]
  rfl

/-- A variable is read up to the first character that no name can have. -/
theorem first_variable {name : String} (h : IsRun name)
    (hends : ∀ c ∈ rest.head?, inName c = false) :
    first position '#' (name.toList ++ rest) = .ok (.variable name, rest) := by
  obtain ⟨htake, hdrop⟩ := span_run (fun c hc => h.inName hc) hends
  have hmark : ofMark? '#' = none := rfl
  have hsome : name.toList.isEmpty = false := by simpa using h.nonempty
  simp [first, next, hmark, htake, hdrop, hsome, Except.map]

/-- So is an identifier. -/
theorem first_ident {name : String} (h : IsIdent name) (hends : ∀ c ∈ rest.head?, inName c = false)
    (hname : name.toList = c :: cs) : first position c (cs ++ rest) = .ok (.ident name, rest) := by
  have hbegins : beginsName c = true := h.begins (by rw [hname]; rfl)
  have hcs : ∀ d ∈ cs, inName d = true :=
    fun d hd => h.inName (by rw [hname]; exact List.mem_cons_of_mem c hd)
  obtain ⟨htake, hdrop⟩ := span_run hcs hends
  have hmark := ofMark?_of_beginsName hbegins
  have hhash : c ≠ '#' := ne_of_beginsName hbegins (by decide)
  have hquote : ¬ (c = '\'' ∨ c = '"') := by
    rintro (rfl | rfl)
    · exact ne_of_beginsName hbegins (by decide) rfl
    · exact ne_of_beginsName hbegins (by decide) rfl
  have hnumber : beginsNumber c (cs ++ rest) = false := by
    have hminus : c ≠ '-' := ne_of_beginsName hbegins (by decide)
    simp [beginsNumber, isDigit_of_beginsName hbegins, hminus]
  have hback : String.ofList (c :: cs) = name := by rw [← hname, String.ofList_toList]
  simp [first, next, hmark, hhash, hquote, hnumber, hbegins, htake, hdrop, hback, Except.map]

/-- A quoted text is read up to its closing quote. -/
theorem first_text {quote : Char} {s : String} {body : List Char}
    (hquote : quote = '\'' ∨ quote = '"') (h : Quoted quote s.toList body) :
    first position quote (body ++ quote :: rest) = .ok (.text s, rest) := by
  have hmark : ofMark? quote = none := by rcases hquote with rfl | rfl <;> rfl
  have hhash : quote ≠ '#' := by rcases hquote with rfl | rfl <;> decide
  have hslash : quote ≠ '\\' := by rcases hquote with rfl | rfl <;> decide
  have hbody := textBody_quoted hslash h rest
  simp only [first, next, hmark, if_neg hhash, if_pos hquote]
  split
  · next b r hb =>
    rw [hbody] at hb
    cases hb
    simp [Except.map]
  · next hnone =>
    rw [hbody] at hnone
    cases hnone

/-! ### Numbers -/

variable {ds : List Char}

/-- Digits are worth the number they write to the base of ten. -/
theorem digitsValue_eq (ds : List Char) (n : Nat) :
    Numeral.digitsValue n ds = Nat.ofDigitChars 10 ds n :=
  (Nat.ofDigitChars_eq_foldl).symm

/-- A run of digits is read as its number. -/
theorem natural?_digits (hne : ds ≠ []) (hds : ∀ d ∈ ds, isDigit d = true) :
    Numeral.natural? ds = some (Nat.ofDigitChars 10 ds 0) := by
  have hsome : ds.isEmpty = false := by simpa using hne
  have hall : ds.all isDigit = true := List.all_eq_true.mpr hds
  simp [Numeral.natural?, hsome, hall, digitsValue_eq]

/-- A run of digits is an integer if it fits into 64 bits with a sign. -/
theorem signed?_natural (hne : ds ≠ []) (hds : ∀ d ∈ ds, isDigit d = true)
    (high : Nat.ofDigitChars 10 ds 0 < 0x8000000000000000) :
    Numeral.signed? ds = some (Nat.ofDigitChars 10 ds 0 : Int) := by
  have hnat := natural?_digits hne hds
  have hrange : (-0x8000000000000000 : Int) ≤ Nat.ofDigitChars 10 ds 0 ∧
      (Nat.ofDigitChars 10 ds 0 : Int) < 0x8000000000000000 := by omega
  unfold Numeral.signed?
  split
  · next heq => exact absurd (hds '-' (by simp)) (by decide)
  · next heq => exact absurd (hds '+' (by simp)) (by decide)
  · simp [hnat, Option.filter, hrange]

/-- With a minus sign before them, the digits reach one number further down. -/
theorem signed?_negative (hne : ds ≠ []) (hds : ∀ d ∈ ds, isDigit d = true)
    (low : Nat.ofDigitChars 10 ds 0 ≤ 0x8000000000000000) :
    Numeral.signed? ('-' :: ds) = some (-(Nat.ofDigitChars 10 ds 0 : Int)) := by
  have hnat := natural?_digits hne hds
  have hrange : (-0x8000000000000000 : Int) ≤ -(Nat.ofDigitChars 10 ds 0 : Int) ∧
      -(Nat.ofDigitChars 10 ds 0 : Int) < 0x8000000000000000 := by omega
  simp [Numeral.signed?, hnat, Option.filter, hrange]

/-- The span of a number: a sign if there is one, and its digits. -/
theorem numberSpan_digits {sign : List Char} (hsign : sign = [] ∨ sign = ['-']) (hne : ds ≠ [])
    (hds : ∀ d ∈ ds, isDigit d = true) (hends : EndsAt (.integer 0) rest) :
    numberSpan (sign ++ ds ++ rest) = ((sign ++ ds).length, false) := by
  obtain ⟨htake, hdrop⟩ := span_run hds hends.1
  have hhead : (if (sign ++ ds ++ rest).head? = some '-' then 1 else 0) = sign.length := by
    rcases hsign with rfl | rfl
    · cases ds with
      | nil => exact absurd rfl hne
      | cons d ds =>
        have hd : d ≠ '-' := by
          rintro rfl
          exact absurd (hds '-' (by simp)) (by decide)
        simp [hd]
    · rfl
  have hwhole : (((sign ++ ds ++ rest).drop sign.length).takeWhile isDigit).length = ds.length := by
    rw [List.append_assoc, List.drop_left, htake]
  have hrest : (sign ++ ds ++ rest).drop (sign.length + ds.length) = rest := by
    rw [← List.length_append, List.drop_left]
  unfold numberSpan
  simp only [hhead, hwhole, hrest, List.length_append]
  split
  · next d more => rw [if_neg (by simp [hends.2 d more rfl])]
  · rfl

/-- A number is scanned, with its sign, up to its last digit. -/
theorem first_number {sign : List Char} {n : Int} (hsign : sign = [] ∨ sign = ['-']) (hne : ds ≠ [])
    (hds : ∀ d ∈ ds, isDigit d = true) (hvalue : Numeral.signed? (sign ++ ds) = some n)
    (hends : EndsAt (.integer n) rest) (hcs : sign ++ ds = c :: cs) :
    first position c (cs ++ rest) = .ok (.integer n, rest) := by
  have hspan := numberSpan_digits hsign hne hds hends
  rw [hcs] at hspan hvalue
  have hbegins : beginsNumber c (cs ++ rest) = true := by
    rcases hsign with rfl | rfl
    · have hc : isDigit c = true := hds c (by rw [List.nil_append] at hcs; simp [hcs])
      simp [beginsNumber, hc]
    · obtain ⟨d, ds, rfl⟩ := List.exists_cons_of_ne_nil hne
      cases hcs
      have hd : isDigit d = true := hds d (by simp)
      simp [beginsNumber, hd]
  obtain ⟨hmark, hhash, hquote⟩ := ne_of_isDigit (c := c) (by
    rcases hsign with rfl | rfl
    · exact .inl (hds c (by rw [List.nil_append] at hcs; simp [hcs]))
    · cases hcs
      exact .inr rfl)
  have htake : (c :: (cs ++ rest)).take (c :: cs).length = c :: cs := by
    rw [← List.cons_append, List.take_left]
  have hdrop : (cs ++ rest).drop ((c :: cs).length - 1) = rest := by
    rw [List.length_cons, Nat.add_sub_cancel, List.drop_left]
  have hnumber : numberSpan (c :: (cs ++ rest)) = ((c :: cs).length, false) := hspan
  simp only [first, next, hmark, if_neg hhash, if_neg hquote, if_pos hbegins, hnumber, htake,
    ofNumber, hvalue,
    Except.map, Bool.false_eq_true, if_false, hdrop]

/-- No token is spelled by nothing. -/
theorem Spelled.exists_cons {lexeme : List Char} (h : t.Spelled lexeme) :
    ∃ c cs, lexeme = c :: cs := by
  apply List.exists_cons_of_ne_nil
  cases h with
  | reference | text | negative | mark => simp
  | ident h => exact h.nonempty
  | natural hne => exact hne

/-- A token is scanned as such, where the text does not go on with what could belong to it. -/
theorem first_spelled {lexeme : List Char} (h : t.Spelled lexeme) (hends : t.EndsAt rest)
    (hlexeme : lexeme = c :: cs) : first position c (cs ++ rest) = .ok (t, rest) := by
  cases h with
  | reference h =>
    cases hlexeme
    exact first_variable h hends
  | ident h => exact first_ident h hends hlexeme
  | text hquote h =>
    cases hlexeme
    rw [List.append_assoc]
    exact first_text hquote h
  | natural hne hds high =>
    exact first_number (.inl rfl) hne hds (signed?_natural hne hds high) hends hlexeme
  | negative hne hds low =>
    exact first_number (.inr rfl) hne hds (signed?_negative hne hds low) hends hlexeme
  | mark h =>
    cases hlexeme
    exact first_mark h

/-- A text is scanned by its first token and then the rest. -/
theorem scanFrom_of_first {ts : List Token} (hblank : isBlank c = false)
    (hfirst : first position c cs = .ok (t, rest))
    (hrest : ∀ position, scanFrom position rest = .ok ts) :
    scanFrom position (c :: cs) = .ok (t :: ts) := by
  obtain ⟨⟨t', ⟨rest', hlength⟩⟩, hnext⟩ : ∃ r, next position c cs = .ok r := by
    cases hr : next position c cs with
    | ok r => exact ⟨r, rfl⟩
    | error e => simp [first, hr, Except.map] at hfirst
  simp only [first, hnext, Except.map, Except.ok.injEq, Prod.mk.injEq] at hfirst
  obtain ⟨rfl, rfl⟩ := hfirst
  rw [scanFrom, if_neg (by simp [hblank]), hnext]
  simp only [hrest]

/-! ## Tokens beside each other -/

/-- Says whether a token is a character of its own. -/
def isMark : Token → Bool
  | .leftParen | .rightParen | .leftBracket | .rightBracket | .dot | .comma | .equals => true
  | _ => false

/-- Says whether a token is an integer. -/
def isInteger : Token → Bool
  | .integer _ => true
  | _ => false

/-- Says that two tokens can stand beside each other without a blank: one is a mark, and a point is
not followed by a number. -/
def Beside (t t' : Token) : Prop := (t.isMark = true ∨ t'.isMark = true) ∧
    (t = .dot → t'.isInteger = false)

/-- No token begins with a blank. -/
theorem Spelled.isBlank_head (h : t.Spelled (c :: cs)) : isBlank c = false := by
  generalize hlexeme : c :: cs = lexeme at h
  cases h with
  | reference => cases hlexeme; rfl
  | ident h => exact isBlank_of_beginsName (h.begins (by rw [← hlexeme]; rfl))
  | text hquote => cases hlexeme; rcases hquote with rfl | rfl <;> rfl
  | natural _ hds =>
    exact isBlank_of_isDigit (hds c (by simp [← hlexeme]))
  | negative => cases hlexeme; rfl
  | mark h =>
    cases hlexeme
    exact forall_markChars (p := fun c => isBlank c = false).mpr (by decide) c (mem_markChars h)

/-- A mark is spelled by its own character. -/
theorem Spelled.head_mem_markChars (h : t.Spelled (c :: cs)) (ht : t.isMark = true) :
    c ∈ markChars := by
  generalize hlexeme : c :: cs = lexeme at h
  cases h with
  | reference | ident | text | natural | negative => cases ht
  | mark h =>
    cases hlexeme
    exact mem_markChars h

/-- Only integers begin with a digit. -/
theorem Spelled.isDigit_head (h : t.Spelled (c :: cs)) (ht : t.isInteger = false) :
    isDigit c = false := by
  generalize hlexeme : c :: cs = lexeme at h
  cases h with
  | reference => cases hlexeme; rfl
  | ident h => exact isDigit_of_beginsName (h.begins (by rw [← hlexeme]; rfl))
  | text hquote => cases hlexeme; rcases hquote with rfl | rfl <;> rfl
  | natural | negative => cases ht
  | mark h =>
    cases hlexeme
    exact forall_markChars (p := fun c => isDigit c = false).mpr (by decide) c (mem_markChars h)

/-- What begins with a dot is the dot alone. -/
theorem Spelled.eq_dot (h : t.Spelled ('.' :: cs)) : t = .dot ∧ cs = [] := by
  generalize hlexeme : '.' :: cs = lexeme at h
  cases h with
  | reference | negative => cases hlexeme
  | ident h => exact absurd (h.begins (by rw [← hlexeme]; rfl)) (by decide +kernel)
  | text hquote => rcases hquote with rfl | rfl <;> cases hlexeme
  | natural _ hds => exact absurd (hds '.' (by simp [← hlexeme])) (by decide)
  | mark h =>
    cases hlexeme
    cases h
    exact ⟨rfl, rfl⟩

end Token

/-! ## Lists of tokens -/

/-- The texts of a list of tokens: blanks can stand before each token and at the end. -/
inductive Spaced : List Token → List Char → Prop
  | nil : Spaced [] []
  | blank {c : Char} {ts : List Token} {cs : List Char} (hc : isBlank c = true) (h : Spaced ts cs) :
    Spaced ts (c :: cs)
  | token {t : Token} {ts : List Token} {lexeme rest : List Char} (ht : t.Spelled lexeme)
    (h : Spaced ts rest) :
    Spaced (t :: ts) (lexeme ++ rest)

namespace Spaced

open Token

variable {t : Token} {ts : List Token} {c : Char} {cs rest : List Char}

/-- What a text begins with, after a token of the list: a blank or the next token. -/
theorem head_cases (h : Spaced ts (c :: cs)) :
    isBlank c = true ∨ ∃ t ts' lexeme rest, ts = t :: ts' ∧ t.Spelled (c :: lexeme) ∧
      Spaced ts' rest ∧ cs = lexeme ++ rest := by
  generalize htext : c :: cs = text at h
  cases h with
  | nil => cases htext
  | blank hc =>
    cases htext
    exact .inl hc
  | token ht h =>
    obtain ⟨d, ds, rfl⟩ := ht.exists_cons
    cases htext
    exact .inr ⟨_, _, _, _, rfl, ht, h, rfl⟩

/-- Before a neighbour that is a mark, and before a blank, a name or a number ends. -/
theorem head_inName (h : Spaced ts (c :: cs)) (hmark : ∀ t ∈ ts.head?, t.isMark = true) :
    inName c = false := by
  rcases h.head_cases with hblank | ⟨t, ts', lexeme, rest, rfl, ht, -, -⟩
  · exact inName_of_isBlank hblank
  · have hc := ht.head_mem_markChars (hmark t rfl)
    exact forall_markChars (p := fun c => inName c = false).mpr (by decide +kernel) c hc

/-- A spaced text begins with a digit only if an integer comes first. -/
theorem head_isDigit (h : Spaced ts (c :: cs)) (hnumber : ∀ t ∈ ts.head?, t.isInteger = false) :
    isDigit c = false := by
  rcases h.head_cases with hblank | ⟨t, ts', lexeme, rest, rfl, ht, -, -⟩
  · by_contra hdigit
    rw [isBlank_of_isDigit (by simpa using hdigit)] at hblank
    cases hblank
  · exact ht.isDigit_head (hnumber t rfl)

/-- A token ends where the text of its neighbours begins. -/
theorem endsAt (h : Spaced ts rest) (hchain : (t :: ts).IsChain Beside) : t.EndsAt rest := by
  obtain ⟨hhead, htail⟩ := List.isChain_cons.mp hchain
  have hmark (ht : t.isMark = false) : ∀ t' ∈ ts.head?, t'.isMark = true := by
    intro t' ht'
    simpa [ht] using (hhead t' ht').1
  cases t with
  | «variable» | ident =>
    intro c hc
    obtain ⟨cs, rfl⟩ := List.head?_eq_some_iff.mp hc
    exact h.head_inName (hmark rfl)
  | integer n =>
    refine ⟨?_, ?_⟩
    · intro c hc
      obtain ⟨cs, rfl⟩ := List.head?_eq_some_iff.mp hc
      apply h.head_isDigit
      intro t' ht'
      have hsome := hmark rfl t' ht'
      cases t' <;> first | rfl | cases hsome
    · rintro d more rfl
      -- the point is a token, and no number stands after it
      rcases h.head_cases with hblank | ⟨t', ts', lexeme, rest, rfl, ht', hrest, htext⟩
      · cases hblank
      · obtain ⟨rfl, rfl⟩ := ht'.eq_dot
        rw [List.nil_append] at htext
        subst htext
        apply hrest.head_isDigit
        intro t'' ht''
        exact ((List.isChain_cons.mp htail).1 t'' ht'').2 rfl
  | _ => trivial

/-- The tokens of a text are scanned, whatever blanks there are. -/
theorem scanFrom (h : Spaced ts cs) (hchain : ts.IsChain Beside) (position : Nat) :
    Token.scanFrom position cs = .ok ts := by
  induction h generalizing position with
  | nil => rw [Token.scanFrom]
  | blank hc _ ih =>
    rw [Token.scanFrom, if_pos hc]
    exact ih hchain (position + 1)
  | @token t ts lexeme rest ht hrest ih =>
    obtain ⟨c, cs, rfl⟩ := ht.exists_cons
    have hnext :
        first position c (cs ++ rest) = .ok (t, rest) := first_spelled ht (hrest.endsAt hchain) rfl
    exact scanFrom_of_first ht.isBlank_head hnext (ih (List.isChain_cons.mp hchain).2)

/-- A text is read as the statement of the tokens in it. -/
theorem read {text : String} (h : Spaced ts text.toList) (hchain : ts.IsChain Beside) :
    Statement.read text = Statement.ofTokens ts := by
  unfold Statement.read
  rw [show Token.scan text = .ok ts from h.scanFrom hchain 0]

end Spaced

/-- A name after `#` is read as a variable. -/
theorem Statement.read_reference {name : String} (h : Token.IsRun name) :
    Statement.read ("#" ++ name) = .ok (.eval (.variable name)) := by
  have hspaced : Spaced [.variable name] ("#" ++ name).toList := by
    have htoken : Spaced [.variable name] ('#' :: name.toList ++ []) := .token (.reference h) .nil
    rw [String.toList_append]
    rwa [List.append_nil] at htoken
  rw [hspaced.read (List.isChain_singleton _)]
  rfl

end LiveSpec
