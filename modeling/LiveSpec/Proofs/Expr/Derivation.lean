import LiveSpec.Proofs.Expr.Spelling

/-!
# What is read is in the grammar

The grammar is written down as a family of derivations, with a constructor for each alternative of
its rules:

* a statement is `#name = expr`, or an `expr`;
* an `expr` is a `primary`, followed by any number of `.name` and `[expr]`;
* a `primary` is `#name`, a name, a name with `args` between parentheses, a text, a number or one of
  the three words;
* `args` are any number of `expr` with commas between them.

A phrase is derived from one list of tokens only (`Derives.canonical`), and the reader takes nothing
else: the tokens it has used up are a derivation of what it gives, and the rest is left as it was
(`Expr.sound`). So a text that is read as a statement has exactly the tokens of that statement
(`Statement.read_sound`).

The derivations also say where tokens can stand. Next to a comma there are operands on both sides,
each bracket that opens is closed by one of its kind, and the last token ends an operand: a text
whose tokens are not in such an order (`Token.WellPlaced`) is refused.
-/

namespace LiveSpec

/-! ## The grammar -/

/-- A rule of the grammar, with what is derived by it. -/
inductive Phrase where
  | statement (st : Statement)
  | expr (e : Expr)
  | primary (e : Expr)
  | args (es : List Expr)

/-- The tokens that the grammar allows for a phrase. -/
inductive Derives : Phrase → List Token → Prop
  | assign {name : String} {e : Expr} {ts : List Token} (h : Derives (.expr e) ts) :
    Derives (.statement (.assign name e)) (.variable name :: .equals :: ts)
  | eval {e : Expr} {ts : List Token} (h : Derives (.expr e) ts) : Derives (.statement (.eval e)) ts
  | alone {e : Expr} {ts : List Token} (h : Derives (.primary e) ts) : Derives (.expr e) ts
  | field {e : Expr} {ts : List Token} {name : String} (h : Derives (.expr e) ts) :
    Derives (.expr (.field e name)) (ts ++ [.dot, .ident name])
  | index {e key : Expr} {ts us : List Token} (h : Derives (.expr e) ts)
    (hkey : Derives (.expr key) us) :
    Derives (.expr (.index e key)) (ts ++ .leftBracket :: us ++ [.rightBracket])
  | reference {name : String} : Derives (.primary (.variable name)) [.variable name]
  | literal {v : Value} {t : Token} (h : v.literalTokens = [t]) :
    Derives (.primary (.literal v)) [t]
  | property {name : String} (free : Token.isKeyword name = false) :
    Derives (.primary (.property name)) [.ident name]
  | call {method : String} {es : List Expr} {ts : List Token}
    (free : Token.isKeyword method = false)
    (h : Derives (.args es) ts) :
      Derives (.primary (.call method es)) (.ident method :: .leftParen :: ts ++ [.rightParen])
  | noArgs : Derives (.args []) []
  | lastArg {e : Expr} {ts : List Token} (h : Derives (.expr e) ts) : Derives (.args [e]) ts
  | nextArg {e e' : Expr} {es : List Expr} {ts us : List Token} (h : Derives (.expr e) ts)
    (hs : Derives (.args (e' :: es)) us) : Derives (.args (e :: e' :: es)) (ts ++ .comma :: us)

/-- The tokens of a phrase. Those of arguments have no parenthesis after them. -/
def Phrase.IsSpelled : Phrase → List Token → Prop
  | .statement st, ts => ts = st.tokens
  | .expr e, ts | .primary e, ts => ts = e.tokens
  | .args es, ts => ts ++ [.rightParen] = Expr.argumentTokens es

/-- **A phrase is derived from its own tokens only.** -/
theorem Derives.canonical {p : Phrase} {ts : List Token} (h : Derives p ts) : p.IsSpelled ts := by
  induction h with
  | assign _ ih => exact congrArg (_ :: _ :: ·) ih
  | eval _ ih => exact ih
  | alone _ ih => exact ih
  | field _ ih => exact congrArg (· ++ _) ih
  | index _ _ ih ihkey =>
    obtain rfl := ih
    obtain rfl := ihkey
    exact rfl
  | reference => exact rfl
  | literal h => exact h.symm
  | property _ => exact rfl
  | call _ _ ih => exact congrArg (_ :: _ :: ·) ih
  | noArgs => exact rfl
  | lastArg _ ih => exact congrArg (· ++ _) ih
  | nextArg _ _ ih ihs =>
    obtain rfl := ih
    simp only [Phrase.IsSpelled] at ihs ⊢
    rw [Expr.argumentTokens, ← ihs, List.append_assoc, List.cons_append]

/-! ## What the reader uses up -/

namespace Expr

variable {fuel : Nat} {e e' : Expr} {es : List Expr} {name : String} {ts before rest : List Token}

/-- What the reader gives within a number of steps is derived from the tokens that it has used up.
-/
structure Sound (fuel : Nat) : Prop where
  read {ts rest : List Token} {e : Expr} (h : read fuel ts = .ok (e, rest)) :
    ∃ used, ts = used ++ rest ∧ Derives (.expr e) used
  steps {ts rest before : List Token} {e e' : Expr} (h : steps fuel e ts = .ok (e', rest))
    (hbefore : Derives (.expr e) before) : ∃ used, ts = used ++ rest ∧
      Derives (.expr e') (before ++ used)
  primary {ts rest : List Token} {e : Expr} (h : primary fuel ts = .ok (e, rest)) :
    ∃ used, ts = used ++ rest ∧ Derives (.primary e) used
  arguments {ts rest : List Token} {es : List Expr} (h : arguments fuel ts = .ok (es, rest)) :
    ∃ used, ts = used ++ .rightParen :: rest ∧ es ≠ [] ∧ Derives (.args es) used

/-- An expression is its primary and the steps after it. -/
theorem Sound.read_succ (hsound : Sound fuel) (h : Expr.read (fuel + 1) ts = .ok (e, rest)) :
    ∃ used, ts = used ++ rest ∧ Derives (.expr e) used := by
  rw [Expr.read] at h
  split at h
  · cases h
  · next _ _ hprimary =>
    obtain ⟨first, rfl, hfirst⟩ := hsound.primary hprimary
    obtain ⟨used, rfl, hused⟩ := hsound.steps h (.alone hfirst)
    exact ⟨first ++ used, (List.append_assoc ..).symm, hused⟩

/-- Each step goes on from the expression before it. -/
theorem Sound.steps_succ (hsound : Sound fuel) (h : Expr.steps (fuel + 1) e ts = .ok (e', rest))
    (hbefore : Derives (.expr e) before) : ∃ used, ts = used ++ rest ∧
      Derives (.expr e') (before ++ used) := by
  unfold Expr.steps at h
  split at h
  · next name more =>
    obtain ⟨used, rfl, hused⟩ := hsound.steps h (.field hbefore)
    exact ⟨.dot :: .ident name :: used, rfl, by simpa using hused⟩
  · cases h
  · next more =>
    split at h
    · cases h
    · next key after hkey =>
      obtain ⟨inside, rfl, hinside⟩ := hsound.read hkey
      obtain ⟨used, rfl, hused⟩ := hsound.steps h (.index hbefore hinside)
      exact ⟨.leftBracket :: inside ++ .rightBracket :: used, by simp, by simpa using hused⟩
    · cases h
    · cases h
  · obtain ⟨rfl, rfl⟩ := Prod.mk.inj (Except.ok.inj h)
    exact ⟨[], rfl, by simpa using hbefore⟩

/-- A name that is no literal is a property or the method of a call. -/
theorem Sound.primary_name (hsound : Sound fuel) (free : Token.isKeyword name = false)
    (h : Expr.primary (fuel + 1) (.ident name :: ts) = .ok (e, rest)) :
    ∃ used, .ident name :: ts = used ++ rest ∧ Derives (.primary e) used := by
  have hwords := free
  simp only [Token.isKeyword, Bool.or_eq_false_iff, decide_eq_false_iff_not] at hwords
  obtain ⟨⟨htrue, hfalse⟩, hnull⟩ := hwords
  simp only [Expr.primary, if_neg htrue, if_neg hfalse, if_neg hnull] at h
  split at h
  · obtain ⟨rfl, rfl⟩ := Prod.mk.inj (Except.ok.inj h)
    exact ⟨[.ident name, .leftParen, .rightParen], rfl, .call free .noArgs⟩
  · split at h
    · cases h
    · next hargs =>
      obtain ⟨rfl, rfl⟩ := Prod.mk.inj (Except.ok.inj h)
      obtain ⟨inside, rfl, -, hinside⟩ := hsound.arguments hargs
      exact ⟨.ident name :: .leftParen :: inside ++ [.rightParen], by simp, .call free hinside⟩
  · obtain ⟨rfl, rfl⟩ := Prod.mk.inj (Except.ok.inj h)
    exact ⟨[.ident name], rfl, .property free⟩

/-- A primary of one token. -/
theorem derives_token {t : Token} (hderives : Derives (.primary e') [t])
    (h : (.ok (e', ts) : Except SyntaxFault (Expr × List Token)) = .ok (e, rest)) :
    ∃ used, t :: ts = used ++ rest ∧ Derives (.primary e) used := by
  obtain ⟨rfl, rfl⟩ := Prod.mk.inj (Except.ok.inj h)
  exact ⟨[t], rfl, hderives⟩

theorem Sound.primary_succ (hsound : Sound fuel) (h : Expr.primary (fuel + 1) ts = .ok (e, rest)) :
    ∃ used, ts = used ++ rest ∧ Derives (.primary e) used := by
  cases ts with
  | nil => cases h
  | cons t ts =>
    cases t with
    | «variable» name => exact derives_token .reference h
    | text s => exact derives_token (.literal (v := .string s) rfl) h
    | integer n => exact derives_token (.literal (v := .int n) rfl) h
    | decimal x => exact derives_token (.literal (v := .float x) rfl) h
    | ident name =>
      cases hname : Token.isKeyword name with
      | false => exact hsound.primary_name hname h
      | true =>
        simp only [Token.isKeyword, Bool.or_eq_true, decide_eq_true_eq] at hname
        rcases hname with (rfl | rfl) | rfl
        · exact derives_token (.literal (v := .bool true) rfl) h
        · exact derives_token (.literal (v := .bool false) rfl) h
        · exact derives_token (.literal (v := .null) rfl) h
    | _ => cases h

/-- Each argument but the last is followed by a comma, the last by the closing parenthesis. -/
theorem Sound.arguments_succ (hsound : Sound fuel)
    (h : Expr.arguments (fuel + 1) ts = .ok (es, rest)) :
    ∃ used, ts = used ++ .rightParen :: rest ∧ es ≠ [] ∧ Derives (.args es) used := by
  rw [Expr.arguments] at h
  split at h
  · cases h
  · next e after he =>
    obtain ⟨first, rfl, hfirst⟩ := hsound.read he
    split at h
    · cases h
    · next es' _ hargs =>
      obtain ⟨rfl, rfl⟩ := Prod.mk.inj (Except.ok.inj h)
      obtain ⟨used, rfl, hne, hused⟩ := hsound.arguments hargs
      obtain ⟨e', es', rfl⟩ := List.exists_cons_of_ne_nil hne
      exact ⟨first ++ .comma :: used, by simp, by simp, .nextArg hfirst hused⟩
  · next e after he =>
    obtain ⟨rfl, rfl⟩ := Prod.mk.inj (Except.ok.inj h)
    obtain ⟨first, rfl, hfirst⟩ := hsound.read he
    exact ⟨first, rfl, by simp, .lastArg hfirst⟩
  · cases h

/-- **The reader takes nothing but the grammar,** however many steps it may take. -/
theorem sound (fuel : Nat) : Sound fuel := by
  induction fuel with
  | zero =>
    exact ⟨nofun, nofun, nofun, nofun⟩
  | succ fuel ih => exact ⟨ih.read_succ, ih.steps_succ, ih.primary_succ, ih.arguments_succ⟩

end Expr

/-! ## Where tokens can stand -/

namespace Token

/-- Says whether an operand can begin with a token. -/
def beginsOperand : Token → Bool
  | .variable _ | .ident _ | .text _ | .integer _ | .decimal _ => true
  | _ => false

/-- Says whether an operand can end with a token. -/
def endsOperand : Token → Bool
  | .rightParen | .rightBracket => true
  | t => t.beginsOperand

/-- Says whether a token can follow any operand. -/
def afterOperand : Token → Bool
  | .dot | .comma | .leftBracket | .rightBracket | .rightParen => true
  | _ => false

/-- Says whether the second of two tokens can stand directly after the first. -/
def leadsTo : Token → Token → Bool
  | .comma, u | .leftBracket, u | .equals, u => u.beginsOperand
  | .leftParen, .rightParen => true
  | .leftParen, u => u.beginsOperand
  | .dot, .ident _ => true
  | .dot, _ => false
  | .ident _, .leftParen => true
  | .variable _, .equals => true
  | _, u => u.afterOperand

/-- The brackets that are open after a token, the innermost first, given those open before it. It is
refused to close another bracket than the innermost one, and to put a comma elsewhere than between
parentheses. -/
def nest (stack : List Token) : Token → Option (List Token)
  | .leftParen => some (.leftParen :: stack)
  | .leftBracket => some (.leftBracket :: stack)
  | .rightParen => match stack with
    | .leftParen :: outer => some outer
    | _ => none
  | .rightBracket => match stack with
    | .leftBracket :: outer => some outer
    | _ => none
  | .comma => match stack with
    | .leftParen :: _ => some stack
    | _ => none
  | _ => some stack

/-- Tokens that begin and end like an operand, each of which can stand after the one before. -/
structure Joined (ts : List Token) : Prop where
  begins : ∃ t ∈ ts.head?, t.beginsOperand = true
  ends : ∃ t ∈ ts.getLast?, t.endsOperand = true
  chain : ts.IsChain fun t u => t.leadsTo u = true

/-- Tokens in such an order that none is missing and none too many: no operand is missing at either
end or next to a mark, none stands beside another without a comma, and all brackets are closed. -/
structure WellPlaced (ts : List Token) : Prop extends Joined ts where
  nested : ts.foldlM nest [] = some []

variable {t m : Token} {ts us : List Token}

theorem leadsTo_of_afterOperand (ht : t.endsOperand = true) (hm : m.afterOperand = true) :
    t.leadsTo m = true := by
  cases t <;> cases m <;>
    first | rfl | exact absurd ht Bool.false_ne_true | exact absurd hm Bool.false_ne_true

theorem Joined.token (ht : t.beginsOperand = true) : Joined [t] where
  begins := ⟨t, rfl, ht⟩
  ends := ⟨t, rfl, by cases t <;> first | exact ht | cases ht⟩
  chain := .singleton t

theorem leadsTo_of_leftParen (ht : t.beginsOperand = true) : Token.leftParen.leadsTo t = true := by
  cases t <;> first | rfl | exact absurd ht Bool.false_ne_true

theorem beginsOperand_of_literal {v : Value} (h : v.literalTokens = [t]) :
    t.beginsOperand = true := by
  cases v with
  | bool b => cases b <;> (obtain rfl := List.head_eq_of_cons_eq h; rfl)
  | array | object => cases h
  | _ => obtain rfl := List.head_eq_of_cons_eq h; rfl

theorem nest_of_beginsOperand (ht : t.beginsOperand = true) (stack : List Token) :
    nest stack t = some stack := by
  cases t <;> first | rfl | exact absurd ht Bool.false_ne_true

theorem foldlM_nest_append {stack inner : List Token} (h : ts.foldlM nest stack = some inner) :
    (ts ++ us).foldlM nest stack = us.foldlM nest inner := by
  rw [List.foldlM_append, h]
  rfl

/-- Two pieces with a mark between them that can stand there. -/
theorem Joined.append (h : Joined ts) (hs : Joined us)
    (hbefore : ∀ t ∈ ts.getLast?, t.leadsTo m = true)
    (hafter : ∀ u ∈ us.head?, m.leadsTo u = true) : Joined (ts ++ m :: us) where
  begins := by
    obtain ⟨t, ht, hbegins⟩ := h.begins
    exact ⟨t, List.mem_head?_append_of_mem_head? ht, hbegins⟩
  ends := by
    obtain ⟨t, ht, hends⟩ := hs.ends
    exact ⟨t, List.mem_getLast?_append_of_mem_getLast? (List.mem_getLast?_cons ht), hends⟩
  chain := by
    refine List.isChain_append.mpr ⟨h.chain, List.isChain_cons.mpr ⟨hafter, hs.chain⟩, ?_⟩
    intro t ht u hu
    obtain rfl : m = u := Option.some.inj hu
    exact hbefore t ht

theorem Joined.leadsTo (h : Joined ts) (hm : m.afterOperand = true) :
    ∀ t ∈ ts.getLast?, t.leadsTo m = true := by
  obtain ⟨t, ht, hends⟩ := h.ends
  intro u hu
  obtain rfl : t = u := Option.mem_unique ht hu
  exact leadsTo_of_afterOperand hends hm

/-- A closing bracket ends an operand. -/
theorem Joined.close (h : Joined ts) (hm : m = .rightParen ∨ m = .rightBracket) :
    Joined (ts ++ [m]) where
  begins := by
    obtain ⟨t, ht, hbegins⟩ := h.begins
    exact ⟨t, List.mem_head?_append_of_mem_head? ht, hbegins⟩
  ends := ⟨m, by simp, by rcases hm with rfl | rfl <;> rfl⟩
  chain := by
    refine List.isChain_append.mpr ⟨h.chain, .singleton m, ?_⟩
    intro t ht u hu
    obtain rfl : m = u := Option.some.inj hu
    exact h.leadsTo (by rcases hm with rfl | rfl <;> rfl) t ht

end Token

/-- The brackets that are open around a phrase: arguments stand between parentheses. -/
def Phrase.around (stack : List Token) : Phrase → List Token
  | .args _ => .leftParen :: stack
  | _ => stack

namespace Derives

variable {p : Phrase} {e : Expr} {ts : List Token}

/-- Only a list of no arguments has no tokens. -/
theorem joined (h : Derives p ts) : Token.Joined ts ∨ p = .args [] ∧ ts = [] := by
  have hexpr : ∀ {e : Expr} {ts : List Token}, Token.Joined ts ∨
      Phrase.expr e = .args [] ∧ ts = [] →
      Token.Joined ts := fun h => h.resolve_right nofun
  induction h with
  | @assign name e ts h ih =>
    have hvalue := hexpr ih
    obtain ⟨t, ht, hbegins⟩ := hvalue.begins
    refine .inl (Token.Joined.append (.token (t := .variable name) rfl) hvalue ?_ ?_)
    · rintro _ ⟨⟩
      rfl
    · intro u hu
      exact Option.mem_unique ht hu ▸ hbegins
  | eval _ ih => exact .inl (hexpr ih)
  | alone _ ih => exact .inl (ih.resolve_right nofun)
  | field _ ih =>
    have htarget := hexpr ih
    refine .inl (htarget.append (.token rfl) (htarget.leadsTo rfl) ?_)
    rintro _ ⟨⟩
    rfl
  | index _ _ ih ihkey =>
    have htarget := hexpr ih
    have hkey := (hexpr ihkey).close (.inr rfl)
    obtain ⟨t, ht, hbegins⟩ := hkey.begins
    rw [List.append_assoc]
    refine .inl (htarget.append hkey (htarget.leadsTo rfl) ?_)
    intro u hu
    exact Option.mem_unique ht hu ▸ hbegins
  | reference | property => exact .inl (.token rfl)
  | literal h => exact .inl (.token (Token.beginsOperand_of_literal h))
  | @call method _ _ _ _ ih =>
    have hmethod : Token.Joined [.ident method] := .token rfl
    rcases ih with hargs | ⟨-, rfl⟩
    · have hargs := hargs.close (.inl rfl)
      obtain ⟨t, ht, hbegins⟩ := hargs.begins
      refine .inl (hmethod.append hargs ?_ ?_)
      · rintro _ ⟨⟩
        rfl
      · intro u hu
        exact Option.mem_unique ht hu ▸ Token.leadsTo_of_leftParen hbegins
    · exact .inl ⟨⟨_, rfl, rfl⟩, ⟨_, rfl, rfl⟩, by simp [Token.leadsTo]⟩
  | noArgs => exact .inr ⟨rfl, rfl⟩
  | lastArg _ ih => exact .inl (hexpr ih)
  | nextArg _ _ ih ihs =>
    have hfirst := hexpr ih
    have hothers := ihs.resolve_right (by simp)
    obtain ⟨t, ht, hbegins⟩ := hothers.begins
    refine .inl (hfirst.append hothers (hfirst.leadsTo rfl) ?_)
    intro u hu
    exact Option.mem_unique ht hu ▸ hbegins

/-- A phrase leaves open what was open before it. -/
theorem nested (h : Derives p ts) (stack : List Token) :
    ts.foldlM Token.nest (p.around stack) = some (p.around stack) := by
  induction h generalizing stack with
  | assign _ ih => exact ih stack
  | eval _ ih => exact ih stack
  | alone _ ih => exact ih stack
  | field _ ih =>
    exact Token.foldlM_nest_append (ih stack)
  | index _ _ ih ihkey =>
    rw [List.append_assoc]
    exact (Token.foldlM_nest_append (ih stack)).trans
      (Token.foldlM_nest_append (ihkey (.leftBracket :: stack)))
  | reference | property => rfl
  | literal h =>
    rw [List.foldlM_cons, Token.nest_of_beginsOperand (Token.beginsOperand_of_literal h)]
    rfl
  | call _ _ ih => exact Token.foldlM_nest_append (ih stack)
  | noArgs => rfl
  | lastArg _ ih => exact ih _
  | nextArg _ _ ih ihs =>
    exact (Token.foldlM_nest_append (ih (.leftParen :: stack))).trans (ihs stack)

/-- The tokens of a statement are where they can stand. -/
theorem wellPlaced {st : Statement} (h : Derives (.statement st) ts) : Token.WellPlaced ts where
  toJoined := h.joined.resolve_right nofun
  nested := h.nested []

end Derives

/-! ## Statements -/

namespace Statement

variable {s s' : String} {st : Statement} {ts : List Token}

/-- A statement fills its tokens. -/
theorem derives_of_ofTokens (h : ofTokens ts = .ok st) : Derives (.statement st) ts := by
  have hwhole : ∀ {ts : List Token} {e : Expr}, Expr.read (4 * ts.length + 4) ts = .ok (e, []) →
      Derives (.expr e) ts := by
    intro ts e hread
    obtain ⟨used, rfl, hused⟩ := (Expr.sound _).read hread
    rwa [List.append_nil]
  unfold ofTokens at h
  dsimp only at h
  split at h
  · split at h
    · cases h
    · next hread =>
      obtain rfl := Except.ok.inj h
      exact .assign (hwhole hread)
    · cases h
  · split at h
    · cases h
    · next hread =>
      obtain rfl := Except.ok.inj h
      exact .eval (hwhole hread)
    · cases h

/-- The tokens of a text that is read are a derivation of its statement. -/
theorem scan_of_read (h : read s = .ok st) : ∃ ts, Token.scan s = .ok ts ∧
    Derives (.statement st) ts := by
  unfold read at h
  split at h
  · cases h
  · next ts hscan => exact ⟨ts, hscan, derives_of_ofTokens h⟩

/-- **Nothing but the grammar is read.** A text that is read has the tokens of its statement, and no
other tokens are derived for that. Where tokens are missing or stray the text is refused, and texts
of one statement have the same tokens. -/
theorem read_sound (s : String) :
    (∀ st, read s = .ok st →
      Token.scan s = .ok st.tokens ∧ ∀ ts, Derives (.statement st) ts ↔ ts = st.tokens) ∧
    (∀ ts, Token.scan s = .ok ts → ¬ Token.WellPlaced ts → ∃ fault, read s = .error fault) ∧
    ∀ s' st, read s = .ok st → read s' = .ok st → Token.scan s = Token.scan s' := by
  have hcanonical : ∀ {s st}, read s = .ok st → Token.scan s = .ok st.tokens ∧
      Derives (.statement st) st.tokens := by
    intro s st h
    obtain ⟨ts, hscan, hderives⟩ := scan_of_read h
    obtain rfl : ts = st.tokens := hderives.canonical
    exact ⟨hscan, hderives⟩
  refine ⟨fun st h => ?_, fun ts hscan hbad => ?_, fun s' st h h' => ?_⟩
  · obtain ⟨hscan, hderives⟩ := hcanonical h
    exact ⟨hscan, fun ts => ⟨fun hts => hts.canonical, fun hts => hts ▸ hderives⟩⟩
  · cases hread : read s with
    | error fault => exact ⟨fault, rfl⟩
    | ok st =>
      obtain ⟨hscan', hderives⟩ := hcanonical hread
      obtain rfl : ts = st.tokens := Except.ok.inj (hscan.symm.trans hscan')
      exact absurd hderives.wellPlaced hbad
  · rw [(hcanonical h).1, (hcanonical h').1]

/-- A call is read from two texts of the same tokens. With a comma after its argument it is refused.
-/
theorem read_sound_call :
    read " f(#n)" = .ok (.eval (.call "f" [.variable "n"])) ∧
    Token.scan " f(#n)" = Token.scan "f( #n )" ∧
    ∃ fault, read "f(#n,)" = .error fault := by
  have hname : Token.IsIdent "f" := by decide +kernel
  have hvariable : Token.IsRun "n" := by decide +kernel
  have hclose : Spaced [.rightParen] [')'] := .token (.mark rfl) .nil
  have htight : Spaced [.ident "f", .leftParen, .variable "n", .rightParen] " f(#n)".toList :=
    .blank rfl <| .token (.ident hname) <| .token (.mark rfl) <|
      .token (.reference hvariable) hclose
  have hloose : Spaced [.ident "f", .leftParen, .variable "n", .rightParen] "f( #n )".toList :=
    .token (.ident hname) <| .token (.mark rfl) <| .blank rfl <| .token (.reference hvariable) <|
      .blank rfl hclose
  have hcomma :
      Spaced [.ident "f", .leftParen, .variable "n", .comma, .rightParen] "f(#n,)".toList :=
    .token (.ident hname) <| .token (.mark rfl) <| .token (.reference hvariable) <|
      .token (.mark rfl) hclose
  have hread : read " f(#n)" = .ok (.eval (.call "f" [.variable "n"])) := by
    rw [read, show Token.scan " f(#n)" = _ from htight.scanFrom (by simp [Token.Beside,
      Token.isMark]) 0]
    rfl
  have hread' : read "f( #n )" = .ok (.eval (.call "f" [.variable "n"])) := by
    rw [read, show Token.scan "f( #n )" = _ from hloose.scanFrom (by simp [Token.Beside,
      Token.isMark]) 0]
    rfl
  have hmisplaced : ¬ Token.WellPlaced [.ident "f", .leftParen, .variable "n", .comma,
      .rightParen] := fun h =>
    absurd (List.isChain_cons_cons.mp h.chain.tail.tail.tail).1 Bool.false_ne_true
  refine ⟨hread, (read_sound " f(#n)").2.2 _ _ hread hread',
    (read_sound "f(#n,)").2.1 _ ?_ hmisplaced⟩
  exact hcomma.scanFrom (by simp [Token.Beside, Token.isMark]) 0

end Statement
end LiveSpec
