import LiveSpec.Expr.Reader
import LiveSpec.Proofs.Results

/-!
# The tokens of a statement

Every expression has a list of tokens (`Expr.tokens`), and reading that list gives the expression
back, whatever comes after it, as long as it cannot be read as a further step or as arguments
(`Expr.read_tokens`). A statement that fills its tokens is read back as a whole
(`Statement.ofTokens_tokens`).

Not all expressions can be written: an array is no literal, and a property named `true` would be
read as a truth value. `Expr.Writable` says which can. The reader goes by a bound on its steps;
three for each token are enough, and any greater bound serves as well, which is how the induction
speaks of it.
-/

namespace LiveSpec

/-! ## Names and literals -/

namespace Token

/-- A run of characters of names, as a variable is named by. -/
structure IsRun (name : String) : Prop where
  nonempty : name.toList ≠ []
  inName {c : Char} : c ∈ name.toList → inName c = true

/-- A name that begins like one of a member. -/
structure IsIdent (name : String) : Prop extends IsRun name where
  begins {c : Char} : name.toList.head? = some c → beginsName c = true

instance (name : String) : Decidable (IsRun name) :=
  decidable_of_iff (name.toList ≠ [] ∧ name.toList.all inName = true)
    ⟨fun h => ⟨h.1, List.all_eq_true.mp h.2 _⟩,
      fun h => ⟨h.nonempty, List.all_eq_true.mpr fun _ => h.inName⟩⟩

instance (name : String) : Decidable (IsIdent name) :=
  decidable_of_iff (IsRun name ∧ name.toList.head?.all beginsName = true)
    ⟨fun h => ⟨h.1, Option.all_eq_true _ _ |>.mp h.2 _⟩,
      fun h => ⟨h.toIsRun, Option.all_eq_true _ _ |>.mpr fun _ => h.begins⟩⟩

/-- The words that stand for values. -/
def isKeyword (name : String) : Bool := name = "true" || name = "false" || name = "null"

end Token

/-- The token of a literal, if there is one. -/
def Value.literalTokens : Value → List Token
  | .null => [.ident "null"]
  | .bool true => [.ident "true"]
  | .bool false => [.ident "false"]
  | .int n => [.integer n]
  | .float x => [.decimal x]
  | .string s => [.text s]
  | .array _ | .object _ => []

namespace Expr

mutual
/-- The tokens of an expression. -/
def tokens : Expr → List Token
  | .literal v => v.literalTokens
  | .variable name => [.variable name]
  | .property name => [.ident name]
  | .call method args => .ident method :: .leftParen :: argumentTokens args
  | .field target name => tokens target ++ [.dot, .ident name]
  | .index target key => tokens target ++ .leftBracket :: tokens key ++ [.rightBracket]
/-- The tokens of the arguments of a call, with commas between them and the closing parenthesis
after them. -/
def argumentTokens : List Expr → List Token
  | [] => [.rightParen]
  | [e] => tokens e ++ [.rightParen]
  | e :: e' :: es => tokens e ++ .comma :: argumentTokens (e' :: es)
end

/-- The expressions that can be written, floating-point numbers aside. -/
inductive Writable : Expr → Prop
  | null : Writable (.literal .null)
  | bool (b : Bool) : Writable (.literal (.bool b))
  | string (s : String) : Writable (.literal (.string s))
  | int {n : Int} (low : -0x8000000000000000 ≤ n) (high : n < 0x8000000000000000) :
    Writable (.literal (.int n))
  | reference {name : String} (h : Token.IsRun name) : Writable (.variable name)
  | property {name : String} (h : Token.IsIdent name) (free : Token.isKeyword name = false) :
    Writable (.property name)
  | call {method : String} {args : List Expr} (h : Token.IsIdent method)
    (free : Token.isKeyword method = false)
    (hargs : ∀ e ∈ args, Writable e) : Writable (.call method args)
  | field {target : Expr} {name : String} (ht : Writable target) (h : Token.IsIdent name) :
    Writable (.field target name)
  | index {target key : Expr} (ht : Writable target) (hk : Writable key) :
    Writable (.index target key)

/-! ## Reading the tokens back -/

/-- Says whether an expression ends before a token: it is neither a step nor a parenthesis. -/
def endsBefore : Token → Bool
  | .dot | .leftBracket | .leftParen => false
  | _ => true

variable {e : Expr} {rest : List Token}

/-- Where an expression ends, no step is read. -/
theorem steps_of_ends (h : ∀ t ∈ rest.head?, endsBefore t = true) {fuel : Nat} (hfuel : 0 < fuel) :
    steps fuel e rest = .ok (e, rest) := by
  obtain ⟨fuel, rfl⟩ := Nat.exists_eq_succ_of_ne_zero hfuel.ne'
  cases rest with
  | nil => rfl
  | cons t rest =>
    have ht := h t rfl
    cases t <;> first | rfl | cases ht

/-- No list of tokens of an expression begins with a closing parenthesis. -/
theorem Writable.head_tokens (h : e.Writable) : ∃ t ts, e.tokens = t :: ts ∧ t ≠ .rightParen := by
  induction h with
  | null => exact ⟨_, _, rfl, nofun⟩
  | bool b => cases b <;> exact ⟨_, _, rfl, nofun⟩
  | string | int | reference | property | call => exact ⟨_, _, rfl, nofun⟩
  | field _ _ ih =>
    obtain ⟨t, ts, htokens, ht⟩ := ih
    exact ⟨t, _, by rw [tokens, htokens, List.cons_append], ht⟩
  | index _ _ ih _ =>
    obtain ⟨t, ts, htokens, ht⟩ := ih
    exact ⟨t, _, by rw [tokens, htokens, List.append_assoc, List.cons_append], ht⟩

/-- What is read of the tokens of an expression and of more, with any bound from `bound` on, is `r`.
-/
def ReadsFrom (bound : Nat) (ts : List Token) (r : Expr × List Token) : Prop :=
  ∀ fuel, bound ≤ fuel → read fuel ts = .ok r

/-- What is read of steps after an expression, with any bound from `bound` on, is `r`. -/
def StepsFrom (bound : Nat) (e : Expr) (ts : List Token) (r : Expr × List Token) : Prop :=
  ∀ fuel, bound ≤ fuel → steps fuel e ts = .ok r

/-- The tokens of a primary are read with one step of the reader, and then those that follow. -/
theorem readsFrom_of_primary {bound cost : Nat} {ts : List Token} {r : Expr × List Token}
    (hprimary : ∀ fuel, cost ≤ fuel → primary fuel ts = .ok (e, rest))
    (h : StepsFrom bound e rest r) :
    ReadsFrom (bound + cost + 1) ts r := by
  intro fuel hfuel
  obtain ⟨fuel, rfl⟩ := Nat.exists_eq_succ_of_ne_zero (show fuel ≠ 0 by omega)
  rw [read, hprimary fuel (by omega)]
  exact h fuel (by omega)

/-- A primary of one token. -/
theorem readsFrom_of_token {bound : Nat} {t : Token} {r : Expr × List Token}
    (hprimary : ∀ fuel, primary (fuel + 1) (t :: rest) = .ok (e, rest))
    (h : StepsFrom bound e rest r) :
    ReadsFrom (bound + 3) (t :: rest) r := by
  have hone : ∀ fuel, 1 ≤ fuel → primary fuel (t :: rest) = .ok (e, rest) := by
    intro fuel hfuel
    obtain ⟨fuel, rfl⟩ := Nat.exists_eq_succ_of_ne_zero (show fuel ≠ 0 by omega)
    exact hprimary fuel
  intro fuel hfuel
  exact readsFrom_of_primary hone h fuel (by omega)

/-- A name that is neither a literal nor followed by arguments is a property. -/
theorem primary_property {name : String} (hname : Token.isKeyword name = false)
    (hrest : rest.head? ≠ some .leftParen) (fuel : Nat) :
    primary (fuel + 1) (.ident name :: rest) = .ok (.property name, rest) := by
  simp only [Token.isKeyword, Bool.or_eq_false_iff, decide_eq_false_iff_not] at hname
  obtain ⟨⟨htrue, hfalse⟩, hnull⟩ := hname
  simp only [primary, if_neg htrue, if_neg hfalse, if_neg hnull]
  split
  · exact absurd rfl hrest
  · exact absurd rfl hrest
  · rfl

/-- The arguments of a call, given that each of them is read back. -/
theorem arguments_tokens {args : List Expr} (hne : args ≠ []) (rest : List Token)
    (hread : ∀ e ∈ args, ∀ rest : List Token, rest.head? ≠ some .leftParen → ∀ {bound r},
      StepsFrom bound e rest r → ReadsFrom (bound + 3 * e.tokens.length) (e.tokens ++ rest) r)
    (fuel : Nat) (hfuel : 3 * (argumentTokens args).length ≤ fuel) :
    arguments fuel (argumentTokens args ++ rest) = .ok (args, rest) := by
  induction args generalizing fuel with
  | nil => exact absurd rfl hne
  | cons e args ih =>
    have hlength : e.tokens.length + 1 ≤ (argumentTokens (e :: args)).length := by
      cases args <;> simp [argumentTokens]
    obtain ⟨fuel, rfl⟩ := Nat.exists_eq_succ_of_ne_zero (show fuel ≠ 0 by omega)
    -- what follows an argument is a comma or the closing parenthesis, so the argument ends there
    have hone : ∀ (t : Token) (ts : List Token), t = .comma ∨ t = .rightParen →
        read fuel (e.tokens ++ t :: ts) = .ok (e, t :: ts) := by
      intro t ts ht
      have hends : StepsFrom 1 e (t :: ts) (e, t :: ts) := by
        intro fuel hfuel
        apply steps_of_ends _ hfuel
        rcases ht with rfl | rfl <;> simp [endsBefore]
      apply hread e List.mem_cons_self (t :: ts) _ hends fuel (by omega)
      rcases ht with rfl | rfl <;> simp
    cases args with
    | nil =>
      simp only [argumentTokens, List.append_assoc, List.singleton_append, arguments,
        hone _ _ (.inr rfl)]
    | cons e' es =>
      have hrest := ih (by simp) (fun e he => hread e (List.mem_cons_of_mem _ he)) fuel (by
        simp only [argumentTokens, List.length_append, List.length_cons] at hfuel
        omega)
      simp only [argumentTokens, List.append_assoc, List.cons_append, arguments,
        hone _ _ (.inl rfl)]
      rw [hrest]

/-- A call with its arguments, given that each of them is read back. -/
theorem primary_call {method : String} {args : List Expr} (hname : Token.isKeyword method = false)
    (hargs : ∀ e ∈ args, e.Writable)
    (hread : ∀ e ∈ args, ∀ rest : List Token, rest.head? ≠ some .leftParen → ∀ {bound r},
      StepsFrom bound e rest r → ReadsFrom (bound + 3 * e.tokens.length) (e.tokens ++ rest) r)
    (fuel : Nat) (hfuel : 3 * (argumentTokens args).length + 1 ≤ fuel) :
    primary fuel (.ident method :: .leftParen :: (argumentTokens args ++ rest)) = .ok
      (.call method args, rest) := by
  obtain ⟨fuel, rfl⟩ := Nat.exists_eq_succ_of_ne_zero (show fuel ≠ 0 by omega)
  simp only [Token.isKeyword, Bool.or_eq_false_iff, decide_eq_false_iff_not] at hname
  obtain ⟨⟨htrue, hfalse⟩, hnull⟩ := hname
  simp only [primary, if_neg htrue, if_neg hfalse, if_neg hnull]
  cases args with
  | nil => rfl
  | cons e args =>
    have hsome := arguments_tokens (List.cons_ne_nil e args) rest hread fuel (by omega)
    -- the first argument does not begin like an empty list of arguments
    obtain ⟨t, ts, htokens, ht⟩ : ∃ t ts, argumentTokens (e :: args) = t :: ts ∧
      t ≠ .rightParen := by
      obtain ⟨t, ts, htokens, ht⟩ := (hargs e List.mem_cons_self).head_tokens
      cases args <;> exact ⟨t, _, by rw [argumentTokens, htokens, List.cons_append], ht⟩
    rw [htokens, List.cons_append] at hsome ⊢
    split
    · next heq => simp_all
    · next heq =>
      cases heq
      rw [hsome]
    · next _ hno => exact absurd rfl (hno _)

/-- **The tokens of an expression are read back.** After them reading goes on as after the
expression itself. -/
theorem read_tokens (h : e.Writable) (rest : List Token) (hrest : rest.head? ≠ some .leftParen)
    {bound : Nat} {r : Expr × List Token} (hsteps : StepsFrom bound e rest r) :
    ReadsFrom (bound + 3 * e.tokens.length) (e.tokens ++ rest) r := by
  induction h generalizing rest bound r with
  | null | string | int | reference => exact readsFrom_of_token (fun _ => rfl) hsteps
  | bool b => cases b <;> exact readsFrom_of_token (fun _ => rfl) hsteps
  | property _ free => exact readsFrom_of_token (primary_property free hrest) hsteps
  | @call method args _ free hargs ih =>
    have hcall : ∀ fuel, 3 * (argumentTokens args).length + 1 ≤ fuel →
        primary fuel ((call method args).tokens ++ rest) = .ok (.call method args, rest) :=
      fun fuel => primary_call free hargs (fun e he rest hrest _ _ => ih e he rest hrest) fuel
    intro fuel hfuel
    apply readsFrom_of_primary hcall hsteps fuel
    simp only [tokens, List.length_cons] at hfuel
    omega
  | @field target name _ _ ih =>
    have hstep : StepsFrom (bound + 1) target (.dot :: .ident name :: rest) r := by
      intro fuel hfuel
      obtain ⟨fuel, rfl⟩ := Nat.exists_eq_succ_of_ne_zero (show fuel ≠ 0 by omega)
      exact hsteps fuel (by omega)
    intro fuel hfuel
    rw [tokens, List.append_assoc]
    apply ih _ (by simp) hstep fuel
    simp only [tokens, List.length_append, List.length_cons, List.length_nil] at hfuel
    omega
  | @index target key _ _ iht ihk =>
    -- between the brackets the key is read to its end, and then the steps go on
    have hends : StepsFrom 1 key (.rightBracket :: rest) (key, .rightBracket :: rest) := by
      intro fuel hfuel
      exact steps_of_ends (by simp [endsBefore]) hfuel
    have hstep : StepsFrom (bound + 3 * key.tokens.length + 2) target
        (.leftBracket :: (key.tokens ++ .rightBracket :: rest)) r := by
      intro fuel hfuel
      obtain ⟨fuel, rfl⟩ := Nat.exists_eq_succ_of_ne_zero (show fuel ≠ 0 by omega)
      simp only [steps, ihk (.rightBracket :: rest) (by simp) hends fuel (by omega)]
      exact hsteps fuel (by omega)
    have htokens : (index target key).tokens ++ rest =
        target.tokens ++ .leftBracket :: (key.tokens ++ .rightBracket :: rest) := by simp [tokens]
    intro fuel hfuel
    rw [htokens]
    apply iht _ (by simp) hstep fuel
    simp only [tokens, List.length_append, List.length_cons, List.length_nil] at hfuel
    omega

end Expr

namespace Statement

/-- The tokens of a statement. -/
def tokens : Statement → List Token
  | .assign name value => .variable name :: .equals :: value.tokens
  | .eval e => e.tokens

/-- The statements that can be written, floating-point numbers aside. -/
inductive Writable : Statement → Prop
  | assign {name : String} {value : Expr} (h : Token.IsRun name) (hv : value.Writable) :
    Writable (.assign name value)
  | eval {e : Expr} (h : e.Writable) : Writable (.eval e)

/-- No expression has an equals sign in it. -/
theorem equals_notMem_tokens {e : Expr} (h : e.Writable) : .equals ∉ e.tokens := by
  induction h with
  | null | string | int | reference | property => simp [Expr.tokens, Value.literalTokens]
  | bool b => cases b <;> simp [Expr.tokens, Value.literalTokens]
  | @call method args _ _ hargs ih =>
    have hall : .equals ∉ Expr.argumentTokens args := by
      clear hargs
      induction args with
      | nil => simp [Expr.argumentTokens]
      | cons e args ihargs =>
        have he := ih e List.mem_cons_self
        have hes := ihargs fun e he => ih e (List.mem_cons_of_mem _ he)
        cases args <;> simp [Expr.argumentTokens, he, hes]
    simp [Expr.tokens, hall]
  | field _ _ ih => simp [Expr.tokens, ih]
  | index _ _ iht ihk => simp [Expr.tokens, iht, ihk]

/-- An expression that fills the tokens is read as a whole. -/
theorem read_whole {e : Expr} (h : e.Writable) :
    Expr.read (4 * e.tokens.length + 4) e.tokens = .ok (e, []) := by
  have hends : Expr.StepsFrom 1 e [] (e, []) := fun fuel hfuel => Expr.steps_of_ends (by simp) hfuel
  have hread := Expr.read_tokens h [] (by simp) hends (4 * e.tokens.length + 4) (by omega)
  rwa [List.append_nil] at hread

/-- **A statement that fills its tokens is read back.** -/
theorem ofTokens_tokens {st : Statement} (h : st.Writable) : ofTokens st.tokens = .ok st := by
  cases h with
  | assign _ hv => simp only [tokens, ofTokens, read_whole hv]
  | @eval e he =>
    unfold ofTokens tokens
    dsimp only
    split
    · next name rest htokens =>
      have hmem : Token.equals ∈ e.tokens := by simp [htokens]
      exact absurd hmem (equals_notMem_tokens he)
    · rw [read_whole he]

end Statement
end LiveSpec
