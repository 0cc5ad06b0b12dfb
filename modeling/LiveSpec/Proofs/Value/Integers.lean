import LiveSpec.Proofs.Expr.Spelling
import LiveSpec.Value.Matching

/-!
# Integers are matched exactly

The text of an integer is a sign or none, and decimal digits after it; it denotes the number that
the digits make up by their places (`Numeral.Denotes`). No text denotes two numbers
(`Numeral.Denotes.unique`), and a text can denote a number that no value can have.

There are two readers, one for each 64-bit range, with signs and limits of their own. Whichever one
an integer asks for, it is confirmed by the texts that denote it and by no other
(`Value.confirms_int`).
-/

namespace LiveSpec

namespace Numeral

variable {cs ds : List Char} {n m : Int} {k : Nat}

/-! ## What a text denotes -/

/-- One decimal digit or more. -/
structure Digits (ds : List Char) : Prop where
  nonempty : ds ≠ []
  digits : ∀ d ∈ ds, isDigit d = true

/-- The number that digits make up: the last one counts the ones, the one before it the tens, and so
on. -/
def amount (ds : List Char) : Nat := Nat.ofDigits 10 (ds.reverse.map fun d => d.toNat - '0'.toNat)

/-- The text of an integer, and the number that it denotes. -/
inductive Denotes : List Char → Int → Prop
  | bare {ds : List Char} (h : Digits ds) : Denotes ds (amount ds)
  | plus {ds : List Char} (h : Digits ds) : Denotes ('+' :: ds) (amount ds)
  | minus {ds : List Char} (h : Digits ds) : Denotes ('-' :: ds) (-(amount ds))

/-- A sign is no digit. -/
theorem Digits.not_sign {c : Char} (h : Digits (c :: ds)) : c ≠ '+' ∧ c ≠ '-' := by
  have hc : isDigit c = true := h.digits c List.mem_cons_self
  constructor
  · rintro rfl
    exact absurd hc (by decide)
  · rintro rfl
    exact absurd hc (by decide)

/-- **No text denotes two numbers.** -/
theorem Denotes.unique (hn : Denotes cs n) (hm : Denotes cs m) : n = m := by
  cases hn with
  | bare h =>
    cases hm with
    | bare => rfl
    | plus => exact absurd rfl h.not_sign.1
    | minus => exact absurd rfl h.not_sign.2
  | plus h =>
    cases hm with
    | bare h' => exact absurd rfl h'.not_sign.1
    | plus => rfl
  | minus h =>
    cases hm with
    | bare h' => exact absurd rfl h'.not_sign.2
    | minus => rfl

/-- A text of digits alone denotes their number, and no other. -/
theorem denotes_bare_iff {c : Char} (hplus : c ≠ '+') (hminus : c ≠ '-') :
    Denotes (c :: cs) n ↔ Digits (c :: cs) ∧ (amount (c :: cs) : Int) = n := by
  constructor
  · intro h
    cases h with
    | bare h => exact ⟨h, rfl⟩
    | plus => exact absurd rfl hplus
    | minus => exact absurd rfl hminus
  · rintro ⟨h, rfl⟩
    exact .bare h

theorem denotes_plus_iff : Denotes ('+' :: ds) n ↔ Digits ds ∧ (amount ds : Int) = n := by
  constructor
  · intro h
    cases h with
    | bare h => exact absurd rfl h.not_sign.1
    | plus h => exact ⟨h, rfl⟩
  · rintro ⟨h, rfl⟩
    exact .plus h

theorem denotes_minus_iff : Denotes ('-' :: ds) n ↔ Digits ds ∧ -(amount ds : Int) = n := by
  constructor
  · intro h
    cases h with
    | bare h => exact absurd rfl h.not_sign.2
    | minus h => exact ⟨h, rfl⟩
  · rintro ⟨h, rfl⟩
    exact .minus h

theorem not_denotes_nil : ¬ Denotes [] n := by
  intro h
  cases h with
  | bare h => exact h.nonempty rfl

/-! ## Reading digits -/

/-- Reading digit by digit, from the left, makes up the number by places. -/
theorem digitsValue_eq_amount (ds : List Char) : digitsValue 0 ds = amount ds := by
  induction ds using List.reverseRecOn with
  | nil => rfl
  | append_singleton ds d ih =>
    have hread : digitsValue 0 (ds ++ [d]) = 10 * digitsValue 0 ds + (d.toNat - '0'.toNat) :=
      List.foldl_append
    have hplaces : amount (ds ++ [d]) = (d.toNat - '0'.toNat) + 10 * amount ds := by
      simp [amount, Nat.ofDigits_cons]
    rw [hread, hplaces, ih]
    exact Nat.add_comm ..

theorem natural?_eq_some : natural? ds = some k ↔ Digits ds ∧ amount ds = k := by
  unfold natural?
  constructor
  · intro h
    split at h
    · cases h
    · next hdigits =>
      simp only [Bool.or_eq_true, List.isEmpty_iff, Bool.not_eq_true', not_or, Bool.not_eq_false,
        List.all_eq_true] at hdigits
      obtain ⟨hne, hall⟩ := hdigits
      exact ⟨⟨hne, hall⟩, (digitsValue_eq_amount ds).symm.trans (Option.some.inj h)⟩
  · rintro ⟨h, rfl⟩
    have hall : ds.all isDigit = true := List.all_eq_true.mpr h.digits
    rw [if_neg (by simp [h.nonempty, hall]), digitsValue_eq_amount]

/-- Digits that are read as an integer, before a sign is applied to it. -/
theorem natural?_map_eq_some {f : Int → Int} :
    Option.map f (do return ((← natural? ds : Nat) : Int)) = some n ↔
      Digits ds ∧ f (amount ds) = n := by
  simp only [Option.map_eq_some_iff, Option.bind_eq_bind, Option.bind_eq_some_iff, natural?_eq_some]
  constructor
  · rintro ⟨_, ⟨_, ⟨h, rfl⟩, hread⟩, hn⟩
    cases hread
    exact ⟨h, hn⟩
  · rintro ⟨h, hn⟩
    exact ⟨_, ⟨_, ⟨h, rfl⟩, rfl⟩, hn⟩

/-! ## The two readers -/

/-- **The reader of the signed range** finds what a text denotes, if it lies in the range. -/
theorem signed?_eq_some :
    signed? cs = some n ↔ Denotes cs n ∧ -0x8000000000000000 ≤ n ∧ n < 0x8000000000000000 := by
  unfold signed?
  rw [Option.filter_eq_some_iff, Bool.and_eq_true, decide_eq_true_eq, decide_eq_true_eq]
  refine and_congr_left fun _ => ?_
  split
  · next ds => exact natural?_map_eq_some.trans denotes_minus_iff.symm
  · next ds => exact natural?_map_eq_some.trans denotes_plus_iff.symm
  · next hminus hplus =>
    cases cs with
    | nil => exact iff_of_false (by simp [natural?]) not_denotes_nil
    | cons c cs =>
      have hc : c ≠ '+' := fun h => hplus cs (h ▸ rfl)
      have hc' : c ≠ '-' := fun h => hminus cs (h ▸ rfl)
      exact natural?_map_eq_some.trans (denotes_bare_iff hc hc').symm

/-- **The reader of the unsigned range** finds what a text denotes, if it is positive and lies in
the range. It does not know the minus sign, which only a text of zero or of less has. -/
theorem unsigned?_eq_some (hn : 0 < n) :
    unsigned? cs = some n ↔ Denotes cs n ∧ n < 0x10000000000000000 := by
  unfold unsigned?
  rw [Option.filter_eq_some_iff, decide_eq_true_eq]
  refine and_congr_left fun _ => ?_
  split
  · next ds => exact natural?_map_eq_some.trans denotes_plus_iff.symm
  · next hplus =>
    cases cs with
    | nil => exact iff_of_false (by simp [natural?]) not_denotes_nil
    | cons c cs =>
      have hc : c ≠ '+' := fun h => hplus cs (h ▸ rfl)
      by_cases hc' : c = '-'
      · subst hc'
        refine iff_of_false (fun h => ?_) fun h => ?_
        · exact absurd rfl (natural?_map_eq_some.mp h).1.not_sign.2
        · have hvalue := (denotes_minus_iff.mp h).2
          omega
      · exact natural?_map_eq_some.trans (denotes_bare_iff hc hc').symm

end Numeral

namespace Value

/-- An integer of the signed or of the unsigned 64-bit range. -/
def InRange (n : Int) : Prop :=
  (-0x8000000000000000 ≤ n ∧ n < 0x8000000000000000) ∨ (0 ≤ n ∧ n < 0x10000000000000000)

instance {n : Int} : Decidable (InRange n) := inferInstanceAs (Decidable (_ ∨ _))

variable {n : Int} {t : String}

/-- An integer is confirmed by the texts that denote it. -/
theorem confirms_int (hn : InRange n) :
    (Value.int n).confirms t = true ↔ Numeral.Denotes (Text.normal t).toList n := by
  unfold InRange at hn
  unfold confirms
  dsimp only
  split
  · next hsigned =>
    rw [beq_iff_eq, Numeral.signed?_eq_some]
    exact and_iff_left ⟨by omega, hsigned⟩
  · next hunsigned =>
    rw [beq_iff_eq, Numeral.unsigned?_eq_some (by omega)]
    exact and_iff_left (by omega)

/-- **Integers are matched exactly.** An integer of either 64-bit range is confirmed by a text if
and only if the text, in its normal form, is a sign or none and decimal digits after it, and denotes
this integer. So a text that denotes a number beyond both ranges confirms none, and no text confirms
two integers. -/
theorem integers_matched_exactly (hn : InRange n) (t : String) :
    ((Value.int n).confirms t = true ↔ Numeral.Denotes (Text.normal t).toList n) ∧
    (∀ m, Numeral.Denotes (Text.normal t).toList m → ¬ InRange m →
      (Value.int n).confirms t = false) ∧
    ∀ m, InRange m → (Value.int n).confirms t = true → (Value.int m).confirms t = true → n = m := by
  refine ⟨confirms_int hn, fun m hm hout => ?_, fun m hm h h' => ?_⟩
  · refine Bool.eq_false_iff.mpr fun h => hout ?_
    have hsame : n = m := ((confirms_int hn).mp h).unique hm
    exact hsame ▸ hn
  · exact ((confirms_int hn).mp h).unique ((confirms_int hm).mp h')

/-- The least integer that only the unsigned range has, among blanks, with a sign and a leading
zero; and the least number beyond it, which does not confirm the greatest one. -/
theorem integers_matched_exactly_limits :
    InRange 9223372036854775808 ∧
    Numeral.Denotes (Text.normal " \t+09223372036854775808\n").toList 9223372036854775808 ∧
    InRange 18446744073709551615 ∧ ¬ InRange 18446744073709551616 ∧
    (Value.int 18446744073709551615).confirms "18446744073709551616" = false := by
  have hdigits : Numeral.Digits "18446744073709551616".toList :=
    ⟨by decide +kernel, List.all_eq_true.mp (by cbv)⟩
  have hbeyond :
      Numeral.Denotes (Text.normal "18446744073709551616").toList 18446744073709551616 := by
    have hnormal : Text.normal "18446744073709551616" = "18446744073709551616" := by cbv
    have hamount : Numeral.amount "18446744073709551616".toList = 18446744073709551616 := by
      rw [← Numeral.digitsValue_eq_amount]
      decide +kernel
    have hdenotes := Numeral.Denotes.bare hdigits
    rw [hamount, Nat.cast_ofNat] at hdenotes
    rwa [hnormal]
  obtain ⟨hmatched, -, -⟩ := integers_matched_exactly (n := 9223372036854775808) (by decide)
    " \t+09223372036854775808\n"
  obtain ⟨-, houtside, -⟩ :=
    integers_matched_exactly (n := 18446744073709551615) (by decide) "18446744073709551616"
  exact ⟨by decide, hmatched.mp (by decide +kernel), by decide, by decide,
    houtside _ hbeyond (by decide)⟩

end Value
end LiveSpec
