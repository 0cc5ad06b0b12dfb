import LiveSpec.Text.Case
import Mathlib.Data.Char

/-!
# Names without the case of ASCII letters

Names in a document are compared without the case of their ASCII letters, and the names of commands
by their lower case as Unicode defines it. The second comparison is the coarser one: what `sameName`
takes for one name has one lower case (`lowerCase_eq_of_sameName`). A letter and its ASCII lower
case lie on the same side of every range that the lower case of a text asks about, so that not even
the rule for a final sigma sees the difference.
-/

namespace LiveSpec.Text

/-- The code point of a letter in lower case. -/
theorem toNat_toLower (c : Char) :
    c.toLower.toNat = if 65 ≤ c.toNat ∧ c.toNat ≤ 90 then c.toNat + 32 else c.toNat := by
  have hcapital : (c.val ≥ 'A'.val ∧ c.val ≤ 'Z'.val) ↔ 65 ≤ c.toNat ∧ c.toNat ≤ 90 := by
    simp only [ge_iff_le, UInt32.le_iff_toNat_le]
    exact Iff.rfl
  unfold Char.toLower
  by_cases h : 65 ≤ c.toNat ∧ c.toNat ≤ 90
  · rw [dif_pos (hcapital.mpr h), if_pos h]
    show (c.val + ('a'.val - 'A'.val)).toNat = c.val.toNat + 32
    have hle : c.val.toNat ≤ 90 := h.2
    have hdistance : ('a'.val - 'A'.val).toNat = 32 := rfl
    rw [UInt32.toNat_add, hdistance]
    omega
  · rw [dif_neg fun hc => h (hcapital.mp hc), if_neg h]

theorem toLower_toLower (c : Char) : c.toLower.toLower = c.toLower := by
  refine Char.toNat_inj.mp ?_
  rw [toNat_toLower c.toLower, if_neg]
  rw [toNat_toLower]
  split <;> omega

/-- Ranges that hold both cases of a letter or none do not tell them apart. -/
theorem within_toLower (ranges : List (Nat × Nat))
    (h : ∀ i < 26, within (65 + i + 32) ranges = within (65 + i) ranges) (c : Char) :
    within c.toLower.toNat ranges = within c.toNat ranges := by
  rw [toNat_toLower]
  split
  · next hc =>
    have hi := h (c.toNat - 65) (by omega)
    rwa [Nat.add_sub_cancel' hc.1] at hi
  · rfl

theorem meetsCased_toLower (cs : List Char) : meetsCased (cs.map Char.toLower) = meetsCased cs := by
  induction cs with
  | nil => rfl
  | cons c cs ih =>
    have hignorable := within_toLower caseIgnorable (by decide) c
    have hcased := within_toLower cased (by decide) c
    rw [List.map_cons, meetsCased, meetsCased, hignorable, hcased, ih]

theorem lowerChar_toLower (c : Char) : lowerChar c.toLower = lowerChar c := by
  by_cases hc : 65 ≤ c.toNat ∧ c.toNat ≤ 90
  · have hlower := toNat_toLower c
    rw [if_pos hc] at hlower
    unfold lowerChar
    rw [if_pos (by omega), if_pos (by omega), toLower_toLower]
  · have hsame : c.toLower = c := Char.toNat_inj.mp (by rw [toNat_toLower, if_neg hc])
    rw [hsame]

/-- The lower case of a text does not depend on the case of its ASCII letters, nor does it on those
before the text. -/
theorem lowerFrom_toLower (before cs : List Char) :
    lowerFrom (before.map Char.toLower) (cs.map Char.toLower) = lowerFrom before cs := by
  induction cs generalizing before with
  | nil => rfl
  | cons c cs ih =>
    have hsigma : c.toLower.toNat = 0x3A3 ↔ c.toNat = 0x3A3 := by
      rw [toNat_toLower]
      split <;> omega
    have hrest := ih (c :: before)
    rw [List.map_cons] at hrest
    simp only [List.map_cons, lowerFrom, hsigma, meetsCased_toLower, lowerChar_toLower, hrest]

theorem lowerCase_asciiLower (s : String) : lowerCase (asciiLower s) = lowerCase s := by
  unfold lowerCase asciiLower
  rw [String.toList_map]
  exact congrArg String.ofList (lowerFrom_toLower [] s.toList)

theorem asciiLower_asciiLower (s : String) : asciiLower (asciiLower s) = asciiLower s := by
  unfold asciiLower
  rw [String.map_map]
  exact congrArg (fun f => s.map f) (funext toLower_toLower)

theorem sameName_iff {a b : String} : sameName a b = true ↔
    asciiLower a = asciiLower b := beq_iff_eq

/-- **Names that differ in the case of ASCII letters only have one lower case.** -/
theorem lowerCase_eq_of_sameName {a b : String} (h : sameName a b = true) :
    lowerCase a = lowerCase b := by
  rw [← lowerCase_asciiLower a, ← lowerCase_asciiLower b, sameName_iff.mp h]

end LiveSpec.Text
