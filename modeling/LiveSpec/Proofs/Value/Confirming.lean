import LiveSpec.Proofs.Expr.Printing
import LiveSpec.Value.Matching

/-!
# What shows a value confirms it

Two comparisons decide whether a text stands for a value. The rows of a table are compared with what
a value is displayed as, and an assertion reads its text by the kind of the value. Where the first
one finds the value, the second one does as well, with one exception
(`Value.confirms_iff_of_shown`): the absent value is displayed as nothing, and only the word for it
confirms it.

Both bring the text into its normal form. Nothing is left to be done then (`Text.normal_normal`),
and a text without blanks, as that of a number is, has been in this form from the start
(`Text.normal_of_solid`).
-/

namespace LiveSpec

namespace Text

variable {cs ds : List Char} {s : String}

/-! ## The normal form of a text -/

/-- A text whose only blanks are single spaces. -/
structure Single (cs : List Char) : Prop where
  space {c : Char} : c ∈ cs → isBlank c = true → c = ' '
  apart : cs.IsChain fun a b => isBlank a = true → isBlank b = false

/-- A part of such a text is such a text. -/
theorem Single.part (h : Single cs) (hds : ds <:+: cs) : Single ds :=
  ⟨fun hc => h.space (hds.subset hc), List.IsChain.infix h.apart hds⟩

/-- Collapsing leaves single spaces only. -/
theorem single_collapse (cs : List Char) : Single (collapse cs) := by
  induction cs with
  | nil => exact ⟨nofun, .nil⟩
  | cons c cs ih =>
    unfold collapse
    by_cases hc : isBlank c = true
    · rw [if_pos hc]
      cases cs with
      | nil => exact ⟨by simp, .singleton _⟩
      | cons d cs =>
        by_cases hd : isBlank d = true
        · simp only [hd, if_true]
          exact ih
        · -- the run of blanks ends here, so a letter follows
          have hhead : collapse (d :: cs) = d :: collapse cs := by
            rw [collapse.eq_def]; exact if_neg hd
          simp only [hd, Bool.false_eq_true, if_false]
          rw [hhead] at ih ⊢
          refine ⟨fun {x} hx hblank => ?_,
            List.isChain_cons_cons.mpr ⟨fun _ => by simpa using hd, ih.apart⟩⟩
          rcases List.mem_cons.mp hx with rfl | hx
          · rfl
          · exact ih.space hx hblank
    · rw [if_neg hc]
      refine ⟨fun {x} hx hblank => ?_, List.isChain_cons.mpr ⟨fun _ _ hblank =>
        absurd hblank hc, ih.apart⟩⟩
      rcases List.mem_cons.mp hx with rfl | hx
      · exact absurd hblank hc
      · exact ih.space hx hblank

/-- Collapsing leaves a text with single spaces as it is. -/
theorem collapse_of_single (h : Single cs) : collapse cs = cs := by
  induction cs with
  | nil => rfl
  | cons c cs ih =>
    have ih := ih (h.part (List.suffix_cons c cs).isInfix)
    unfold collapse
    by_cases hc : isBlank c = true
    · rw [if_pos hc, h.space (by simp) hc]
      cases cs with
      | nil => rfl
      | cons d cs =>
        have hd : isBlank d = false := (List.isChain_cons_cons.mp h.apart).1 hc
        simp only [hd, Bool.false_eq_true, if_false]
        rw [ih]
    · rw [if_neg hc, ih]

theorem isSuffix_trimLeft (cs : List Char) : trimLeft cs <:+ cs := List.dropWhile_suffix _

theorem isPrefix_trimRight (cs : List Char) : trimRight cs <+: cs := by
  have h : (cs.reverse.dropWhile isBlank) <:+ cs.reverse := List.dropWhile_suffix _
  simpa [trimRight] using List.reverse_prefix.mpr h

/-- What is trimmed is a part of the text. -/
theorem isInfix_trim (cs : List Char) : trim cs <:+: cs :=
  (isPrefix_trimRight _).isInfix.trans (isSuffix_trimLeft cs).isInfix

/-- A text that does not begin with a blank is not trimmed at its begin. -/
theorem trimLeft_of_head {c : Char} (hc : isBlank c = false) (hcs : cs <+: c :: ds) :
    trimLeft cs = cs := by
  cases cs with
  | nil => rfl
  | cons d cs =>
    obtain ⟨rfl, -⟩ := List.cons_prefix_cons.mp hcs
    simp [trimLeft, hc]

/-- Trimming twice is trimming once. -/
theorem trim_trim (cs : List Char) : trim (trim cs) = trim cs := by
  have hleft : trimLeft (trim cs) = trim cs := by
    cases hl : trimLeft cs with
    | nil =>
      have hnil : trim cs = [] := by rw [trim, hl]; rfl
      rw [hnil]
      rfl
    | cons c ds =>
      have hc : isBlank c = false := by
        have hhead := List.head?_dropWhile_not isBlank cs
        rw [show cs.dropWhile isBlank = c :: ds from hl] at hhead
        simpa using hhead
      have hprefix : trim cs <+: c :: ds := by
        rw [trim, hl]
        exact isPrefix_trimRight _
      exact trimLeft_of_head hc hprefix
  have hright : trimRight (trim cs) = trim cs := by
    rw [trim, trimRight, trimRight, List.reverse_reverse, List.dropWhile_idempotent]
  rw [trim, hleft, hright]

/-- **A text in normal form is in normal form.** -/
theorem normal_normal (s : String) : normal (normal s) = normal s := by
  have hsingle : Single (trim (collapse s.toList)) :=
    (single_collapse s.toList).part (isInfix_trim _)
  unfold normal normalChars
  rw [String.toList_ofList, collapse_of_single hsingle, trim_trim]

/-- A text without blanks is its own normal form. -/
theorem normal_of_solid (h : ∀ c ∈ s.toList, isBlank c = false) : normal s = s := by
  have hsingle : Single s.toList := by
    refine ⟨fun hc hblank => ?_, ?_⟩
    · rw [h _ hc] at hblank
      cases hblank
    · have hpair : s.toList.Pairwise fun a b => isBlank a = true → isBlank b = false :=
        List.pairwise_of_forall_mem_list fun _ _ b hb _ => h b hb
      exact hpair.isChain
  have hleft : trimLeft s.toList = s.toList := by
    cases hs : s.toList with
    | nil => rfl
    | cons c cs => exact trimLeft_of_head (h c (by simp [hs])) (List.prefix_refl _)
  have hright : trimRight s.toList = s.toList := by
    have hback : trimLeft s.toList.reverse = s.toList.reverse := by
      cases hs : s.toList.reverse with
      | nil => rfl
      | cons c cs =>
        exact trimLeft_of_head (h c (List.mem_reverse.mp (by simp [hs]))) (List.prefix_refl _)
    rw [trimRight, show s.toList.reverse.dropWhile isBlank = s.toList.reverse from hback,
      List.reverse_reverse]
  unfold normal normalChars
  rw [collapse_of_single hsingle, trim, hleft, hright, String.ofList_toList]

end Text

open Token (isBlank_of_isDigit isDigit_of_mem_toString toString_ne_nil ofDigitChars_toString)

/-! ## The texts of numbers -/

/-- A text without blanks. -/
def Solid (s : String) : Prop := ∀ c ∈ s.toList, Text.isBlank c = false

theorem solid_of {s : String} (h : (s.toList.all fun c => !Text.isBlank c) = true) :
    Solid s := fun c hc => by
  simpa using List.all_eq_true.mp h c hc

theorem Solid.append {a b : String} (ha : Solid a) (hb : Solid b) : Solid (a ++ b) := by
  intro c hc
  rw [String.toList_append] at hc
  exact (List.mem_append.mp hc).elim (ha c) (hb c)

/-- A natural number is written without blanks. -/
theorem solid_toString (n : Nat) : Solid (toString n) :=
  fun _ hc => isBlank_of_isDigit (isDigit_of_mem_toString hc)

/-- So is an integer. -/
theorem solid_int (n : Int) : Solid (toString n) := by
  cases n with
  | ofNat m => exact solid_toString m
  | negSucc m =>
    have hsign : toString (Int.negSucc m) = "-" ++ toString (m + 1) := rfl
    rw [hsign]
    exact .append (solid_of (by cbv)) (solid_toString (m + 1))

namespace Decimal

theorem solid_ofList_digits {ds : List Char} (h : ∀ d ∈ ds, Numeral.isDigit d = true) :
    Solid (.ofList ds) := by
  intro c hc
  rw [String.toList_ofList] at hc
  exact isBlank_of_isDigit (h c hc)

variable {l : Layout} {ds : List Char} (hds : ∀ d ∈ ds, Numeral.isDigit d = true)
include hds

/-- A decimal is written without blanks if its integral tail is. -/
theorem solid_positional (hl : Solid l.integralTail) (exponent : Int) :
    Solid (positional l ds exponent) := by
  have hzeros : ∀ n, ∀ d ∈ List.replicate n '0', Numeral.isDigit d = true := by
    intro n d hd
    rw [List.eq_of_mem_replicate hd]
    decide
  unfold positional
  split
  · refine .append (solid_ofList_digits fun d hd => ?_) hl
    exact (List.mem_append.mp hd).elim (hds d) (hzeros _ d)
  · dsimp only
    split
    · refine .append (.append (solid_ofList_digits fun d hd => ?_) (solid_of (by cbv)))
        (solid_ofList_digits fun d hd => ?_)
      · exact hds d (List.mem_of_mem_take hd)
      · exact hds d (List.mem_of_mem_drop hd)
    · refine .append (solid_of (by cbv)) (solid_ofList_digits fun d hd => ?_)
      exact (List.mem_append.mp hd).elim (hzeros _ d) (hds d)

/-- So is a number in scientific notation, if its marks are. -/
theorem solid_scientific (hmark : Solid l.exponentMark) (hplus : Solid l.plusSign) (lead : Int) :
    Solid (scientific l ds lead) := by
  unfold scientific
  refine .append (.append ?_ hmark) ?_
  · split
    · exact solid_of (by cbv)
    · exact solid_ofList_digits hds
    · next d rest =>
      intro c hc
      rw [String.toList_ofList] at hc
      simp only [List.mem_cons] at hc
      rcases hc with rfl | rfl | hc
      · exact isBlank_of_isDigit (hds c (by simp))
      · decide
      · exact isBlank_of_isDigit (hds c (by simp [hc]))
  · split
    · exact .append (solid_of (by cbv)) (solid_toString _)
    · exact .append hplus (solid_toString _)

end Decimal

/-- Every float is written without blanks. -/
theorem Value.solid_floatText (x : Float) : Solid (Value.floatText x) := by
  have hdigits : ∀ d ∈ (toString (Decimal.shortest x).digits).toList, Numeral.isDigit d = true :=
    fun _ hd => isDigit_of_mem_toString hd
  have hwritten : Solid (Decimal.write Value.numberLayout (Decimal.shortest x)) := by
    unfold Decimal.write
    dsimp only
    split
    · exact solid_of (by cbv)
    · split
      · exact Decimal.solid_positional hdigits (solid_of (by cbv)) _
      · exact Decimal.solid_scientific hdigits (solid_of (by cbv)) (solid_of (by cbv)) _
  unfold Value.floatText Decimal.writeFloat
  refine .append ?_ hwritten
  split <;> exact solid_of (by cbv)

/-! ## Reading a number back -/

namespace Numeral

/-- An integer that fits into 64 bits with a sign is read back as it is written. -/
theorem signed?_toString {n : Int} (low : -0x8000000000000000 ≤ n) (high : n < 0x8000000000000000) :
    signed? (toString n).toList = some n := by
  cases n with
  | ofNat m =>
    have hread := Token.signed?_natural (toString_ne_nil m) (fun d => isDigit_of_mem_toString) (by
      rw [ofDigitChars_toString]
      simp only [Int.ofNat_eq_natCast] at high
      omega)
    rw [ofDigitChars_toString] at hread
    exact hread
  | negSucc m =>
    have hread := Token.signed?_negative (toString_ne_nil (m + 1))
      (fun d => isDigit_of_mem_toString) (by
      rw [ofDigitChars_toString]
      omega)
    have htext : (toString (Int.negSucc m)).toList = '-' :: (toString (m + 1)).toList := by
      have hsign : toString (Int.negSucc m) = "-" ++ toString (m + 1) := rfl
      rw [hsign, String.toList_append]
      rfl
    rw [ofDigitChars_toString] at hread
    rw [htext]
    exact hread

/-- So is one that fits without a sign. -/
theorem unsigned?_toString {n : Nat} (high : n < 0x10000000000000000) :
    unsigned? (toString n).toList = some (n : Int) := by
  have hnat := Token.natural?_digits (toString_ne_nil n) fun d => isDigit_of_mem_toString
  rw [ofDigitChars_toString] at hnat
  have hrange : (n : Int) < 0x10000000000000000 := by omega
  unfold unsigned?
  split
  · next ds heq =>
    have hplus : '+' ∈ (toString n).toList := heq ▸ List.mem_cons_self
    exact absurd (isDigit_of_mem_toString hplus) (by decide)
  · rw [hnat]
    simp [Option.filter, hrange]

end Numeral

/-! ## What a text shows it confirms -/

namespace Value

/-- A value whose text reads back: an integer of the signed or the unsigned 64-bit range, a
floating-point number whose text is read as that number, and any value that is compared as text. -/
def Legible : Value → Prop
  | .int n => -0x8000000000000000 ≤ n ∧ n < 0x10000000000000000
  | .float x => ∃ y, Numeral.float? (floatText x).toList = some y ∧ (y == x) = true
  | _ => True

/-- A truth value is written in normal form. -/
theorem normal_text_bool (b : Bool) : Text.normal (Value.bool b).text = if b then "true" else
    "false" := by
  cases b <;> exact Text.normal_of_solid (solid_of (by cbv))

/-- **A text that shows a value confirms it**, unless the value is absent. -/
theorem confirms_of_shown {v : Value} {t : String} (hv : v.Legible) (hnull : v ≠ .null)
    (h : Text.normal v.display = Text.normal t) : v.confirms t = true := by
  cases v with
  | null => exact absurd rfl hnull
  | bool b =>
    have hshown : Text.normal t = if b then "true" else "false" := h.symm.trans (normal_text_bool b)
    exact beq_iff_eq.mpr hshown
  | int n =>
    obtain ⟨low, high⟩ := hv
    have hshown : Text.normal t = toString n := h.symm.trans (Text.normal_of_solid (solid_int n))
    unfold confirms
    rw [hshown]
    dsimp only
    split
    · next hn =>
      rw [Numeral.signed?_toString low hn]
      exact beq_self_eq_true _
    · next hn =>
      obtain ⟨m, rfl⟩ : ∃ m : Nat, n = m := ⟨n.toNat, by omega⟩
      have hread : Numeral.unsigned? (toString (m : Int)).toList = some (m : Int) :=
        Numeral.unsigned?_toString (by omega)
      rw [hread]
      exact beq_self_eq_true _
  | float x =>
    obtain ⟨y, hread, heq⟩ := hv
    have hshown : Text.normal t = floatText x :=
      h.symm.trans (Text.normal_of_solid (solid_floatText x))
    unfold confirms
    rw [hshown]
    dsimp only
    rw [hread]
    exact heq
  | string s =>
    exact beq_iff_eq.mpr h
  | array items =>
    exact beq_iff_eq.mpr h
  | object fields =>
    exact beq_iff_eq.mpr h

/-- Where nothing is displayed, nothing confirms the absent value. -/
theorem not_confirms_of_shown {t : String} (h : Text.normal Value.null.display = Text.normal t) :
    Value.null.confirms t = false := by
  have hblank : Text.normal t = "" := h.symm.trans (by cbv)
  unfold confirms
  rw [hblank]
  cbv

/-- **Row keys and assertions agree** on all values but the absent one. -/
theorem confirms_iff_of_shown {v : Value} {t : String} (hv : v.Legible)
    (h : Text.normal v.display = Text.normal t) :
    v.confirms t = true ↔ v ≠ .null := by
  refine ⟨?_, fun hnull => confirms_of_shown hv hnull h⟩
  rintro hconfirms rfl
  rw [not_confirms_of_shown h] at hconfirms
  cases hconfirms

end Value
end LiveSpec
