import LiveSpec.Proofs.Tree.Edits

/-!
# The words of the attribute `class`

`Attributes.addClass` writes the attribute anew: it trims the old value and puts the word behind it,
after a space. What counts is the list of words, and there the word is added at the end, unless it
was listed before (`Attributes.classes_addClass`). So adding one word hides or shows no other
(`Attributes.hasClass_addClass`).
-/

namespace LiveSpec

namespace Text

theorem words_of_blank {c : Char} (hc : isBlank c = true) (cs : List Char) :
    words (c :: cs) = words cs := by
  rw [words.eq_def]
  exact if_pos hc

/-- A letter alone is a word. -/
theorem words_letter {c : Char} (hc : isBlank c = false) : words [c] = [[c]] :=
  if_neg (Bool.eq_false_iff.mp hc)

/-- A letter before a blank is a word. -/
theorem words_before_blank {c d : Char} (hc : isBlank c = false) (hd : isBlank d = true)
    (cs : List Char) : words (c :: d :: cs) = [c] :: words (d :: cs) := by
  rw [words.eq_def]
  exact (if_neg (Bool.eq_false_iff.mp hc)).trans (if_pos hd)

/-- A letter before a letter belongs to the word that this one starts. -/
theorem words_before_letter {c d : Char} (hc : isBlank c = false) (hd : isBlank d = false)
    {cs w : List Char} {ws : List (List Char)} (h : words (d :: cs) = w :: ws) :
    words (c :: d :: cs) = (c :: w) :: ws := by
  unfold words
  simp [hc, hd, h]

/-- A text that starts with a letter has a word. -/
theorem exists_words {c : Char} (hc : isBlank c = false) (cs : List Char) :
    ∃ w ws, words (c :: cs) = w :: ws := by
  induction cs generalizing c with
  | nil => exact ⟨[c], [], words_letter hc⟩
  | cons d cs ih =>
    cases hd : isBlank d with
    | true => exact ⟨_, _, words_before_blank hc hd cs⟩
    | false =>
      obtain ⟨w, ws, h⟩ := ih hd
      exact ⟨_, _, words_before_letter hc hd h⟩

/-- The words of a text do not depend on the blanks at its start. -/
theorem words_trimLeft (cs : List Char) : words (trimLeft cs) = words cs := by
  induction cs with
  | nil => rfl
  | cons c cs ih =>
    by_cases hc : isBlank c = true
    · rw [words_of_blank hc, ← ih]
      simp [trimLeft, hc]
    · simp [trimLeft, hc]

/-- No word goes on after a blank. -/
theorem words_append_blank {b : Char} (hb : isBlank b = true) (xs ys : List Char) :
    words (xs ++ b :: ys) = words xs ++ words ys := by
  induction xs with
  | nil => exact words_of_blank hb ys
  | cons c xs ih =>
    cases hc : isBlank c with
    | true =>
      rw [List.cons_append, words_of_blank hc, words_of_blank hc]
      exact ih
    | false =>
      cases xs with
      | nil =>
        show words (c :: b :: ys) = words [c] ++ words ys
        rw [words_before_blank hc hb, words_of_blank hb, words_letter hc]
        rfl
      | cons d xs =>
        cases hd : isBlank d with
        | true =>
          show words (c :: d :: (xs ++ b :: ys)) = words (c :: d :: xs) ++ words ys
          rw [words_before_blank hc hd, words_before_blank hc hd]
          exact congrArg ([c] :: ·) ih
        | false =>
          obtain ⟨w, ws, hw⟩ := exists_words hd xs
          rw [words_before_letter hc hd hw]
          exact words_before_letter hc hd (ih.trans (by rw [hw]; rfl))

theorem words_append_blanks (xs : List Char) {bs : List Char} (hbs : ∀ b ∈ bs, isBlank b = true) :
    words (xs ++ bs) = words xs := by
  cases bs with
  | nil => simp
  | cons b bs =>
    have hrest : words bs = [] := by
      induction bs with
      | nil => rfl
      | cons c bs ih =>
        rw [words_of_blank (hbs c (by simp))]
        exact ih fun x hx => hbs x (by simp at hx ⊢; tauto)
    rw [words_append_blank (hbs b (by simp)), hrest, List.append_nil]

theorem words_trimRight (cs : List Char) : words (trimRight cs) = words cs := by
  have hsplit : cs = trimRight cs ++ (cs.reverse.takeWhile isBlank).reverse := by
    have h :=
      congrArg List.reverse (List.takeWhile_append_dropWhile (p := isBlank) (l := cs.reverse))
    rw [List.reverse_append, List.reverse_reverse] at h
    exact h.symm
  have hblank : ∀ b ∈ (cs.reverse.takeWhile isBlank).reverse, isBlank b = true := by
    intro b hb
    exact List.mem_takeWhile_imp (List.mem_reverse.mp hb)
  calc words (trimRight cs) = words (trimRight cs ++ (cs.reverse.takeWhile isBlank).reverse) :=
        (words_append_blanks _ hblank).symm
    _ = words cs := by rw [← hsplit]

/-- Trimming a text keeps its words. -/
theorem words_trim (cs : List Char) : words (trim cs) = words cs := by
  rw [trim, words_trimRight, words_trimLeft]

end Text

/-- A text that is one word. -/
structure IsWord (w : String) : Prop where
  nonempty : w.toList ≠ []
  solid : ∀ c ∈ w.toList, Text.isBlank c = false

/-- Whether a text is one word can be computed. -/
theorem isWord_of {w : String} (h : (!w.toList.isEmpty && w.toList.all fun c => !Text.isBlank c) =
    true) : IsWord w := by
  obtain ⟨hne, hsolid⟩ := Bool.and_eq_true_iff.mp h
  refine ⟨by simpa using hne, fun c hc => ?_⟩
  simpa using List.all_eq_true.mp hsolid c hc

namespace Text

theorem words_of_solid {cs : List Char} (hne : cs ≠ []) (h : ∀ c ∈ cs, isBlank c = false) :
    words cs = [cs] := by
  induction cs with
  | nil => exact absurd rfl hne
  | cons c cs ih =>
    have hc : isBlank c = false := h c (by simp)
    cases cs with
    | nil => exact words_letter hc
    | cons d cs =>
      have hd : isBlank d = false := h d (by simp)
      exact words_before_letter hc hd (ih (by simp) fun x hx => h x (List.mem_cons_of_mem c hx))

end Text

namespace Markup.Attributes

variable {w v : String}

theorem find?_put_self (name value : String) (as : Attributes) :
    (as.put name value).find? name = some value := by
  have hsame : ∀ s : String, Text.sameName s s = true := fun s => by simp [Text.sameName]
  induction as with
  | nil => simp [put, find?, hsame]
  | cons a as ih =>
    obtain ⟨n, old⟩ := a
    by_cases hn : Text.sameName n name = true
    · simp [put, find?, hn]
    · simp [put, find?, hn, ih]

/-- Writing an attribute leaves those of other names alone. -/
theorem find?_put_of_ne {name other : String} (h : Text.sameName name other = false)
    (value : String) (as : Attributes) :
    (as.put name value).find? other = as.find? other := by
  -- no spelling of the one name is a spelling of the other
  have hnot {n : String} (hn : Text.sameName n name = true) : Text.sameName n other = false := by
    simp only [Text.sameName, beq_iff_eq, beq_eq_false_iff_ne] at h hn ⊢
    exact hn ▸ h
  induction as with
  | nil => simp [put, find?, h]
  | cons a as ih =>
    obtain ⟨n, old⟩ := a
    by_cases hn : Text.sameName n name = true
    · simp [put, find?, hn, hnot hn]
    · simp [put, find?, hn, ih]

/-- Adding a class leaves the other attributes alone. -/
theorem find?_addClass {other : String} (h : Text.sameName "class" other = false) (w : String)
    (as : Attributes) :
    (addClass w as).find? other = as.find? other := by
  unfold addClass
  split
  · rfl
  · exact find?_put_of_ne h _ as

theorem classes_put (value : String) (as : Attributes) :
    (as.put "class" value).classes = (Text.words value.toList).map String.ofList := by
  rw [classes, find?_put_self]

/-- **Adding a word puts it behind the others**, unless it is among them. -/
theorem classes_addClass (hw : IsWord w) (as : Attributes) :
    (addClass w as).classes = if as.hasClass w then as.classes else as.classes ++ [w] := by
  unfold addClass
  split
  · rfl
  · -- what is there before, trimmed, has the words of the attribute
    have hold : as.classes =
        (Text.words (Text.trimmed ((as.find? "class").getD "")).toList).map String.ofList := by
      rw [Text.trimmed, String.toList_ofList, Text.words_trim]
      unfold classes
      cases as.find? "class" with
      | none => rfl
      | some old => rfl
    have hnew : Text.words w.toList = [w.toList] := Text.words_of_solid hw.nonempty hw.solid
    dsimp only
    rw [classes_put, hold]
    split
    · next hempty => simp [hempty, hnew, show Text.words [] = [] from rfl]
    · have hspace : Text.isBlank ' ' = true := rfl
      have hjoin : (Text.trimmed ((as.find? "class").getD "") ++ " " ++ w).toList =
          (Text.trimmed ((as.find? "class").getD "")).toList ++ ' ' :: w.toList := by simp
      rw [hjoin, Text.words_append_blank hspace, hnew, List.map_append]
      simp

/-- Adding a word changes nothing for the others. -/
theorem hasClass_addClass (hw : IsWord w) (as : Attributes) :
    (addClass w as).hasClass v = (as.hasClass v || v == w) := by
  have hcontains : (addClass w as).hasClass v =
      (if as.hasClass w then as.classes else as.classes ++ [w]).contains v := by
    rw [hasClass, classes_addClass hw]
  rw [hcontains]
  split
  · next h =>
    by_cases hv : v = w
    · subst hv; simpa [hasClass] using h
    · simp [hasClass, hv]
  · by_cases hv : v = w <;> simp [hasClass, hv]

/-- A word that is listed is not added again. -/
theorem addClass_of_hasClass {as : Attributes} (h : as.hasClass w = true) : addClass w as = as := by
  rw [addClass, if_pos h]

end Markup.Attributes

/-! ## Classes in a tree -/

namespace Markup.Tree

variable {t : Tree} {n m : NodeId} {w v : String}

theorem attributes_modifyAttributes (f : Attributes → Attributes) :
    (t.modifyAttributes n f).attributes m =
      if n = m ∧ t.isElement n = true then f (t.attributes m) else t.attributes m := by
  by_cases hm : n = m
  · subst hm
    have hcontent :
        ((t.modifyAttributes n f).node n).content = (t.node n).content.mapAttributes f := by
      rw [node_modifyAttributes, if_pos rfl]
    unfold attributes isElement
    rw [hcontent]
    cases (t.node n).content <;> simp [Content.mapAttributes]
  · simp [attributes, node_modifyAttributes, hm]

theorem hasClass_addClass (hw : IsWord w) :
    (t.addClass n w).hasClass m v = (t.hasClass m v ||
      (decide (n = m) && t.isElement n && v == w)) := by
  unfold hasClass addClass
  rw [attributes_modifyAttributes]
  by_cases h : n = m ∧ t.isElement n = true
  · obtain ⟨rfl, hn⟩ := h
    rw [if_pos ⟨rfl, hn⟩, Attributes.hasClass_addClass hw]
    simp [hn]
  · rw [if_neg h]
    by_cases hm : n = m
    · have hn : t.isElement n = false := by simpa [hm] using h
      simp [hn]
    · simp [hm]

theorem isElement_of_hasClass (h : t.hasClass n w = true) : t.isElement n = true := by
  unfold hasClass attributes at h
  unfold isElement
  split at h
  · rfl
  · simp [Attributes.hasClass, Attributes.classes, Attributes.find?] at h

/-- A class that an element has already is not written again. -/
theorem addClass_of_hasClass (h : t.hasClass n w = true) : t.addClass n w = t := by
  refine ext_node (size_modifyAttributes _) fun m => ?_
  rw [addClass, node_modifyAttributes]
  split
  · next hm =>
    subst hm
    obtain ⟨name, as, hc⟩ : ∃ name as, (t.node n).content = .element name as := by
      have hn := isElement_of_hasClass h
      unfold isElement at hn
      split at hn
      · exact ⟨_, _, by assumption⟩
      · cases hn
    have has : Attributes.hasClass w as = true := by simpa [hasClass, attributes, hc] using h
    rw [hc, Content.mapAttributes, Attributes.addClass_of_hasClass has, ← hc]
  · rfl

end Markup.Tree
end LiveSpec
