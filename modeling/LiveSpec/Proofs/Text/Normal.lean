import LiveSpec.Proofs.Tree.Classes
import LiveSpec.Proofs.Value.Confirming

/-!
# The normal form of a text

A text is taken apart into its maximal runs of characters that are not blank (`Text.Runs`). There is
one way to do so (`Text.runs_iff`), and the reader of words finds it.

The normal form of the text is these runs in their order, joined by single spaces, with nothing
before them or after them (`Text.normalChars_eq`). It is made by two passes that know nothing of
runs, one that makes blanks into single spaces and one that cuts off what is left of them at the
ends. Neither of the two changes the words, and a text that both are done with is its words and the
spaces between them (`Text.eq_join_of_tidy`).
-/

namespace LiveSpec.Text

variable {cs ds xs ys : List Char} {ws : List (List Char)} {c d : Char}

/-- A text taken apart into its maximal runs of characters that are not blank, in order. -/
inductive Runs : List Char → List (List Char) → Prop
  | blank {bs : List Char} (blanks : ∀ b ∈ bs, isBlank b = true) : Runs bs []
  | run {bs w cs : List Char} {ws : List (List Char)} (blanks : ∀ b ∈ bs, isBlank b = true)
    (nonempty : w ≠ [])
    (solid : ∀ c ∈ w, isBlank c = false) (maximal : ∀ c ∈ cs.head?, isBlank c = true)
      (rest : Runs cs ws) :
    Runs (bs ++ w ++ cs) (w :: ws)

/-! ## The words are the runs -/

theorem words_of_blanks (h : ∀ b ∈ xs, isBlank b = true) : words xs = [] := words_append_blanks [] h

theorem words_blanks_append (h : ∀ b ∈ xs, isBlank b = true) (ys : List Char) :
    words (xs ++ ys) = words ys := by
  induction xs with
  | nil => rfl
  | cons b xs ih =>
    rw [List.cons_append, words_of_blank (h b List.mem_cons_self)]
    exact ih fun x hx => h x (List.mem_cons_of_mem b hx)

/-- What is taken apart into runs has these words. -/
theorem Runs.words_eq (h : Runs cs ws) : words cs = ws := by
  induction h with
  | blank hblanks => exact words_of_blanks hblanks
  | @run bs w cs ws hblanks hne hsolid hmax _ ih =>
    rw [List.append_assoc, words_blanks_append hblanks]
    cases cs with
    | nil => rw [List.append_nil, words_of_solid hne hsolid, ← ih, words]
    | cons c cs =>
      have hc : isBlank c = true := hmax c rfl
      rw [words_append_blank hc, words_of_solid hne hsolid, ← words_of_blank hc, ih]
      rfl

theorem Runs.blank_cons (hc : isBlank c = true) (h : Runs cs ws) : Runs (c :: cs) ws := by
  cases h with
  | blank hblanks => exact .blank (List.forall_mem_cons.mpr ⟨hc, hblanks⟩)
  | @run bs w cs ws hblanks hne hsolid hmax hrest =>
    have hrun : Runs ((c :: bs) ++ w ++ cs) (w :: ws) :=
      .run (List.forall_mem_cons.mpr ⟨hc, hblanks⟩) hne hsolid hmax hrest
    exact hrun

/-- A run at the start of a text. -/
theorem Runs.start {w : List Char} (hne : w ≠ []) (hsolid : ∀ c ∈ w, isBlank c = false)
    (hmax : ∀ c ∈ cs.head?, isBlank c = true) (h : Runs cs ws) : Runs (w ++ cs) (w :: ws) := by
  have hrun : Runs ([] ++ w ++ cs) (w :: ws) := .run nofun hne hsolid hmax h
  exact hrun

/-- A letter before a letter belongs to the run that this one starts. -/
theorem Runs.letter_cons {w : List Char} (hc : isBlank c = false) (hd : isBlank d = false)
    (h : Runs (d :: cs) (w :: ws)) : Runs (c :: d :: cs) ((c :: w) :: ws) := by
  generalize htext : d :: cs = text at h
  cases h with
  | @run bs w cs' ws hblanks hne hsolid hmax hrest =>
    cases bs with
    | nil => exact .start (w := c :: w) (List.cons_ne_nil c w) (List.forall_mem_cons.mpr ⟨hc,
      hsolid⟩) hmax hrest
    | cons b bs =>
      obtain ⟨rfl, -⟩ := List.cons.inj htext
      have hblank := hblanks d List.mem_cons_self
      rw [hd] at hblank
      cases hblank

/-- A text is taken apart into its words. -/
theorem runs_words (cs : List Char) : Runs cs (words cs) := by
  induction cs with
  | nil => exact .blank nofun
  | cons c cs ih =>
    cases hc : isBlank c with
    | true => exact words_of_blank hc cs ▸ ih.blank_cons hc
    | false =>
      have hsingle : ∀ x ∈ [c], isBlank x = false := fun x hx => List.mem_singleton.mp hx ▸ hc
      cases cs with
      | nil =>
        rw [words_of_solid (List.cons_ne_nil c []) hsingle]
        exact .start (w := [c]) (List.cons_ne_nil c []) hsingle nofun (.blank nofun)
      | cons d cs =>
        cases hd : isBlank d with
        | true =>
          rw [words_before_blank hc hd]
          exact .start (List.cons_ne_nil c []) hsingle (fun x hx => Option.mem_some.mp hx ▸ hd) ih
        | false =>
          obtain ⟨w, ws, hw⟩ := exists_words hd cs
          rw [words_before_letter hc hd hw]
          exact .letter_cons hc hd (hw ▸ ih)

/-- **There is one way to take a text apart.** -/
theorem runs_iff : Runs cs ws ↔ words cs = ws := ⟨Runs.words_eq, fun h => h ▸ runs_words cs⟩

/-! ## What is in normal form is its words -/

/-- A text whose only blanks are single spaces between letters. -/
structure Tidy (cs : List Char) : Prop extends Single cs where
  first : ∀ c ∈ cs.head?, isBlank c = false
  last : ∀ c ∈ cs.getLast?, isBlank c = false

theorem join_cons {w : List Char} (hws : ws ≠ []) :
    [' '].intercalate (w :: ws) = w ++ ' ' :: [' '].intercalate ws := by
  obtain ⟨v, ws, rfl⟩ := List.exists_cons_of_ne_nil hws
  simp [List.intercalate]

theorem join_letter_cons (c : Char) (w : List Char) (ws : List (List Char)) :
    [' '].intercalate ((c :: w) :: ws) = c :: [' '].intercalate (w :: ws) := by
  cases ws <;> simp [List.intercalate]

/-- **A tidy text is its words, joined by single spaces.** -/
theorem eq_join_of_tidy {cs : List Char} (h : Tidy cs) : cs = [' '].intercalate (words cs) := by
  match cs, h with
  | [], _ => rfl
  | [c], h =>
    have hc : isBlank c = false := h.first c rfl
    have hword : words [c] = [[c]] := words_of_solid (by simp) fun x hx =>
      List.mem_singleton.mp hx ▸ hc
    rw [hword]
    rfl
  | c :: d :: cs, h =>
    have hc : isBlank c = false := h.first c rfl
    have hlast : ∀ x ∈ (d :: cs).getLast?, isBlank x = false :=
      fun x hx => h.last x (by simpa using hx)
    cases hd : isBlank d with
    | true =>
      -- a blank is a single space, and it is not the last character
      obtain rfl : d = ' ' := h.space (by simp) hd
      cases cs with
      | nil =>
        have hblank := hlast ' ' rfl
        rw [hd] at hblank
        cases hblank
      | cons e cs =>
        have hapart := (List.isChain_cons_cons.mp (List.isChain_cons_cons.mp h.apart).2).1 hd
        have htidy : Tidy (e :: cs) :=
          ⟨h.part ⟨[c, ' '], [], by simp⟩, fun x hx => Option.mem_some.mp hx ▸ hapart,
          fun x hx => hlast x (by simpa using hx)⟩
        obtain ⟨w, ws, hw⟩ := exists_words hapart cs
        rw [words_before_blank hc hd, words_of_blank hd, join_cons (hw ▸ List.cons_ne_nil w ws)]
        exact congrArg (c :: ' ' :: ·) (eq_join_of_tidy htidy)
    | false =>
      have htidy : Tidy (d :: cs) :=
        ⟨h.part ⟨[c], [], by simp⟩, fun x hx => Option.mem_some.mp hx ▸ hd, hlast⟩
      obtain ⟨w, ws, hw⟩ := exists_words hd cs
      have hjoin := eq_join_of_tidy htidy
      rw [hw] at hjoin
      rw [words_before_letter hc hd hw, join_letter_cons, ← hjoin]
termination_by cs.length

/-! ## The two passes -/

/-- What the words of a text are goes by the words after the first letter and by whether a blank
follows it. -/
theorem words_cons_congr (hhead : xs.head?.map isBlank = ys.head?.map isBlank)
    (hwords : words xs = words ys) (c : Char) :
    words (c :: xs) = words (c :: ys) := by
  cases hc : isBlank c with
  | true => rw [words_of_blank hc, words_of_blank hc, hwords]
  | false =>
    cases xs with
    | nil =>
      cases ys with
      | nil => rfl
      | cons _ _ => cases hhead
    | cons x xs =>
      cases ys with
      | nil => cases hhead
      | cons y ys =>
        have hsame : isBlank x = isBlank y := Option.some.inj hhead
        cases hx : isBlank x with
        | true =>
          have hy : isBlank y = true := hsame ▸ hx
          rw [words_before_blank hc hx, words_before_blank hc hy, hwords]
        | false =>
          have hy : isBlank y = false := hsame ▸ hx
          obtain ⟨w, ws, hw⟩ := exists_words hx xs
          rw [words_before_letter hc hx hw, words_before_letter hc hy (hwords ▸ hw)]

theorem collapse_of_letter (hc : isBlank c = false) (cs : List Char) :
    collapse (c :: cs) = c :: collapse cs := by
  rw [collapse.eq_def]
  exact if_neg (by simp [hc])

theorem head?_collapse (cs : List Char) :
    (collapse cs).head?.map isBlank = cs.head?.map isBlank := by
  induction cs with
  | nil => rfl
  | cons c cs ih =>
    cases hc : isBlank c with
    | false => simp [collapse_of_letter hc]
    | true =>
      have hspace : isBlank ' ' = true := rfl
      unfold collapse
      rw [if_pos hc]
      cases cs with
      | nil => simp [hc, hspace]
      | cons d cs =>
        cases hd : isBlank d with
        | true => simpa [hd, hc] using ih
        | false => simp [hd, hc, hspace]

/-- The first pass keeps the words. -/
theorem words_collapse (cs : List Char) : words (collapse cs) = words cs := by
  induction cs with
  | nil => rfl
  | cons c cs ih =>
    cases hc : isBlank c with
    | false =>
      rw [collapse_of_letter hc]
      exact words_cons_congr (head?_collapse cs) ih c
    | true =>
      have hspace : isBlank ' ' = true := rfl
      rw [words_of_blank hc]
      unfold collapse
      rw [if_pos hc]
      cases cs with
      | nil => exact words_of_blank hspace []
      | cons d cs =>
        dsimp only
        split
        · exact ih
        · exact (words_of_blank hspace _).trans ih

theorem head?_trim (cs : List Char) : ∀ c ∈ (trim cs).head?, isBlank c = false := by
  have hleft : ∀ c ∈ (trimLeft cs).head?, isBlank c = false := fun c hc => by
    have hhead := List.head?_dropWhile_not isBlank cs
    rw [show (cs.dropWhile isBlank).head? = some c from hc] at hhead
    simpa using hhead
  intro c hc
  obtain ⟨ds, hds⟩ := isPrefix_trimRight (trimLeft cs)
  refine hleft c ?_
  rw [← hds]
  exact List.mem_head?_append_of_mem_head? hc

theorem getLast?_trim (cs : List Char) : ∀ c ∈ (trim cs).getLast?, isBlank c = false := by
  intro c hc
  have hhead := List.head?_dropWhile_not isBlank (trimLeft cs).reverse
  rw [trim, trimRight, List.getLast?_reverse] at hc
  rw [show ((trimLeft cs).reverse.dropWhile isBlank).head? = some c from hc] at hhead
  simpa using hhead

theorem tidy_normalChars (cs : List Char) : Tidy (normalChars cs) :=
  ⟨(single_collapse cs).part (isInfix_trim _), head?_trim _, getLast?_trim _⟩

/-- **The normal form of a text is its words, joined by single spaces.** -/
theorem normalChars_eq (cs : List Char) : normalChars cs = [' '].intercalate (words cs) := by
  have hwords : words (normalChars cs) = words cs := (words_trim _).trans (words_collapse cs)
  exact (eq_join_of_tidy (tidy_normalChars cs)).trans (congrArg _ hwords)

end LiveSpec.Text
