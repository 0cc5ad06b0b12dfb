import LiveSpec.Proofs.Outcome.Strokes

/-!
# Buried messages

A painted failure moves everything that its element contains into a new element, and with it the
messages of exceptions that were painted before. There the painter does not look for them. So
painting is not idempotent when one element has an exception and after that its first failure: the
second painting shows the message again, unless the same message comes once more after the failure.

That is all that can happen. `Bears` says which messages an element shows, and each step of a
painting keeps it but for the first failure of the element, after which it shows none
(`Bears.paintOne`, `Bears.bury`). Along a whole list, the messages that show in the end are those
recorded after the first failure (`Bears.paint`, `bears_after`).
-/

namespace LiveSpec.Painting

open Markup Markup.Tree

variable {t s s' : Tree} {e : NodeId} {base : Nat} {ms ms' : List String} {r : Recorded}
  {os : List Recorded}

/-- The messages of the exceptions that were recorded on an element. -/
def messages (e : NodeId) (os : List Recorded) : List String :=
  os.filterMap fun r =>
    match r.outcome with
    | .exception _ error => if r.element = e then some error.message else none
    | _ => none

/-- The messages of an element are those of its exceptions. -/
theorem mem_messages {message : String} : message ∈ messages e os ↔
    ∃ r ∈ os, r.element = e ∧ ∃ x error, r.outcome = .exception x error ∧
      error.message = message := by
  unfold messages
  rw [List.mem_filterMap]
  refine exists_congr fun r => and_congr_right fun _ => ?_
  cases ho : r.outcome <;> simp

/-- Messages come in the order of the outcomes. -/
theorem messages_append (os os' : List Recorded) :
    messages e (os ++ os') = messages e os ++ messages e os' :=
  List.filterMap_append

theorem messages_cons (r : Recorded) (os : List Recorded) :
    messages e (r :: os) = messages e [r] ++ messages e os :=
  messages_append [r] os

/-- A failure has no message. -/
theorem messages_of_fails (h : Fails r) : messages e [r] = [] := by
  obtain ⟨expected, actual, ho⟩ := h
  simp [messages, ho]

theorem messages_of_not_exception (h : ∀ x error, r.outcome ≠ .exception x error) :
    messages e [r] = [] := by
  cases ho : r.outcome with
  | exception x error => exact absurd ho (h x error)
  | _ => simp [messages, ho]

/-- An exception has one. -/
theorem messages_of_exception {x : String} {error : EvaluationError}
    (ho : r.outcome = .exception x error) :
    messages r.element [r] = [error.message] := by
  simp [messages, ho]

/-- Outcomes elsewhere have none here. -/
theorem messages_of_ne (h : r.element ≠ e) : messages e [r] = [] := by
  cases ho : r.outcome <;> simp [messages, ho, h]

/-! ## The messages that an element shows -/

/-- The children of an element that show messages are new, and show these messages. -/
structure Bears (base : Nat) (e : NodeId) (ms : List String) (t : Tree) : Prop where
  shown : ∀ m ∈ ms, ∃ c ∈ (t.node e).children, base ≤ c ∧ t.Note c m
  only : ∀ c ∈ (t.node e).children, t.hasClass c "exceptionMessage" = true →
    ∃ m ∈ ms, base ≤ c ∧ t.Note c m

/-- What an element bears depends on which messages there are, not on how often. -/
theorem Bears.congr (h : Bears base e ms t) (hms : ∀ m, m ∈ ms ↔ m ∈ ms') : Bears base e ms' t where
  shown m hm := h.shown m ((hms m).mpr hm)
  only c hc hclass := by
    obtain ⟨m, hm, hnote⟩ := h.only c hc hclass
    exact ⟨m, (hms m).mp hm, hnote⟩

/-- The painter finds exactly these messages. -/
theorem Bears.shows_iff (h : Bears base e ms t) {m : String} :
    showsMessage t (t.elementsOf e) m = true ↔ m ∈ ms := by
  unfold showsMessage elementsOf
  simp only [List.any_eq_true, List.mem_filter, Bool.and_eq_true, beq_iff_eq]
  constructor
  · rintro ⟨c, ⟨hc, -⟩, hclass, htext⟩
    obtain ⟨m', hm', -, hnote⟩ := h.only c hc hclass
    rw [hnote.spells.text_eq] at htext
    exact htext ▸ hm'
  · intro hm
    obtain ⟨c, hc, -, hnote⟩ := h.shown m hm
    exact ⟨c, ⟨hc, isElement_of_hasClass hnote.hasClass⟩, hnote.hasClass, hnote.spells.text_eq⟩

section

variable {n : NodeId} {w : String} (ht : t.Coherent) (hn : t.isElement n = true) (hlt : n < base)
  (hstroke : Stroke n w t s)
include ht hn hlt hstroke

/-- What is laid over an old element does not touch a message. -/
theorem Stroke.note {c : NodeId} {m : String} (hc : base ≤ c) (hnote : t.Note c m) : s.Note c m :=
  hnote.overlaid ht hstroke.toOverlaid hn (Nat.ne_of_gt (Nat.lt_of_lt_of_le hlt hc))

omit ht hn hlt in
/-- No node becomes a message. -/
theorem Stroke.message_before {c : NodeId} (hw : w ≠ "exceptionMessage") (hc : c < t.nodes.size)
    (hclass : s.hasClass c "exceptionMessage" = true) : t.hasClass c "exceptionMessage" = true := by
  by_cases hcn : c = n
  · subst hcn
    rw [hstroke.hasClass] at hclass
    simpa [Ne.symm hw] using hclass
  · rwa [← hasClass_congr (hstroke.content hc hcn)]

/-- A stroke that makes no message and moves no child leaves what the element bears. -/
theorem Bears.of_stroke (h : Bears base e ms t) (hw : w ≠ "exceptionMessage")
    (hchildren : (s.node e).children = (t.node e).children) : Bears base e ms s := by
  refine ⟨fun m hm => ?_, fun c hc hclass => ?_⟩
  · obtain ⟨c, hc, hnew, hnote⟩ := h.shown m hm
    exact ⟨c, hchildren ▸ hc, hnew, hstroke.note ht hn hlt hnew hnote⟩
  · rw [hchildren] at hc
    obtain ⟨m, hm, hnew, hnote⟩ := h.only c hc (hstroke.message_before hw (ht.child_lt hc) hclass)
    exact ⟨m, hm, hnew, hstroke.note ht hn hlt hnew hnote⟩

/-- One more message. -/
theorem Bears.of_note (h : Bears base n ms t) (hw : w ≠ "exceptionMessage") {a b : NodeId}
    {message : String} (hchildren : (s.node n).children = (t.node n).children ++ [a, b])
    (ha : base ≤ a) (hnote : s.Note a message) (hb : s.hasClass b "exceptionMessage" = false) :
    Bears base n (ms ++ [message]) s := by
  refine ⟨fun m hm => ?_, fun c hc hclass => ?_⟩
  · rw [hchildren]
    rcases List.mem_append.mp hm with hm | hm
    · obtain ⟨c, hc, hnew, hold⟩ := h.shown m hm
      exact ⟨c, List.mem_append_left _ hc, hnew, hstroke.note ht hn hlt hnew hold⟩
    · obtain rfl := List.mem_singleton.mp hm
      exact ⟨a, by simp, ha, hnote⟩
  · rw [hchildren] at hc
    rcases List.mem_append.mp hc with hc | hc
    · obtain ⟨m, hm, hnew, hold⟩ := h.only c hc (hstroke.message_before hw (ht.child_lt hc) hclass)
      exact ⟨m, List.mem_append_left _ hm, hnew, hstroke.note ht hn hlt hnew hold⟩
    · obtain rfl | rfl : c = a ∨ c = b := by simpa using hc
      · exact ⟨message, by simp, ha, hnote⟩
      · rw [hb] at hclass
        cases hclass

end

/-- **Painting an outcome adds its message**, if it has one, and keeps the others, unless it is the
first failure of the element. -/
theorem Bears.painted (h : Bears base e ms t) (ht : t.Coherent) (hs : t.Standing e)
    (hr : t.isElement r.element = true) (hlt : r.element < base) (hbase : base ≤ t.nodes.size)
    (hp : Painted t r s) (hfirst : r.element = e → Fails r → t.hasClass e "failure" = true) :
    Bears base e (ms ++ messages e [r]) s := by
  have hother : r.element ≠ e → (s.node e).children = (t.node e).children := fun hne =>
    (hp.overlaid ht).children (ht.standing_lt hs) (Ne.symm hne)
  cases hp with
  | again hm hshown =>
    by_cases he : r.element = e
    · subst he
      refine h.congr fun m => ?_
      rw [List.mem_append]
      refine ⟨.inl, fun hm => hm.elim id fun hm => ?_⟩
      obtain ⟨r', hr', -, x, error, ho, rfl⟩ := mem_messages.mp hm
      obtain rfl : r' = r := by simpa using hr'
      exact h.shows_iff.mp (hshown x error ho (ht.isLive_of_standing hs))
    · rw [messages_of_ne he, List.append_nil]
      exact h
  | mark hexception _ _ hw hstroke hchildren =>
    rw [messages_of_not_exception hexception, List.append_nil]
    refine h.of_stroke ht hr hlt hstroke hw ?_
    by_cases he : r.element = e
    · exact he ▸ hchildren
    · exact hother he
  | failure hfails hnew hstroke hclean =>
    have he : r.element ≠ e := fun he => by simp [← he, hnew] at hfirst; exact hfirst hfails
    rw [messages_of_ne he, List.append_nil]
    exact h.of_stroke ht hr hlt hstroke (by decide) (hother he)
  | @exception x error s a b ho hstroke hchildren ha hnote hb =>
    by_cases he : r.element = e
    · subst he
      rw [messages_of_exception ho]
      exact h.of_note ht hr hlt hstroke (by decide) hchildren (Nat.le_trans hbase ha) hnote hb
    · rw [messages_of_ne he, List.append_nil]
      exact h.of_stroke ht hr hlt hstroke (by decide) (hother he)

/-- **The first failure of an element buries what it shows.** -/
theorem Bears.buried (hs : t.Standing r.element) (hp : Painted t r s) (hfails : Fails r)
    (hnew : t.hasClass r.element "failure" = false) : Bears base r.element [] s := by
  obtain ⟨expected, actual, ho⟩ := hfails
  cases hp with
  | again hm _ =>
    have hclass := hm "failure" (by simp [ho, marker])
    rw [hnew] at hclass
    cases hclass
  | mark _ _ hstale _ _ _ => exact absurd hs (hstale ⟨expected, actual, ho⟩)
  | failure _ _ _ hclean =>
    refine ⟨fun m hm => absurd hm List.not_mem_nil, fun c hc hclass => ?_⟩
    rw [hclean c hc] at hclass
    cases hclass
  | exception ho' => simp [ho] at ho'

/-- Only a failure of the element marks it as failed. -/
theorem Painted.hasFailed (hp : Painted t r s) (ht : t.Coherent) (he : e < t.nodes.size)
    (hnot : r.element = e → ¬ Fails r) : s.hasClass e "failure" = t.hasClass e "failure" := by
  by_cases hr : r.element = e
  · subst hr
    have hfails := hnot rfl
    cases hp with
    | again => rfl
    | @mark w s _ hw _ _ hstroke _ =>
      have hne : w ≠ "failure" := fun h => hfails (hw h)
      simp [hstroke.hasClass, Ne.symm hne]
    | failure h => exact absurd h hfails
    | exception _ hstroke => simp [hstroke.hasClass]
  · exact hasClass_congr ((hp.overlaid ht).content he (Ne.symm hr)) _

/-! ## Painting a list -/

/-- A tree that painting reached: the elements that were there are there, and the same ones stand.
-/
structure Reached (t s : Tree) : Prop where
  coherent : s.Coherent
  size_le : t.nodes.size ≤ s.nodes.size
  isElement {n : NodeId} : t.isElement n = true → s.isElement n = true
  standing_iff {x : NodeId} : x < t.nodes.size → (s.Standing x ↔ t.Standing x)

theorem Reached.refl (ht : t.Coherent) : Reached t t := ⟨ht, Nat.le_refl _, id, fun _ => .rfl⟩

/-- From a tree that was reached, one more outcome reaches the next. -/
theorem Reached.paintOne (h : Reached t s) (hr : t.isElement r.element = true) :
    Reached t ((Painting.paintOne r).run s).2 := by
  have hover := (painted_paintOne h.coherent (h.isElement hr)).overlaid h.coherent
  exact ⟨hover.coherent, Nat.le_trans h.size_le hover.size_le,
    fun hn => (paintOne_grows r s).isElement (h.isElement hn),
    fun hx => (hover.standing_iff (Nat.lt_of_lt_of_le hx h.size_le)).trans (h.standing_iff hx)⟩

/-- And so does a list of outcomes. -/
theorem Reached.paint (h : Reached t s) (hos : ∀ r ∈ os, t.isElement r.element = true) :
    Reached t (paint s os).1 := by
  induction os generalizing s with
  | nil => exact h
  | cons r os ih =>
    rw [paint_cons]
    exact ih (h.paintOne (hos r (by simp))) fun x hx => hos x (List.mem_cons_of_mem _ hx)

section

variable (h : Reached t s) (hs : t.Standing e) (he : e < t.nodes.size)
  (hos : ∀ r ∈ os, t.isElement r.element = true)
include h hs he hos

omit hs in
/-- Without a failure of the element, it is not marked as failed. -/
theorem hasFailed_paint (hnot : ∀ r ∈ os, r.element = e → ¬ Fails r) :
    (paint s os).1.hasClass e "failure" = s.hasClass e "failure" := by
  induction os generalizing s with
  | nil => rfl
  | cons r os ih =>
    have hr := hos r (by simp)
    have hstep := (painted_paintOne h.coherent (h.isElement hr)).hasFailed h.coherent
      (Nat.lt_of_lt_of_le he h.size_le)
      (hnot r (by simp))
    rw [paint_cons, ih (h.paintOne hr) (fun x hx => hos x (List.mem_cons_of_mem _ hx))
      fun x hx => hnot x (List.mem_cons_of_mem _ hx)]
    exact hstep

/-- Where no failure comes first, the messages add up. -/
theorem Bears.paint (hb : Bears t.nodes.size e ms s)
    (hfirst : (∃ r ∈ os, r.element = e ∧ Fails r) → s.hasClass e "failure" = true) :
    Bears t.nodes.size e (ms ++ messages e os) (paint s os).1 := by
  induction os generalizing s ms with
  | nil =>
    rw [show messages e [] = [] from rfl, List.append_nil]
    exact hb
  | cons r os ih =>
    have hr := hos r (by simp)
    have hstands := (h.standing_iff he).mpr hs
    have hpainted := painted_paintOne h.coherent (h.isElement hr)
    have hb' :=
      hb.painted h.coherent hstands (h.isElement hr) (lt_size_of_isElement hr) h.size_le hpainted
      fun hre hfails => hfirst ⟨r, by simp, hre, hfails⟩
    rw [paint_cons, messages_cons, ← List.append_assoc]
    refine ih (h.paintOne hr) (fun x hx => hos x (List.mem_cons_of_mem _ hx)) hb' ?_
    rintro ⟨x, hx, hxe, hfails⟩
    exact (paintOne_grows r s).hasClass (hfirst ⟨x, List.mem_cons_of_mem _ hx, hxe, hfails⟩)

end

/-- The first failure of an element in a list, if there is one. -/
theorem exists_first_failure (os : List Recorded) (e : NodeId)
    (h : ∃ r ∈ os, r.element = e ∧ Fails r) :
    ∃ before r after, os = before ++ r :: after ∧ r.element = e ∧ Fails r ∧
      ∀ x ∈ before, x.element = e → ¬ Fails x := by
  induction os with
  | nil => obtain ⟨r, hr, -⟩ := h; cases hr
  | cons r os ih =>
    by_cases hr : r.element = e ∧ Fails r
    · exact ⟨[], r, os, rfl, hr.1, hr.2, fun x hx => by cases hx⟩
    · obtain ⟨x, hx, hxe, hfails⟩ := h
      rcases List.mem_cons.mp hx with rfl | hx
      · exact absurd ⟨hxe, hfails⟩ hr
      · obtain ⟨before, y, after, rfl, hye, hy, hbefore⟩ := ih ⟨x, hx, hxe, hfails⟩
        refine ⟨r :: before, y, after, rfl, hye, hy, fun z hz hze => ?_⟩
        rcases List.mem_cons.mp hz with rfl | hz
        · exact fun hf => hr ⟨hze, hf⟩
        · exact hbefore z hz hze

/-- The messages after the first failure are those that show in the end. -/
theorem bears_after {before after : List Recorded} (ht : t.Coherent)
    (hos : ∀ x ∈ before ++ r :: after, t.isElement x.element = true) (hs : t.Standing r.element)
    (hnew : t.hasClass r.element "failure" = false) (hfails : Fails r)
    (hbefore : ∀ x ∈ before, x.element = r.element → ¬ Fails x) :
    Bears t.nodes.size r.element (messages r.element after) (paint t (before ++ r :: after)).1 := by
  have hbos : ∀ x ∈ before, t.isElement x.element = true := fun x hx => hos x (by simp [hx])
  have hr : t.isElement r.element = true := hos r (by simp)
  have haos : ∀ x ∈ after, t.isElement x.element = true := fun x hx => hos x (by simp [hx])
  have hlt := lt_size_of_isElement hr
  rw [paint_append, paint_cons]
  have h₀ : Reached t (paint t before).1 := (Reached.refl ht).paint hbos
  have hnew₀ := hasFailed_paint (.refl ht) hlt hbos hbefore
  rw [hnew] at hnew₀
  generalize (paint t before).1 = s at h₀ hnew₀ ⊢
  -- the failure buries what was painted before
  have hburied : Bears t.nodes.size r.element [] ((paintOne r).run s).2 :=
    .buried ((h₀.standing_iff hlt).mpr hs)
      (painted_paintOne h₀.coherent (h₀.isElement hr)) hfails hnew₀
  obtain ⟨expected, actual, ho⟩ := hfails
  have hmarked : ((paintOne r).run s).2.hasClass r.element "failure" = true :=
    marked_paintOne (h₀.isElement hr) "failure" (by simp [ho, marker])
  exact hburied.paint (h₀.paintOne hr) hs hlt haos fun _ => hmarked

/-! ## Idempotence -/

/-- The exceptions of a list are on elements that contain no message yet. -/
def Unpainted (t : Tree) (os : List Recorded) : Prop :=
  ∀ r ∈ os, (∃ x error, r.outcome = .exception x error) →
    ∀ c ∈ (t.node r.element).children, t.hasClass c "exceptionMessage" = false

/-- A list in which the first failure of an element in the document comes after an exception of that
element whose message does not come again. -/
def Buries (t : Tree) (os : List Recorded) : Prop :=
  ∃ before r after, os = before ++ r :: after ∧ Fails r ∧ t.isLive r.element = true ∧
    t.hasClass r.element "failure" = false ∧ (∀ x ∈ before, x.element = r.element → ¬ Fails x) ∧
    ∃ message ∈ messages r.element before, message ∉ messages r.element after

/-- Before painting, an element with an exception bears no message. -/
theorem Unpainted.bears (h : Unpainted t os) (hr : r ∈ os)
    (hexception : ∃ x error, r.outcome = .exception x error) :
    Bears t.nodes.size r.element [] t := by
  refine ⟨fun m hm => absurd hm List.not_mem_nil, fun c hc hclass => ?_⟩
  rw [h r hr hexception c hc] at hclass
  cases hclass

/-- All messages show in the end unless one is buried. -/
theorem shown_iff_not_buries (ht : t.Coherent) (hos : ∀ r ∈ os, t.isElement r.element = true)
    (hclean : Unpainted t os) : (∀ r ∈ os, Shown (paint t os).1 r) ↔ ¬ Buries t os := by
  have hreached : Reached t (paint t os).1 := (Reached.refl ht).paint hos
  have hlive_iff : ∀ {e}, e < t.nodes.size → ((paint t os).1.isLive e = true ↔
      t.Standing e) := fun {e} he =>
    (hreached.coherent.isLive_iff (Nat.lt_of_lt_of_le he hreached.size_le)).trans
      (hreached.standing_iff he)
  constructor
  · rintro hshown ⟨before, r, after, rfl, hfails, hlive, hnew, hbefore, message, hmem, hnot⟩
    have hlt := lt_size_of_isElement (hos r (by simp))
    have hs := (ht.isLive_iff hlt).mp hlive
    have hbears := bears_after ht hos hs hnew hfails hbefore
    -- the exception before the failure shows only if its message came again
    obtain ⟨r', hr', he, x, error, ho, rfl⟩ := mem_messages.mp hmem
    have hshows := hshown r' (by simp [hr']) x error ho (he ▸ (hlive_iff hlt).mpr hs)
    rw [he] at hshows
    exact hnot (hbears.shows_iff.mp hshows)
  · intro hburies r hr x error ho hlive
    have hlt := lt_size_of_isElement (hos r hr)
    have hs := (hlive_iff hlt).mp hlive
    have hempty := hclean.bears hr ⟨x, error, ho⟩
    have hmem : error.message ∈ messages r.element os :=
      mem_messages.mpr ⟨r, hr, rfl, x, error, ho, rfl⟩
    by_cases hfirst : (∃ y ∈ os, y.element = r.element ∧ Fails y) →
      t.hasClass r.element "failure" = true
    · have hbears := hempty.paint (.refl ht) hs hlt hos hfirst
      exact hbears.shows_iff.mpr hmem
    · obtain ⟨hfailure, hnew⟩ := Classical.not_imp.mp hfirst
      have hnew : t.hasClass r.element "failure" = false := by simpa using hnew
      obtain ⟨before, y, after, rfl, hye, hfails, hbefore⟩ :=
        exists_first_failure os r.element hfailure
      have hbears :=
        bears_after ht hos (hye.symm ▸ hs) (hye.symm ▸ hnew) hfails (hye.symm ▸ hbefore)
      rw [hye] at hbears
      refine hbears.shows_iff.mpr (by_contra fun hnot => hburies ?_)
      refine ⟨before, y, after, rfl, hfails, ?_, ?_, ?_, error.message, ?_, ?_⟩
      · rw [hye]
        exact ht.isLive_of_standing hs
      · rwa [hye]
      · rwa [hye]
      · rw [messages_append, messages_cons, messages_of_fails hfails, List.nil_append] at hmem
        rw [hye]
        exact (List.mem_append.mp hmem).resolve_right hnot
      · rwa [hye]

/-- **When a second painting changes nothing.** In any tree: exactly if the first one left each
message where it can be found. In a document that shows no message yet: exactly if no failure buries
one. -/
theorem paint_twice_iff (hos : ∀ r ∈ os, t.isElement r.element = true) :
    ((paint (paint t os).1 os).1 = (paint t os).1 ↔ ∀ r ∈ os, Shown (paint t os).1 r) ∧
    (t.Coherent → Unpainted t os →
      ((paint (paint t os).1 os).1 = (paint t os).1 ↔ ¬ Buries t os)) :=
  ⟨paint_again_iff hos, fun ht hclean =>
    (paint_again_iff hos).trans (shown_iff_not_buries ht hos hclean)⟩

namespace Sample

/-- A document with one element, whose text is `x`. -/
def tree : Tree :=
  ⟨#[⟨.document, [1], .top, false⟩, ⟨.element "span" [], [2], .below 0, false⟩,
    ⟨.text "x", [], .below 1, false⟩]⟩

theorem tree_sound : tree.Sound := sound_of_agrees rfl (by decide) (by decide)

/-- An expression of the element failed. -/
def failedExpression : Recorded := ⟨1, .exception "f()" (.thrown "f()" "boom" [])⟩

/-- Another text than the one of the element was found. -/
def failedAssertion : Recorded := ⟨1, .failure "x" "y"⟩

end Sample

theorem Sample.unpainted (os : List Recorded) (hos : ∀ r ∈ os, r.element = 1) :
    Unpainted tree os := by
  intro r hr _ c hc
  rw [hos r hr] at hc
  obtain rfl : c = 2 := by simpa [tree, node] using hc
  rfl

/-- A failure before the exception buries nothing. -/
theorem paint_twice_failure_first :
    (∀ r ∈ [Sample.failedAssertion, Sample.failedExpression],
      Sample.tree.isElement r.element = true) ∧
    Sample.tree.Coherent ∧ Unpainted Sample.tree [Sample.failedAssertion, Sample.failedExpression] ∧
    (paint (paint Sample.tree [Sample.failedAssertion, Sample.failedExpression]).1
      [Sample.failedAssertion, Sample.failedExpression]).1 =
    (paint Sample.tree [Sample.failedAssertion, Sample.failedExpression]).1 := by
  have hos : ∀ r ∈ [Sample.failedAssertion, Sample.failedExpression],
      Sample.tree.isElement r.element = true := by
    decide
  have hclean : Unpainted Sample.tree [Sample.failedAssertion, Sample.failedExpression] :=
    Sample.unpainted _ (by decide)
  refine ⟨hos, Sample.tree_sound.toCoherent, hclean, ?_⟩
  refine ((paint_twice_iff hos).2 Sample.tree_sound.toCoherent hclean).mpr ?_
  rintro ⟨before, r, after, heq, ⟨expected, actual, ho⟩, -, -, -, message, hmem, -⟩
  -- before the failure there is nothing
  cases before with
  | nil => cases hmem
  | cons x before =>
    cases before with
    | nil =>
      have hrest : Sample.failedExpression = r ∧ [] = after := by simpa using (List.cons.inj heq).2
      obtain ⟨rfl, -⟩ := hrest
      cases ho
    | cons y before => simp at heq

/-- A failure after the exception buries its message, and the second painting shows it again. -/
theorem paint_twice_exception_first :
    (paint (paint Sample.tree [Sample.failedExpression, Sample.failedAssertion]).1
      [Sample.failedExpression, Sample.failedAssertion]).1 ≠
    (paint Sample.tree [Sample.failedExpression, Sample.failedAssertion]).1 := by
  have hos : ∀ r ∈ [Sample.failedExpression, Sample.failedAssertion],
      Sample.tree.isElement r.element = true := by
    decide
  have hclean : Unpainted Sample.tree [Sample.failedExpression, Sample.failedAssertion] :=
    Sample.unpainted _ (by decide)
  have hburies : Buries Sample.tree [Sample.failedExpression, Sample.failedAssertion] := by
    refine ⟨[Sample.failedExpression], Sample.failedAssertion, [], rfl, ⟨"x", "y", rfl⟩, by decide,
      rfl, ?_, "boom", ?_, ?_⟩
    · intro x hx _ ⟨expected, actual, ho⟩
      obtain rfl := List.mem_singleton.mp hx
      cases ho
    · exact mem_messages.mpr ⟨_, List.mem_singleton_self _, rfl, _, _, rfl, rfl⟩
    · exact List.not_mem_nil
  intro htwice
  exact (shown_iff_not_buries Sample.tree_sound.toCoherent hos hclean).mp
    ((paint_again_iff hos).mp htwice) hburies

end LiveSpec.Painting
