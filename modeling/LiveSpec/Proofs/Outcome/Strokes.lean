import LiveSpec.Proofs.Outcome.Repainting
import LiveSpec.Proofs.Tree.Overlay

/-!
# What painting does to one element

In a coherent tree the painting of a standing element does not fail. Here is what it leaves there: a
painted failure leaves two children, none of which shows a message (`paintFailure_leads`); a painted
exception adds two children, the first of which shows its message (`paintException_leads`). All
other nodes keep what they contain.
-/

namespace LiveSpec

namespace Markup.Tree

variable {t s : Tree} {n c k : NodeId} {text : String}

/-- An element that contains a text and nothing else. -/
def Spells (t : Tree) (c : NodeId) (text : String) : Prop :=
  ∃ k, (t.node c).children = [k] ∧ (t.node k).content = .text text

/-- An element spells its text. -/
theorem Spells.text_eq (h : t.Spells c text) : t.text c = text := by
  obtain ⟨k, hc, hk⟩ := h
  unfold Tree.text
  rw [textWithin, hc]
  simp [hk, String.join]

/-- What another element is painted with leaves the text. -/
theorem Spells.overlaid (h : t.Spells c text) (ht : t.Coherent) (ho : Overlaid n t s)
    (hn : t.isElement n = true) (hcn : c ≠ n) : s.Spells c text := by
  obtain ⟨k, hc, hk⟩ := h
  have hmem : k ∈ (t.node c).children := by simp [hc]
  have hkn : k ≠ n := by
    rintro rfl
    simp [isElement, hk] at hn
  exact ⟨k, (ho.children (lt_size_of_mem_children hmem) hcn).trans hc,
    (ho.content (ht.child_lt hmem) hkn).trans hk⟩

/-- The classes of a node are in its content. -/
theorem hasClass_congr {n' : NodeId} (h : (s.node n').content = (t.node n).content) (w : String) :
    s.hasClass n' w = t.hasClass n w := by
  unfold hasClass attributes
  rw [h]

/-- An element that shows a message. -/
structure Note (t : Tree) (c : NodeId) (message : String) : Prop where
  hasClass : t.hasClass c "exceptionMessage" = true
  spells : t.Spells c message

/-- What another element is painted with leaves a note. -/
theorem Note.overlaid (h : t.Note c text) (ht : t.Coherent) (ho : Overlaid n t s)
    (hn : t.isElement n = true) (hcn : c ≠ n) : s.Note c text where
  hasClass := by
    have hlt := lt_size_of_isElement (isElement_of_hasClass h.hasClass)
    rw [hasClass_congr (ho.content hlt hcn)]
    exact h.hasClass
  spells := h.spells.overlaid ht ho hn hcn

/-- A new element that hangs loose beside a tree, without a class. -/
structure Sprout (t : Tree) (c : NodeId) (s : Tree) : Prop where
  beyond : t.Beyond s
  new : t.nodes.size ≤ c
  loose : s.Loose c
  only {n : NodeId} : s.IsTop n → t.IsTop n ∨ n = c
  element : s.isElement c = true
  bare (w : String) : s.hasClass c w = false

/-- A new element is a sprout. -/
theorem sprout_newElement (ht : t.Coherent) (name : String) :
    Sprout t t.nodes.size (t.newElement name).2 := by
  have hnode : ((t.newElement name).2.node t.nodes.size).content = .element
      (Text.asciiLower name) [] := by
    show ((t.add _).2.node t.nodes.size).content = _
    rw [node_add, if_pos rfl]
    rfl
  refine ⟨.add ht _, Nat.le_refl _, ht.loose_add _, (isTop_add_iff _).mp, ?_, fun w => ?_⟩
  · simp [isElement, hnode]
  · simp [hasClass, attributes, hnode, Attributes.hasClass, Attributes.classes, Attributes.find?]

/-- A new element with a text is a sprout that spells it. -/
theorem sprout_newElementWithText (ht : t.Coherent) (name text : String) :
    Sprout t t.nodes.size (t.newElementWithText name text).2 ∧
      (t.newElementWithText name text).2.Spells t.nodes.size text := by
  have h := sprout_newElement ht name
  have hempty : ((t.newElement name).2.node t.nodes.size).children = [] := by
    show ((t.add _).2.node t.nodes.size).children = []
    rw [node_add, if_pos rfl]
    rfl
  show Sprout t t.nodes.size ((t.newElement name).2.appendText t.nodes.size text) ∧
    ((t.newElement name).2.appendText t.nodes.size text).Spells t.nodes.size text
  generalize (t.newElement name).2 = s at h hempty
  have hnode := fun m => node_hang_add (m := m) (.text text) (· ++ [s.nodes.size]) h.loose.lt
  have hne : t.nodes.size ≠ s.nodes.size := Nat.ne_of_lt h.loose.lt
  have hself : (s.appendText t.nodes.size text).node t.nodes.size =
      { s.node t.nodes.size with children := [s.nodes.size] } := by
    rw [appendText_eq, hnode, if_neg hne, if_pos rfl, hempty]
    rfl
  have hloose := h.beyond.coherent.loose_add (.text text)
  refine ⟨⟨?_, Nat.le_refl _, ⟨?_, h.loose.ne_document⟩, fun {n} hn => ?_, ?_, fun w => ?_⟩,
    ⟨s.nodes.size, ?_, ?_⟩⟩
  · refine (h.beyond.trans (.add h.beyond.coherent (.text text))).hang hloose h.beyond.size_le
      (Nat.le_refl _) ?_
      (List.perm_append_singleton ..)
    rw [size_add]
    exact Nat.lt_succ_of_lt h.loose.lt
  · exact (isTop_hang_iff _ hloose.lt).mpr ⟨(isTop_add_iff _).mpr (.inl h.loose.toIsTop), hne⟩
  · obtain ⟨htop, hnew⟩ := (isTop_hang_iff _ hloose.lt).mp hn
    exact h.only (((isTop_add_iff _).mp htop).resolve_right hnew)
  · exact (isElement_congr (by rw [hself])).trans h.element
  · exact (hasClass_congr (by rw [hself]) w).trans (h.bare w)
  · rw [hself]
  · rw [appendText_eq, hnode, if_pos rfl]

/-- A new element of one class that hangs loose beside a tree. -/
structure Leaf (t : Tree) (w : String) (c : NodeId) (s : Tree) : Prop where
  beyond : t.Beyond s
  new : t.nodes.size ≤ c
  loose : s.Loose c
  hasClass (v : String) : s.hasClass c v = (v == w)

/-- A sprout with a class is a leaf. -/
theorem Sprout.addClass {w : String} (h : Sprout t c s) (hw : IsWord w) :
    Leaf t w c (s.addClass c w) where
  beyond := h.beyond.addClass h.new w
  new := h.new
  loose := ⟨(modifyAttributes_sameShape _).isTop_iff.mpr h.loose.toIsTop, h.loose.ne_document⟩
  hasClass v := by simp [Tree.hasClass_addClass hw, h.bare, h.element]

/-- A class changes no text. -/
theorem Spells.addClass (h : t.Spells c text) (m : NodeId) (w : String) :
    (t.addClass m w).Spells c text := by
  obtain ⟨k, hc, hk⟩ := h
  refine ⟨k, ((modifyAttributes_sameShape _).children c).trans hc, ?_⟩
  rw [Tree.addClass, node_modifyAttributes]
  split
  · simp [hk, Content.mapAttributes]
  · exact hk

end Markup.Tree

namespace Painting

open Markup Markup.Tree

variable {t s : Tree} {n c trace : NodeId} {w : String} {α β : Type}

/-- An edit that succeeds on a tree, with what holds of its result. -/
def Leads (m : Edit α) (t : Tree) (Q : α → Tree → Prop) : Prop :=
  ∃ a s, m.run t = (.ok a, s) ∧ Q a s

namespace Leads

variable {Q : α → Tree → Prop}

/-- What leads somewhere is followed by what leads on from there. -/
theorem bind {f : α → Edit β} {R : β → Tree → Prop} {m : Edit α} (hm : Leads m t Q)
    (hf : ∀ a s, Q a s → Leads (f a) s R) : Leads (m >>= f) t R := by
  obtain ⟨a, s, hrun, hq⟩ := hm
  obtain ⟨b, s', hrun', hr⟩ := hf a s hq
  exact ⟨b, s', by rw [run_bind, hrun]; exact hrun', hr⟩

theorem pure {a : α} (h : Q a t) : Leads (Pure.pure a) t Q := ⟨a, t, rfl, h⟩

/-- A first step that succeeds. -/
theorem step {β : Type} {m : Edit β} {f : β → Edit α} {b : β} (hrun : m.run t = (.ok b, s))
    (h : Leads (f b) s Q) :
    Leads (m >>= f) t Q := by
  obtain ⟨a, s', hrun', hq⟩ := h
  exact ⟨a, s', by rw [run_bind, hrun]; exact hrun', hq⟩

/-! ## Building beside the tree -/

/-- An element with a class and a text is a leaf that spells the text. -/
theorem textElement {name text : String} (ht : t.Coherent) (hw : IsWord w) :
    Leads (textElement name w text) t fun c s => Leaf t w c s ∧ s.Spells c text := by
  obtain ⟨hsprout, hspells⟩ := sprout_newElementWithText ht name text
  exact ⟨t.nodes.size, _, rfl, hsprout.addClass hw, hspells.addClass _ w⟩

/-- A loose node that is hung into another one beside the tree. -/
theorem appendLoose (h : t.Beyond s) (hc : s.Loose c) (hnew : t.nodes.size ≤ c)
    (htrace : s.Loose trace) (hnewTrace : t.nodes.size ≤ trace) (hne : trace ≠ c) :
    Leads (Painting.attempt fun s => s.appendChild trace c) s fun _ s' =>
      t.Beyond s' ∧ s'.Loose trace ∧ (s'.node trace).content = (s.node trace).content := by
  have hlive := h.coherent.isLive_of_standing htrace.toIsTop.standing
  refine ⟨(), _, run_attempt_ok (appendChild_eq hc.toIsTop hlive), ?_, ⟨?_, htrace.ne_document⟩, ?_⟩
  · exact h.hang hc hnew hnewTrace htrace.lt (List.perm_append_singleton ..)
  · exact (isTop_hang_iff _ hc.lt).mpr ⟨htrace.toIsTop, hne⟩
  · rw [node_hang]

/-- Frames are painted into a loose trace, beyond the tree. -/
theorem paintFrames {frames : List String} (h : t.Beyond s) (htrace : s.Loose trace)
    (hnew : t.nodes.size ≤ trace) :
    Leads (paintFrames trace frames) s fun _ s' =>
      t.Beyond s' ∧ s'.Loose trace ∧ (s'.node trace).content = (s.node trace).content := by
  induction frames generalizing s with
  | nil => exact .pure ⟨h, htrace, rfl⟩
  | cons frame frames ih =>
    refine .bind (textElement h.coherent (isWord_of (by cbv))) ?_
    rintro entry s₁ ⟨hentry, -⟩
    have hold := hentry.beyond.node htrace.lt
    have htrace₁ : s₁.Loose trace := ⟨hentry.beyond.isTop htrace.toIsTop, htrace.ne_document⟩
    have hne : trace ≠ entry := Nat.ne_of_lt (Nat.lt_of_lt_of_le htrace.lt hentry.new)
    have hnewEntry : t.nodes.size ≤ entry := Nat.le_trans h.size_le hentry.new
    refine .bind (appendLoose (h.trans hentry.beyond) hentry.loose hnewEntry htrace₁ hnew hne) ?_
    rintro - s₂ ⟨h₂, htrace₂, hcontent₂⟩
    obtain ⟨u, s₃, hrun, h₃, htrace₃, hcontent₃⟩ := ih h₂ htrace₂
    exact ⟨u, s₃, hrun, h₃, htrace₃, hcontent₃.trans (hcontent₂.trans (congrArg Node.content hold))⟩

end Leads

/-! ## Hanging into the element -/

/-- What painting did to one element: a class more, and other children. -/
structure Stroke (n : NodeId) (w : String) (t s : Tree) : Prop extends Overlaid n t s where
  element : s.isElement n = t.isElement n
  hasClass (v : String) : s.hasClass n v = (t.hasClass n v || v == w)

/-- A class is a stroke. -/
theorem Stroke.of_addClass (ht : t.Coherent) (hn : t.isElement n = true) (hw : IsWord w) :
    Stroke n w t (t.addClass n w) where
  toOverlaid := .of_addClass ht w
  element := (modifyAttributes_sameShape _).isElement n
  hasClass v := by simp [Tree.hasClass_addClass hw, hn]

/-- What is done beyond the tree after a stroke is of the stroke. -/
theorem Stroke.beyond {s' : Tree} (h : Stroke n w t s) (hn : n < t.nodes.size) (hs : s.Beyond s') :
    Stroke n w t s' := by
  have hcontent := congrArg Node.content (hs.node (Nat.lt_of_lt_of_le hn h.size_le))
  exact ⟨h.toOverlaid.trans (.of_beyond h.coherent hs), (isElement_congr hcontent).trans h.element,
    fun v => (hasClass_congr hcontent v).trans (h.hasClass v)⟩

/-- Hanging a node that was built beside the tree into the element. -/
theorem Stroke.hang {s' : Tree} {f : List NodeId → List NodeId} (h : Stroke n w t s)
    (hn : t.isElement n = true) (hs : t.Standing n) (hbeyond : s.Beyond s') (hc : s'.Loose c)
    (hnew : s.nodes.size ≤ c) (hput : (f (s.node n).children).Perm (c :: (s.node n).children)) :
    s'.isLive n = true ∧ Stroke n w t (s'.hang c n f) ∧ Overlaid n s' (s'.hang c n f) ∧
      ((s'.hang c n f).node n).children = f (s.node n).children := by
  have hlt := lt_size_of_isElement hn
  have hlt' : n < s.nodes.size := Nat.lt_of_lt_of_le hlt h.size_le
  have hstands : s.Standing n := (h.standing_iff hlt).mpr hs
  have hstands' : s'.Standing n := (hbeyond.standing_iff h.coherent hlt').mpr hstands
  have hchildren : (s'.node n).children = (s.node n).children :=
    congrArg Node.children (hbeyond.node hlt')
  have hover : Overlaid n s' (s'.hang c n f) :=
    .of_hang hbeyond.coherent hc hstands' (hbeyond.not_under hstands hnew hc.toIsTop)
      (by rwa [hchildren])
  have hcontent : ((s'.hang c n f).node n).content = (s'.node n).content := by rw [node_hang]
  have hstroke := h.beyond hlt hbeyond
  refine ⟨hbeyond.coherent.isLive_of_standing hstands',
    ⟨hstroke.toOverlaid.trans hover, ?_, fun v => ?_⟩, hover, ?_⟩
  · exact (isElement_congr hcontent).trans hstroke.element
  · exact (hasClass_congr hcontent v).trans (hstroke.hasClass v)
  · rw [children_hang _ (Nat.lt_of_lt_of_le hlt' hbeyond.size_le), if_pos rfl, hchildren]

/-- Moving the children of the element into a node beside the tree, and hanging that one in. -/
theorem Stroke.wrap {d : NodeId} {v : String} (h : Stroke n w t s) (hn : t.isElement n = true)
    (hs : t.Standing n) {s' : Tree} (hd : Leaf s v d s') :
    ∃ s₁, s'.moveChildren n d = .ok s₁ ∧ s₁.IsTop d ∧ s₁.isLive n = true ∧
      Stroke n w t (s₁.hang d n (· ++ [d])) ∧ ((s₁.hang d n (· ++ [d])).node n).children = [d] ∧
      ((s₁.hang d n (· ++ [d])).node d).content = (s'.node d).content := by
  have hlt := lt_size_of_isElement hn
  have hlt' : n < s.nodes.size := Nat.lt_of_lt_of_le hlt h.size_le
  have hstands : s.Standing n := (h.standing_iff hlt).mpr hs
  have hstands' : s'.Standing n := (hd.beyond.standing_iff h.coherent hlt').mpr hstands
  have hne : n ≠ d := Nat.ne_of_lt (Nat.lt_of_lt_of_le hlt' hd.new)
  have hcoherent := hd.beyond.coherent
  obtain ⟨s₁, hmove, hmoved⟩ := hcoherent.moveChildren_eq hstands' hd.loose.toIsTop hne
  have hcoherent₁ := hmoved.coherent hcoherent hstands' hd.loose.toIsTop hne
  have hiff₁ : ∀ {x}, s₁.Standing x ↔ s'.Standing x :=
    hmoved.standing_iff hcoherent hstands' hd.loose.toIsTop hne
  have hloose₁ : s₁.Loose d :=
    ⟨(hmoved.isTop_iff hcoherent).mpr hd.loose.toIsTop, hd.loose.ne_document⟩
  -- the element still lies below an old top node, hence not below the new one
  have hnot : ¬ s₁.Under d n := by
    obtain ⟨r, hr, hu⟩ := hstands
    have hrd : r ≠ d := Nat.ne_of_lt (Nat.lt_of_lt_of_le hr.lt hd.new)
    have hr₁ := (hmoved.isTop_iff hcoherent).mpr (hd.beyond.isTop hr)
    have hu₁ := hmoved.under hcoherent hstands' hne (hd.beyond.under hu) .self
    exact hcoherent₁.not_under_of_isTop hr₁ hloose₁.toIsTop hrd hu₁
  have hempty : (s₁.node n).children = [] := by
    rw [hmoved.node]
    exact if_pos rfl
  have hover :=
    Overlaid.of_hang (f := (· ++ [d])) hcoherent₁ hloose₁ (hiff₁.mpr hstands') hnot (by simp)
  have hcontent :
      ∀ m, ((s₁.hang d n (· ++ [d])).node m).content = (s'.node m).content := fun m => by
    rw [node_hang, hmoved.node]
  have hstroke := h.beyond hlt hd.beyond
  refine ⟨s₁, hmove, hloose₁.toIsTop, hcoherent₁.isLive_of_standing (hiff₁.mpr hstands'),
    ⟨?_, ?_, fun u => ?_⟩, ?_,
    hcontent d⟩
  · refine h.toOverlaid.trans ⟨hover.coherent, ?_, fun {m} hm hmn => ?_, fun {m} hm hmn => ?_,
      fun {x} hx => ?_⟩
    · rw [size_hang, hmoved.size]
      exact hd.beyond.size_le
    · rw [hcontent, hd.beyond.node hm]
    · have hmd : m ≠ d := Nat.ne_of_lt (Nat.lt_of_lt_of_le hm hd.new)
      have hm₁ : m < s₁.nodes.size := hmoved.size.symm ▸ Nat.lt_of_lt_of_le hm hd.beyond.size_le
      rw [hover.children hm₁ hmn, hmoved.node]
      show (if m = n then [] else if m = d then _ else (s'.node m).children) = _
      rw [if_neg hmn, if_neg hmd, hd.beyond.node hm]
    · have hx₁ : x < s₁.nodes.size := hmoved.size.symm ▸ Nat.lt_of_lt_of_le hx hd.beyond.size_le
      exact (hover.standing_iff hx₁).trans (hiff₁.trans (hd.beyond.standing_iff h.coherent hx))
  · exact (isElement_congr (hcontent n)).trans hstroke.element
  · exact (hasClass_congr (hcontent n) u).trans (hstroke.hasClass u)
  · rw [children_hang _ (hcoherent₁.standing_lt (hiff₁.mpr hstands')), if_pos rfl, hempty]
    rfl

/-- An element of a class that shows no message. -/
theorem not_message {v : String} (h : ∀ u, s.hasClass c u = (u == v))
    (hv : v ≠ "exceptionMessage") :
    s.hasClass c "exceptionMessage" = false := by
  rw [h]
  simpa using Ne.symm hv

section

variable (ht : t.Coherent) (hs : t.Standing n) (he : t.isElement n = true)
include ht hs he

/-- A painted exception adds its message and the frames. -/
theorem paintException_leads (expression : String) {error : EvaluationError}
    (hshows : showsMessage t (t.elementsOf n) error.message = false) :
    Leads (paintException n expression error) t fun _ s => Stroke n "exception" t s ∧
      ∃ a b, (s.node n).children = (t.node n).children ++ [a, b] ∧ t.nodes.size ≤ a ∧
        s.Note a error.message ∧ s.hasClass b "exceptionMessage" = false := by
  have hn := lt_size_of_isElement he
  have hlive := ht.isLive_of_standing hs
  refine .step (b := t) rfl (.step (b := t.elementsOf n) (s := t) ?_ ?_)
  · exact congrArg (·, t) (Tree.childElements_of_isLive hlive)
  rw [if_neg (by simp [hshows])]
  -- the class
  refine .step (b := ()) rfl ?_
  have h₁ : Stroke n "exception" t (t.addClass n "exception") :=
    .of_addClass ht he (isWord_of (by cbv))
  have hchildren₁ : ((t.addClass n "exception").node n).children = (t.node n).children :=
    (modifyAttributes_sameShape _).children n
  show Leads _ (t.addClass n "exception") _
  generalize t.addClass n "exception" = t₁ at h₁ hchildren₁ ⊢
  have hn₁ : n < t₁.nodes.size := Nat.lt_of_lt_of_le hn h₁.size_le
  -- the message
  refine .bind (.textElement h₁.coherent (isWord_of (by cbv))) ?_
  rintro a t₂ ⟨ha, hspells⟩
  have hhang₃ :=
    h₁.hang (f := (· ++ [a])) he hs ha.beyond ha.loose ha.new (List.perm_append_singleton ..)
  refine .step (run_attempt_ok (appendChild_eq ha.loose.toIsTop hhang₃.1)) ?_
  generalize t₂.hang a n (· ++ [a]) = t₃ at hhang₃ ⊢
  obtain ⟨-, h₃, hover₃, hchildren₃⟩ := hhang₃
  -- the frames
  refine .step (b := t₃.nodes.size) rfl (.step (b := ()) rfl ?_)
  have hb : Leaf t₃ "stackTrace" t₃.nodes.size
      ((t₃.newElement "div").2.addClass t₃.nodes.size "stackTrace") :=
    (sprout_newElement h₃.coherent "div").addClass (isWord_of (by cbv))
  show Leads _ ((t₃.newElement "div").2.addClass t₃.nodes.size "stackTrace") _
  generalize (t₃.newElement "div").2.addClass t₃.nodes.size "stackTrace" = t₄ at hb ⊢
  obtain ⟨hline, -⟩ :=
    sprout_newElementWithText hb.beyond.coherent "p" ("While evaluating expression: " ++ expression)
  refine .step (b := t₄.nodes.size) rfl ?_
  show Leads _ (t₄.newElementWithText "p" ("While evaluating expression: " ++ expression)).2 _
  generalize (t₄.newElementWithText "p" ("While evaluating expression: " ++ expression)).2 =
    t₅ at hline ⊢
  have hlt : t₃.nodes.size < t₄.nodes.size := hb.loose.lt
  have hloose₅ : t₅.Loose t₃.nodes.size :=
    ⟨hline.beyond.isTop hb.loose.toIsTop, hb.loose.ne_document⟩
  refine .bind (.appendLoose (hb.beyond.trans hline.beyond) hline.loose hb.beyond.size_le hloose₅
    (Nat.le_refl _)
    (Nat.ne_of_lt hlt)) ?_
  rintro - t₆ ⟨h₆, hloose₆, hcontent₆⟩
  refine .bind (.paintFrames h₆ hloose₆ (Nat.le_refl _)) ?_
  rintro - t₇ ⟨h₇, hloose₇, hcontent₇⟩
  -- both are in place
  have hhang₈ := h₃.hang (f := (· ++ [t₃.nodes.size])) he hs h₇ hloose₇ (Nat.le_refl _)
    (List.perm_append_singleton ..)
  obtain ⟨hlive₇, h₈, hover₈, hchildren₈⟩ := hhang₈
  refine ⟨(), _, run_attempt_ok (appendChild_eq hloose₇.toIsTop hlive₇), h₈, a, t₃.nodes.size,
    ?_, ?_, ?_, ?_⟩
  · rw [hchildren₈, hchildren₃, hchildren₁]
    simp
  · exact Nat.le_trans h₁.size_le ha.new
  · have hne : a ≠ n := Nat.ne_of_gt (Nat.lt_of_lt_of_le hn₁ ha.new)
    have he₂ : t₂.isElement n = true := (h₁.beyond hn ha.beyond).element.trans he
    have hnote : t₂.Note a error.message := ⟨by rw [ha.hasClass]; rfl, hspells⟩
    have hover := hover₃.trans ((Overlaid.of_beyond h₃.coherent h₇).trans hover₈)
    exact hnote.overlaid ha.beyond.coherent hover he₂ hne
  · have hcontent₅ := congrArg Node.content (hline.beyond.node hb.loose.lt)
    have hcontent₈ : ((t₇.hang t₃.nodes.size n (· ++ [t₃.nodes.size])).node t₃.nodes.size).content =
        (t₄.node t₃.nodes.size).content := by
      rw [node_hang]
      exact hcontent₇.trans (hcontent₆.trans hcontent₅)
    rw [hasClass_congr hcontent₈]
    exact not_message hb.hasClass (by decide)

/-- A painted failure leaves what was expected and what was found. -/
theorem paintFailure_leads (actual : String) (hnew : t.hasClass n "failure" = false) :
    Leads (paintFailure n actual) t fun _ s => Stroke n "failure" t s ∧
      ∀ c ∈ (s.node n).children, s.hasClass c "exceptionMessage" = false := by
  have hn := lt_size_of_isElement he
  refine .step (b := t) rfl ?_
  rw [if_neg (by simp [hnew])]
  refine .step (b := ()) rfl ?_
  have h₁ : Stroke n "failure" t (t.addClass n "failure") := .of_addClass ht he (isWord_of (by cbv))
  show Leads _ (t.addClass n "failure") _
  generalize t.addClass n "failure" = t₁ at h₁ ⊢
  have hlive₁ := h₁.coherent.isLive_of_standing ((h₁.standing_iff hn).mpr hs)
  refine .step (run_ensureLive hlive₁) ?_
  -- what was expected
  refine .step (b := t₁.nodes.size) rfl (.step (b := ()) rfl ?_)
  have hd : Leaf t₁ "expected" t₁.nodes.size
      ((t₁.newElement "del").2.addClass t₁.nodes.size "expected") :=
    (sprout_newElement h₁.coherent "del").addClass (isWord_of (by cbv))
  show Leads _ ((t₁.newElement "del").2.addClass t₁.nodes.size "expected") _
  generalize (t₁.newElement "del").2.addClass t₁.nodes.size "expected" = t₂ at hd ⊢
  obtain ⟨t₃, hmove, htop₃, hlive₃, hwrap⟩ := h₁.wrap he hs hd
  refine .step (run_attempt_ok hmove) (.step (run_attempt_ok (appendChild_eq htop₃ hlive₃)) ?_)
  generalize t₃.hang t₁.nodes.size n (· ++ [t₁.nodes.size]) = t₄ at hwrap ⊢
  obtain ⟨h₄, hchildren₄, hcontent₄⟩ := hwrap
  -- what was found
  refine .bind (.textElement h₄.coherent (isWord_of (by cbv))) ?_
  rintro i t₅ ⟨hi, -⟩
  have hput : (putAfter t₁.nodes.size i (t₄.node n).children).Perm (i :: (t₄.node n).children) := by
    rw [hchildren₄]
    simpa [putAfter] using List.Perm.swap i t₁.nodes.size []
  obtain ⟨-, h₆, -, hchildren₆⟩ := h₄.hang he hs hi.beyond hi.loose hi.new hput
  have hn₄ : n < t₄.nodes.size := Nat.lt_of_lt_of_le hn h₄.size_le
  have hs₅ : t₅.Standing n := ((h₄.beyond hn hi.beyond).standing_iff hn).mpr hs
  have hmem₄ : t₁.nodes.size ∈ (t₄.node n).children := by simp [hchildren₄]
  have hmem₅ : t₁.nodes.size ∈ (t₅.node n).children := by rwa [hi.beyond.node hn₄]
  have hlive₅ := hi.beyond.coherent.isLive_of_standing (hs₅.child hmem₅)
  have hup₅ := hi.beyond.coherent.above_of_mem hs₅ hmem₅
  refine ⟨(), _, run_attempt_ok (insertAfter_eq hi.loose.toIsTop hlive₅ hup₅), h₆, fun c hc => ?_⟩
  rw [hchildren₆, hchildren₄] at hc
  have hsame : ∀ m, ((t₅.hang i n (putAfter t₁.nodes.size i)).node m).content =
      (t₅.node m).content := fun m => by
    rw [node_hang]
  rw [hasClass_congr (hsame c)]
  have hcases : c = t₁.nodes.size ∨ c = i := by simpa [putAfter] using hc
  rcases hcases with rfl | rfl
  · have hold : (t₅.node t₁.nodes.size).content = (t₂.node t₁.nodes.size).content :=
      (congrArg Node.content (hi.beyond.node (h₄.coherent.child_lt hmem₄))).trans hcontent₄
    rw [hasClass_congr hold]
    exact not_message hd.hasClass (by decide)
  · exact not_message hi.hasClass (by decide)

end

/-- The painting of a failure on an element that was cut off stops after the class. -/
theorem run_paintFailure_of_stale {actual : String} (ht : t.Coherent) (he : t.isElement n = true)
    (hs : ¬ t.Standing n) (hnew : t.hasClass n "failure" = false) :
    ((paintFailure n actual).run t).2 = t.addClass n "failure" := by
  have hshape : t.SameShape (t.addClass n "failure") := modifyAttributes_sameShape _
  have hstale : (t.addClass n "failure").isLive n = false := by
    have hn : n < (t.addClass n "failure").nodes.size := hshape.size.symm ▸ lt_size_of_isElement he
    refine Bool.eq_false_iff.mpr fun hlive => hs ?_
    exact hshape.standing_iff.mp (((hshape.coherent ht).isLive_iff hn).mp hlive)
  unfold paintFailure
  rw [run_get_bind, if_neg (by simp [hnew]), run_bind]
  show ((ensureLive n >>= _).run (t.addClass n "failure")).2 = _
  rw [run_bind, run_ensureLive_of_stale hstale]

/-! ## One outcome -/

/-- An outcome that is a failure. -/
def Fails (r : Recorded) : Prop := ∃ expected actual, r.outcome = .failure expected actual

/-- What the painting of an outcome can do to a tree. -/
inductive Painted (t : Tree) (r : Recorded) : Tree → Prop
  /-- The outcome shows already, or its element cannot be looked into. -/
  | again : Marked t r → Shown t r → Painted t r t
  /-- A class is all that the outcome adds. -/
  | mark {w : String} {s : Tree} : (∀ x error, r.outcome ≠ .exception x error) →
    (w = "failure" → Fails r) →
      (Fails r → ¬ t.Standing r.element) → w ≠ "exceptionMessage" → Stroke r.element w t s →
      (s.node r.element).children = (t.node r.element).children → Painted t r s
  /-- The content of the element was moved away. -/
  | failure {s : Tree} : Fails r → t.hasClass r.element "failure" = false →
    Stroke r.element "failure" t s →
      (∀ c ∈ (s.node r.element).children, s.hasClass c "exceptionMessage" = false) → Painted t r s
  /-- A message was put behind the content of the element. -/
  | exception {expression : String} {error : EvaluationError} {s : Tree} {a b : NodeId} :
      r.outcome = .exception expression error → Stroke r.element "exception" t s →
      (s.node r.element).children = (t.node r.element).children ++ [a, b] → t.nodes.size ≤ a →
      s.Note a error.message → s.hasClass b "exceptionMessage" = false → Painted t r s

/-- Painting an outcome at an element of the tree paints it as it is told. -/
theorem painted_paintOne {r : Recorded} (ht : t.Coherent) (he : t.isElement r.element = true) :
    Painted t r ((paintOne r).run t).2 := by
  have hchildren : ∀ w : String, ((t.addClass r.element w).node r.element).children =
      (t.node r.element).children :=
    fun w => (modifyAttributes_sameShape _).children r.element
  have hmark : ∀ {w : String}, IsWord w → w ≠ "failure" → w ≠ "exceptionMessage" →
      (∀ x error, r.outcome ≠ .exception x error) → ¬ Fails r →
      Painted t r (t.addClass r.element w) :=
    fun {w} hw hfailure hmessage hexception hnot =>
      .mark hexception (fun h => absurd h hfailure) (fun h => absurd h hnot) hmessage
        (.of_addClass ht he hw) (hchildren w)
  cases ho : r.outcome with
  | success =>
    simp only [paintOne, ho]
    exact hmark (isWord_of (by cbv)) (by decide) (by decide) (by simp [ho]) (by simp [Fails, ho])
  | missingRow expected =>
    simp only [paintOne, ho]
    exact hmark (isWord_of (by cbv)) (by decide) (by decide) (by simp [ho]) (by simp [Fails, ho])
  | surplusRow actual =>
    simp only [paintOne, ho]
    exact hmark (isWord_of (by cbv)) (by decide) (by decide) (by simp [ho]) (by simp [Fails, ho])
  | failure expected actual =>
    have hfails : Fails r := ⟨expected, actual, ho⟩
    simp only [paintOne, ho]
    cases hnew : t.hasClass r.element "failure" with
    | true =>
      rw [run_paintFailure_of_hasClass hnew]
      exact .again (fun w hw => by simp [ho, marker] at hw; exact hw ▸ hnew)
        (fun x error h => by simp [ho] at h)
    | false =>
      by_cases hs : t.Standing r.element
      · obtain ⟨u, s, hrun, hstroke, hclean⟩ := paintFailure_leads ht hs he actual hnew
        rw [hrun]
        exact .failure hfails hnew hstroke hclean
      · rw [run_paintFailure_of_stale ht he hs hnew]
        exact .mark (by simp [ho]) (fun _ => hfails) (fun _ => hs) (by decide)
          (.of_addClass ht he (isWord_of (by cbv)))
          (hchildren _)
  | exception expression error =>
    have hmarked : Marked t r := fun w hw => by simp [ho, marker] at hw
    simp only [paintOne, ho]
    cases hlive : t.isLive r.element with
    | false =>
      rw [run_paintException_of_stale hlive]
      exact .again hmarked fun x error h hl => by simp [hlive] at hl
    | true =>
      cases hshows : showsMessage t (t.elementsOf r.element) error.message with
      | true =>
        rw [run_paintException_of_shows hlive hshows]
        refine .again hmarked fun x error' h _ => ?_
        rw [ho] at h
        cases h
        exact hshows
      | false =>
        have hs := (ht.isLive_iff (lt_size_of_isElement he)).mp hlive
        obtain ⟨u, s, hrun, hstroke, a, b, hab, hnew, hnote, hb⟩ :=
          paintException_leads ht hs he expression hshows
        rw [hrun]
        exact .exception ho hstroke hab hnew hnote hb

/-- Whatever the outcome, only its element is painted over. -/
theorem Painted.overlaid {r : Recorded} (ht : t.Coherent) (h : Painted t r s) :
    Overlaid r.element t s := by
  cases h with
  | again => exact .refl ht
  | mark _ _ _ _ hstroke _ => exact hstroke.toOverlaid
  | failure _ _ hstroke _ => exact hstroke.toOverlaid
  | exception _ hstroke _ _ _ _ => exact hstroke.toOverlaid

end Painting
end LiveSpec
