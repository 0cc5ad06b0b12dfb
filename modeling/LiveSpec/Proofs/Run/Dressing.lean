import LiveSpec.Proofs.Run.Prepared
import LiveSpec.Proofs.Tree.Staying

/-!
# What the head is completed with

Completing the head of a document adds style sheets and scripts at its end, and makes the head first
where it is missing. The names of what is added have no marks; all nodes that were there keep their
contents and, but for the head and the element that it is made in, their children (`Tree.Dressed`).
A document with an outermost element can always be completed so (`Engine.installHead_dressed`), and
one without is refused (`Engine.installHead_rootless`).
-/

namespace LiveSpec

open Markup (NodeId Tree TreeError Content Attributes splitName)
open Markup.Tree

namespace Markup

/-- Nothing in it is named with a mark. -/
def Content.Bland : Content → Prop
  | .element name as => (splitName name).1 = none ∧ ∀ a ∈ as, (splitName a.1).1 = none
  | _ => True

/-- Putting an attribute brings in no name but its own. -/
theorem Attributes.mem_put {name value : String} {as : Attributes} {a : String × String}
    (h : a ∈ as.put name value) :
    a.1 = name ∨ ∃ b ∈ as, a.1 = b.1 := by
  induction as with
  | nil => exact .inl (congrArg Prod.fst (List.mem_singleton.mp h))
  | cons b as ih =>
    unfold put at h
    split at h
    · rcases List.mem_cons.mp h with rfl | h
      · exact .inr ⟨b, List.mem_cons_self, rfl⟩
      · exact .inr ⟨a, List.mem_cons_of_mem _ h, rfl⟩
    · rcases List.mem_cons.mp h with rfl | h
      · exact .inr ⟨_, List.mem_cons_self, rfl⟩
      · rcases ih h with he | ⟨c, hc, he⟩
        · exact .inl he
        · exact .inr ⟨c, List.mem_cons_of_mem _ hc, he⟩

/-- Putting an attribute without a mark brings in no mark. -/
theorem Content.Bland.put {content : Content} (h : content.Bland) {name : String}
    (hname : (splitName name).1 = none) (value : String) :
    (content.mapAttributes (Attributes.put name value)).Bland := by
  cases content with
  | element tag as =>
    refine ⟨h.1, fun a ha => ?_⟩
    rcases Attributes.mem_put ha with he | ⟨b, hb, he⟩
    · rw [he, hname]
    · rw [he, h.2 b hb]
  | _ => trivial

namespace Tree

variable {t s s' : Tree} {n m p r c : NodeId}

/-- The outermost element, if it has no head. -/
def Headless (t : Tree) (n : NodeId) : Prop :=
  t.root = .ok n ∧ (t.elementsOf n).find? (fun c => t.isNamed c "head") = none

/-- The head. -/
def IsHead (t : Tree) (n : NodeId) : Prop :=
  ∃ r, t.root = .ok r ∧ (t.elementsOf r).find? (fun c => t.isNamed c "head") = some n

/-- A document with a head is not without one. -/
theorem IsHead.not_headless (h : t.IsHead n) : ¬ t.Headless m := fun ⟨hroot, hnone⟩ => by
  obtain ⟨r, hr, hfound⟩ := h
  cases hroot.symm.trans hr
  cases hnone.symm.trans hfound

/-- There is one head. -/
theorem IsHead.unique (h : t.IsHead n) (hm : t.IsHead m) : m = n := by
  obtain ⟨r, hr, hfound⟩ := h
  obtain ⟨r', hr', hfound'⟩ := hm
  cases hr.symm.trans hr'
  exact Option.some.inj (hfound'.symm.trans hfound)

/-- The head stands. -/
theorem IsHead.standing (h : t.IsHead n) (ht : t.Coherent) : t.Standing n := by
  obtain ⟨r, hr, hfound⟩ := h
  exact (ht.depth_root hr).standing.child (mem_elementsOf.mp (List.mem_of_find?_eq_some hfound)).1

/-- A tree whose head was completed: what was put in has no marks and stands at the end of the head,
or is the head. -/
structure Dressed (t s : Tree) : Prop where
  coherent : s.Coherent
  size_le : t.nodes.size ≤ s.nodes.size
  content {n : NodeId} : n < t.nodes.size → (s.node n).content = (t.node n).content
  link {n : NodeId} : n < t.nodes.size → (s.node n).link = (t.node n).link
  children {n : NodeId} : n < t.nodes.size → ∃ before after,
    (s.node n).children = before ++ (t.node n).children ++ after ∧
      (∀ m ∈ before, t.nodes.size ≤ m ∧ t.Headless n) ∧ ∀ m ∈ after, t.nodes.size ≤ m ∧ t.IsHead n
  inside {n : NodeId} : t.nodes.size ≤ n → ∀ m ∈ (s.node n).children, t.nodes.size ≤ m
  bland {n : NodeId} : t.nodes.size ≤ n → (s.node n).content.Bland

/-- A tree in which one node got new children at the end, and all else stays. -/
structure Extended (t s : Tree) (n : NodeId) : Prop where
  stays {m : NodeId} : t.Standing m → m ≠ n → t.Stays s m
  standing : s.Standing n
  content : (s.node n).content = (t.node n).content
  children : ∃ added, (s.node n).children = (t.node n).children ++ added ∧
    ∀ m ∈ added, t.nodes.size ≤ m

namespace Dressed

/-- Nothing was put in yet. -/
theorem refl (ht : t.Coherent) : t.Dressed t where
  coherent := ht
  size_le := Nat.le_refl _
  content _ := rfl
  link _ := rfl
  children _ := ⟨[], [], by simp, nofun, nofun⟩
  inside hn m hm := by
    rw [node_of_size_le _ _ hn] at hm
    cases hm
  bland hn := by
    rw [node_of_size_le _ _ hn]
    trivial

variable (h : t.Dressed s)
include h

theorem isElement (hn : n < t.nodes.size) : s.isElement n = t.isElement n :=
  isElement_congr (h.content hn)

theorem name (hn : n < t.nodes.size) : s.name n = t.name n := name_congr (h.content hn)

/-- A top stays a top. -/
theorem isTop (hn : t.IsTop n) : s.IsTop n :=
  ⟨Nat.lt_of_lt_of_le hn.lt h.size_le, (h.link hn.lt).trans hn.link⟩

/-- No node loses a child. -/
theorem subset (n : NodeId) : (t.node n).children ⊆ (s.node n).children := fun m hm => by
  obtain ⟨before, after, heq, -, -⟩ := h.children (lt_size_of_mem_children hm)
  rw [heq]
  exact List.mem_append_left _ (List.mem_append_right _ hm)

/-- Every node keeps its depth, as children come at the end only. -/
theorem depth {d : Nat} (hn : t.Depth n d) : s.Depth n d := by
  induction hn with
  | top hr => exact .top (h.isTop hr)
  | child _ hc ih => exact .child ih (h.subset _ hc)

/-- What stood stands. -/
theorem standing (hn : t.Standing n) : s.Standing n :=
  have ⟨_, hd⟩ := hn.depth
  (h.depth hd).standing

/-- Completing the head takes nothing away. -/
theorem onward : t.Onward s where
  size_le := h.size_le
  content := h.content
  link hn := .inl (h.link hn)
  children {p c} hp hc hmem := by
    obtain ⟨before, after, heq, hbefore, hafter⟩ := h.children hp
    rw [heq] at hmem
    rcases List.mem_append.mp hmem with hmem | hmem
    · exact (List.mem_append.mp hmem).resolve_left fun hm =>
        absurd hc (Nat.not_lt.mpr (hbefore c hm).1)
    · exact absurd hc (Nat.not_lt.mpr (hafter c hmem).1)

/-- A head that is there gets more at its end, and nothing else gets anything. -/
theorem children_eq (hhead : t.IsHead r) (hn : n < t.nodes.size) : ∃ added,
    (s.node n).children = (t.node n).children ++ added ∧ (∀ m ∈ added, t.nodes.size ≤ m) ∧
    (n ≠ r → added = []) := by
  obtain ⟨before, after, heq, hbefore, hafter⟩ := h.children hn
  have hnobefore : before = [] := List.eq_nil_iff_forall_not_mem.mpr fun m hm =>
    hhead.not_headless (hbefore m hm).2
  refine ⟨after, by rw [heq, hnobefore, List.nil_append], fun m hm => (hafter m hm).1,
    fun hne => ?_⟩
  exact List.eq_nil_iff_forall_not_mem.mpr fun m hm => hne (hhead.unique (hafter m hm).2)

/-- All but the head stays. -/
theorem stays (ht : t.Coherent) (hhead : t.IsHead r) (hn : t.Standing n) (hne : n ≠ r) :
    t.Stays s n := by
  obtain ⟨added, heq, -, hnone⟩ := h.children_eq hhead (ht.standing_lt hn)
  refine ⟨h.standing hn, h.content (ht.standing_lt hn), ?_⟩
  rw [heq, hnone hne, List.append_nil]

/-- Where there is a head, all that was put in is new children of it. -/
theorem extended (ht : t.Coherent) (hhead : t.IsHead r) : t.Extended s r := by
  have hlt := ht.standing_lt (hhead.standing ht)
  obtain ⟨added, heq, hnew, -⟩ := h.children_eq hhead hlt
  exact ⟨fun hn hne => h.stays ht hhead hn hne, h.standing (hhead.standing ht), h.content hlt,
    added, heq, hnew⟩

/-! ## Steps -/

/-- A new node without a mark hangs nowhere yet. -/
theorem add (content : Content) (hb : content.Bland) : t.Dressed (s.add content).2 where
  coherent := h.coherent.add content
  size_le := by
    rw [size_add]
    exact Nat.le_succ_of_le h.size_le
  content hn := by
    rw [node_add_of_lt content (Nat.lt_of_lt_of_le hn h.size_le)]
    exact h.content hn
  link hn := by
    rw [node_add_of_lt content (Nat.lt_of_lt_of_le hn h.size_le)]
    exact h.link hn
  children hn := by
    rw [children_add]
    exact h.children hn
  inside hn := by
    rw [children_add]
    exact h.inside hn
  bland {n} hn := by
    rw [node_add]
    split
    · exact hb
    · exact h.bland hn

/-- An attribute of a new node is set. -/
theorem setAttribute (hm : t.nodes.size ≤ m) (name value : String)
    (hname : (splitName name).1 = none) :
    t.Dressed (s.setAttribute m name value) := by
  have hshape : s.SameShape (s.setAttribute m name value) := modifyAttributes_sameShape _
  have hold :
      ∀ {n}, n < t.nodes.size → (s.setAttribute m name value).node n = s.node n := fun {n} hn => by
    rw [Tree.setAttribute, node_modifyAttributes, if_neg (Nat.ne_of_gt (Nat.lt_of_lt_of_le hn hm))]
  refine ⟨hshape.coherent h.coherent, hshape.size ▸ h.size_le, fun hn => ?_, fun hn => ?_,
    fun {n} hn => ?_,
    fun {n} hn => ?_, fun {n} hn => ?_⟩
  · rw [hold hn, h.content hn]
  · rw [hold hn, h.link hn]
  · rw [hshape.children]
    exact h.children hn
  · rw [hshape.children]
    exact h.inside hn
  · rw [Tree.setAttribute, node_modifyAttributes]
    split
    · exact (h.bland hn).put hname value
    · exact h.bland hn

/-- A new node is hung below a new one, at the end of the head, or where there is no head. -/
theorem hang (hc : s.Loose c) (hnew : t.nodes.size ≤ c) (hp : p < s.nodes.size)
    {put : List NodeId → List NodeId}
    (hput : (put = (· ++ [c]) ∧ (p < t.nodes.size → t.IsHead p)) ∨
      (put = (c :: ·) ∧ (p < t.nodes.size → t.Headless p))) : t.Dressed (s.hang c p put) := by
  have hperm : (put (s.node p).children).Perm (c :: (s.node p).children) := by
    rcases hput with ⟨rfl, -⟩ | ⟨rfl, -⟩
    · exact List.perm_append_singleton ..
    · exact .refl _
  have hcontent : ∀ m, ((s.hang c p put).node m).content = (s.node m).content := fun m => by
    rw [node_hang]
  refine ⟨h.coherent.hang hc hp hperm, by rw [size_hang]; exact h.size_le, fun hn => ?_,
    fun {n} hn => ?_,
    fun {n} hn => ?_, fun {n} hn m hm => ?_, fun {n} hn => ?_⟩
  · rw [hcontent, h.content hn]
  · rw [node_hang, ← h.link hn]
    exact if_neg fun he => absurd (he.1 ▸ hn) (Nat.not_lt.mpr hnew)
  · rw [children_hang put hp]
    obtain ⟨before, after, heq, hbefore, hafter⟩ := h.children hn
    split
    · next he =>
      subst he
      rcases hput with ⟨rfl, hok⟩ | ⟨rfl, hok⟩
      · refine ⟨before, after ++ [c], by rw [heq]; exact List.append_assoc .., hbefore,
          fun m hm => ?_⟩
        rcases List.mem_append.mp hm with hm | hm
        · exact hafter m hm
        · exact List.mem_singleton.mp hm ▸ ⟨hnew, hok hn⟩
      · refine ⟨c :: before, after, by rw [heq]; rfl, fun m hm => ?_, hafter⟩
        rcases List.mem_cons.mp hm with rfl | hm
        · exact ⟨hnew, hok hn⟩
        · exact hbefore m hm
    · exact ⟨before, after, heq, hbefore, hafter⟩
  · rw [children_hang put hp] at hm
    split at hm
    · next he =>
      rcases List.mem_cons.mp ((he ▸ hperm).mem_iff.mp hm) with rfl | hm
      · exact hnew
      · exact h.inside hn m hm
    · exact h.inside hn m hm
  · rw [hcontent]
    exact h.bland hn

theorem newElement (name : String) (hname : (splitName (Text.asciiLower name)).1 = none) :
    t.Dressed (s.newElement name).2 := h.add _ ⟨hname, nofun⟩

/-- A new element with a text hangs nowhere yet. -/
theorem newElementWithText (name text : String)
    (hname : (splitName (Text.asciiLower name)).1 = none) :
    t.Dressed (s.newElementWithText name text).2 := by
  have hnew := h.newElement name hname
  have hloose := hnew.coherent.loose_add (.text text)
  have hlt : s.nodes.size < (s.newElement name).2.nodes.size := by
    show _ < (s.add _).2.nodes.size
    rw [size_add]
    exact Nat.lt_succ_self _
  show t.Dressed ((s.newElement name).2.appendText s.nodes.size text)
  rw [appendText_eq]
  refine (hnew.add (.text text) trivial).hang hloose hnew.size_le ?_
    (.inl ⟨rfl, fun hp => absurd hp (Nat.not_lt.mpr h.size_le)⟩)
  rw [size_add]
  exact Nat.lt_succ_of_lt hlt

/-! ## The head -/

/-- Elements of the name that are old were elements of the name before. -/
theorem find?_elementsOf (ht : t.Coherent) (hr : r < t.nodes.size) (name : String) :
    (∀ n, (s.elementsOf r).find? (fun c => s.isNamed c name) = some n → n < t.nodes.size →
      (t.elementsOf r).find? (fun c => t.isNamed c name) = some n) ∧
    ((s.elementsOf r).find? (fun c => s.isNamed c name) = none →
      (t.elementsOf r).find? (fun c => t.isNamed c name) = none) := by
  obtain ⟨before, after, heq, hbefore, hafter⟩ := h.children hr
  have hold : (t.node r).children.filter s.isElement = t.elementsOf r :=
    List.filter_congr fun c hc => h.isElement (ht.child_lt hc)
  have hnamed : ∀ c ∈ t.elementsOf r, s.isNamed c name = t.isNamed c name := fun c hc =>
    isNamed_congr (h.content (ht.child_lt (mem_elementsOf.mp hc).1)) name
  have hsplit :
      s.elementsOf r = before.filter s.isElement ++ t.elementsOf r ++ after.filter s.isElement := by
    unfold elementsOf at hold ⊢
    rw [heq, List.filter_append, List.filter_append, hold]
  have hsame : (t.elementsOf r).find? (fun c => s.isNamed c name) = (t.elementsOf r).find?
      (fun c => t.isNamed c name) :=
    List.find?_congr hnamed
  rw [hsplit, List.find?_append, List.find?_append, hsame]
  refine ⟨fun n hn hlt => ?_, fun hnone => ?_⟩
  · rcases Option.or_eq_some_iff.mp hn with hn | ⟨-, hn⟩
    · rcases Option.or_eq_some_iff.mp hn with hn | ⟨-, hn⟩
      · have hmem := List.mem_of_mem_filter (List.mem_of_find?_eq_some hn)
        exact absurd hlt (Nat.not_lt.mpr (hbefore n hmem).1)
      · exact hn
    · have hmem := List.mem_of_mem_filter (List.mem_of_find?_eq_some hn)
      exact absurd hlt (Nat.not_lt.mpr (hafter n hmem).1)
  · exact (Option.or_eq_none_iff.mp (Option.or_eq_none_iff.mp hnone).1).2

/-- The outermost element stays the same. -/
theorem root (ht : t.Coherent) (hr : t.root = .ok r) : s.root = .ok r := by
  have hlt := ht.root_top.lt
  obtain ⟨before, after, heq, hbefore, hafter⟩ := h.children hlt
  have hnone : ∀ n, t.root = .ok n → n ≠ documentId := fun n hn he =>
    absurd rfl (ht.ne_document (he ▸ (mem_elementsOf.mp (mem_elementsOf_of_root hn)).2))
  have hnobefore : before = [] := List.eq_nil_iff_forall_not_mem.mpr fun m hm =>
    hnone documentId (hbefore m hm).2.1 rfl
  have hold : (t.node documentId).children.filter s.isElement = t.elementsOf documentId :=
    List.filter_congr fun c hc => h.isElement (ht.child_lt hc)
  refine root_eq_ok.mpr ?_
  unfold elementsOf at hold ⊢
  rw [heq, hnobefore, List.nil_append, List.filter_append, hold, List.head?_append]
  exact congrArg (Option.or · _) (root_eq_ok.mp hr)

/-- No outermost element comes in. -/
theorem rootless (ht : t.Coherent) {e : TreeError} (hr : t.root = .error e) :
    s.root = .error e := by
  obtain ⟨before, after, heq, hbefore, hafter⟩ := h.children ht.root_top.lt
  have hnobefore : before = [] := List.eq_nil_iff_forall_not_mem.mpr fun m hm => by
    cases hr.symm.trans (hbefore m hm).2.1
  have hnoafter : after = [] := List.eq_nil_iff_forall_not_mem.mpr fun m hm => by
    obtain ⟨r, hok, -⟩ := (hafter m hm).2
    cases hr.symm.trans hok
  have hsame : s.elementsOf documentId = t.elementsOf documentId := by
    unfold elementsOf
    rw [heq, hnobefore, hnoafter, List.nil_append, List.append_nil]
    exact List.filter_congr fun c hc => h.isElement (ht.child_lt hc)
  unfold Tree.root at hr ⊢
  rwa [hsame]

/-- There is a head, or it can be made. -/
theorem head (ht : t.Coherent) (hr : t.root = .ok r) : ∃ n s', s.head = .ok (n, s') ∧ t.Dressed s' ∧
    s'.Standing n ∧
    (n < t.nodes.size → t.IsHead n) ∧ ∀ m, s.Loose m → s'.Loose m := by
  have hlt : r < t.nodes.size := ht.child_lt (mem_elementsOf.mp (mem_elementsOf_of_root hr)).1
  have hstanding : s.Standing r := h.standing (ht.depth_root hr).standing
  have hlive := h.coherent.isLive_of_standing hstanding
  have hfirst :
      s.firstChild? r "head" = .ok ((s.elementsOf r).find? fun c => s.isNamed c "head") := by
    unfold firstChild?
    rw [childElements_of_isLive hlive]
    rfl
  have hfound := h.find?_elementsOf ht hlt "head"
  unfold Tree.head
  rw [h.root ht hr]
  cases hhead : (s.elementsOf r).find? fun c => s.isNamed c "head" with
  | some n =>
    rw [hhead] at hfirst
    refine ⟨n, s, by simp only [bind, Except.bind, hfirst, pure, Except.pure], h, ?_, fun hn => ?_,
      fun m hm => hm⟩
    · exact hstanding.child (mem_elementsOf.mp (List.mem_of_find?_eq_some hhead)).1
    · exact ⟨r, hr, hfound.1 n hhead hn⟩
  | none =>
    rw [hhead] at hfirst
    have hnew := h.newElement "head" (by cbv)
    have hmade := sprout_newElement h.coherent "head"
    have hstanding' :=
      (hmade.beyond.standing_iff h.coherent (h.coherent.standing_lt hstanding)).mpr hstanding
    have hprepend : (s.newElement "head").2.prependChild r s.nodes.size =
        .ok ((s.newElement "head").2.hang s.nodes.size r (s.nodes.size :: ·)) := by
      unfold prependChild ensureLive
      rw [if_pos (hnew.coherent.isLive_of_standing hstanding'), detach_of_isTop hmade.loose.toIsTop]
      rfl
    refine ⟨s.nodes.size, _, ?_,
      hnew.hang hmade.loose h.size_le (hnew.coherent.standing_lt hstanding')
      (.inr ⟨rfl, fun _ => ⟨hr, hfound.2 hhead⟩⟩), ?_, fun hn =>
        absurd hn (Nat.not_lt.mpr h.size_le), fun m hm => ?_⟩
    · simp only [bind, Except.bind, hfirst]
      show (do let t ← (s.newElement "head").2.prependChild r s.nodes.size; return (s.nodes.size,
          t)) = _
      rw [hprepend]
      rfl
    · have hnot := hmade.beyond.not_under hstanding (Nat.le_refl _) hmade.loose.toIsTop
      have hrlt := hnew.coherent.standing_lt hstanding'
      refine ((standing_hang_iff hmade.loose hstanding' hrlt hnot (.refl _)).mpr
        hstanding').child ?_
      rw [children_hang _ hrlt, if_pos rfl]
      exact List.mem_cons_self
    · refine ⟨(isTop_hang_iff _ hmade.loose.lt).mpr ⟨hmade.beyond.isTop hm.toIsTop,
        Nat.ne_of_lt hm.lt⟩, hm.ne_document⟩

/-- A loose new node can be appended to what stands, be it new or the head. -/
theorem appendChild (hc : s.Loose c) (hnew : t.nodes.size ≤ c) (hn : s.Standing n)
    (hok : n < t.nodes.size → t.IsHead n) :
    ∃ s', s.appendChild n c = .ok s' ∧ t.Dressed s' ∧ (¬ s.Under c n → s'.Standing n) := by
  have hlt := h.coherent.standing_lt hn
  refine ⟨_, appendChild_eq hc.toIsTop (h.coherent.isLive_of_standing hn),
    h.hang hc hnew hlt (.inl ⟨rfl, hok⟩), fun hnot => ?_⟩
  exact (standing_hang_iff hc hn hlt hnot (List.perm_append_singleton ..)).mpr hn

end Dressed

end Tree
end Markup

namespace Engine

variable {t s : Tree} {n r : NodeId} {document : Resource} {css : String} {e : TreeError}

/-- The element of a head entry is made beside the tree. -/
theorem headElement_dressed (h : t.Dressed s) (entry : HeadEntry) :
    t.Dressed (headElement document s entry).2 := by
  cases entry with
  | linkedCss target =>
    exact (((h.newElement "link" (by cbv)).setAttribute h.size_le _ _ (by cbv)).setAttribute
      h.size_le _ _ (by
      cbv)).setAttribute h.size_le _ _ (by cbv)
  | embeddedCss text =>
    exact (h.newElementWithText "style" text (by cbv)).setAttribute h.size_le _ _ (by cbv)
  | linkedScript target =>
    exact ((h.newElement "script" (by cbv)).setAttribute h.size_le _ _ (by cbv)).setAttribute
      h.size_le _ _ (by cbv)
  | embeddedScript text =>
    exact (h.newElementWithText "script" text (by cbv)).setAttribute h.size_le _ _ (by cbv)

/-- Entries can be added to a head that stands. -/
theorem addEntries_dressed (h : t.Dressed s) (hn : s.Standing n)
    (hok : n < t.nodes.size → t.IsHead n) (entries : List HeadEntry) :
    ∃ s', addEntries document n s entries = .ok s' ∧ t.Dressed s' := by
  induction entries generalizing s with
  | nil => exact ⟨s, rfl, h⟩
  | cons entry entries ih =>
    have hmade := headElement_made h.coherent document entry
    have hstanding := (hmade.beyond.standing_iff h.coherent (h.coherent.standing_lt hn)).mpr hn
    have hnot := hmade.beyond.not_under hn hmade.new hmade.loose.toIsTop
    obtain ⟨s₁, happend, hdressed, hstands⟩ := (headElement_dressed h entry).appendChild hmade.loose
      (Nat.le_trans h.size_le hmade.new) hstanding hok
    obtain ⟨s', hentries, hdressed'⟩ := ih hdressed (hstands hnot)
    refine ⟨s', ?_, hdressed'⟩
    unfold addEntries
    dsimp only
    rw [happend]
    exact hentries

/-- A style sheet is embedded in three steps: the element is made, typed, and put at the end of the
head. -/
theorem embedCss_eq : Painting.embedCss t css =
    (((t.newElementWithText "style" css).2.setAttribute t.nodes.size "type" "text/css").head >>=
      fun found =>
      found.2.appendChild found.1 t.nodes.size) := rfl

/-- The style sheet of the engine can be added. -/
theorem embedCss_dressed (ht : t.Coherent) (hr : t.root = .ok r) (css : String) :
    ∃ s, Painting.embedCss t css = .ok s ∧ t.Dressed s := by
  have h := ((Dressed.refl ht).newElementWithText "style" css (by cbv)).setAttribute
    (Nat.le_refl _) "type" "text/css"
    (by cbv)
  have hmade := (sprout_newElementWithText ht "style" css).1.made.setAttribute "type" "text/css"
  obtain ⟨n, s₁, hhead, hdressed, hstanding, hok, hloose⟩ := h.head ht hr
  obtain ⟨s, happend, hdressed', -⟩ :=
    hdressed.appendChild (hloose _ hmade.loose) hmade.new hstanding hok
  refine ⟨s, ?_, hdressed'⟩
  rw [embedCss_eq, hhead]
  exact happend

/-- **The head of a document can be completed**, if it has an outermost element, and what was there
stays as it was. -/
theorem installHead_dressed (ht : t.Coherent) (hr : t.root = .ok r) (embedCss : Bool)
    (document : Resource) (entries : List HeadEntry) :
    ∃ s, installHead embedCss document entries t = .ok s ∧ t.Dressed s := by
  have hadded : ∀ {s : Tree}, t.Dressed s → ∃ s',
      (s.head >>= fun found => addEntries document found.1 found.2 entries) = .ok s' ∧
      t.Dressed s' := by
    intro s h
    obtain ⟨n, s₁, hhead, hdressed, hstanding, hok, -⟩ := h.head ht hr
    rw [hhead]
    exact addEntries_dressed hdressed hstanding hok entries
  cases embedCss with
  | false => exact hadded (.refl ht)
  | true =>
    obtain ⟨s, hembed, h⟩ := embedCss_dressed ht hr Painting.defaultCss
    obtain ⟨s', hentries, h'⟩ := hadded h
    refine ⟨s', ?_, h'⟩
    unfold installHead
    rw [if_pos rfl, hembed]
    exact hentries

/-- A document without outermost element is refused. -/
theorem installHead_rootless (ht : t.Coherent) (hr : t.root = .error e) (embedCss : Bool)
    (entries : List HeadEntry) :
    installHead embedCss document entries t = .error e := by
  have hhead : ∀ {s : Tree}, t.Dressed s → s.head = .error e := fun h => by
    unfold Tree.head
    rw [h.rootless ht hr]
    rfl
  cases embedCss with
  | false =>
    show (t.head >>= fun found => addEntries document found.1 found.2 entries) = _
    rw [hhead (.refl ht)]
    rfl
  | true =>
    have h :=
      ((Dressed.refl ht).newElementWithText "style" Painting.defaultCss (by cbv)).setAttribute
        (Nat.le_refl _)
      "type" "text/css" (by cbv)
    have hembed : Painting.embedCss t Painting.defaultCss = .error e := by
      rw [embedCss_eq, hhead h]
      rfl
    unfold installHead
    rw [if_pos rfl, hembed]
    rfl

end Engine
end LiveSpec
