import LiveSpec.Proofs.Tree.Shape

/-!
# What edits keep

Each edit of a tree is a few writes to its table. After each of them links and lists of children
still agree (`Tree.Coherent`), although in the middle of an edit a new node may hang at the top:
`add` makes such a *loose* node, and `hang` puts it below another one.

What stands after an edit is bounded by `Standing.of_closed`: a set of nodes that holds the top
nodes, and with a node its children, holds all that stands. For most edits that set is what stood
before.
-/

namespace LiveSpec.Markup

/-- The content of an element with other attributes; other content stays as it is. -/
def Content.mapAttributes (f : Attributes → Attributes) : Content → Content
  | .element name as => .element name (f as)
  | c => c

namespace Tree

variable {t t' : Tree} {n m p q x : NodeId}

/-- What holds at the top and goes down to children holds wherever something stands. -/
theorem Standing.of_closed {S : NodeId → Prop} (htop : ∀ {r}, t.IsTop r → S r)
    (hdown : ∀ {p c}, S p → c ∈ (t.node p).children → S c) (h : t.Standing x) : S x := by
  obtain ⟨r, hr, h⟩ := h
  induction h with
  | self => exact htop hr
  | child _ hc ih => exact hdown ih hc

/-- Two trees of one size with the same nodes are the same. -/
theorem ext_node (hsize : t.nodes.size = t'.nodes.size) (h : ∀ n, t.node n = t'.node n) :
    t = t' := by
  obtain ⟨a⟩ := t
  obtain ⟨b⟩ := t'
  refine congrArg Tree.mk (Array.ext hsize fun i hi hi' => ?_)
  have := h i
  simp only [node, Array.getD] at this
  rwa [dif_pos hi, dif_pos hi'] at this

/-- A link that says what it said before. -/
theorem setLink_self {l : Link} (h : (t.node n).link = l) : t.setLink n l = t := by
  refine ext_node (size_setLink ..) fun m => ?_
  rw [node_setLink]
  split
  · next hm => obtain ⟨rfl, -⟩ := hm; rw [← h]
  · rfl

/-! ## Attributes -/

/-- Attributes change at one node only. -/
theorem node_modifyAttributes (f : Attributes → Attributes) :
    (t.modifyAttributes n f).node m =
      if n = m then { t.node m with content := (t.node m).content.mapAttributes f } else
        t.node m := by
  unfold modifyAttributes
  rw [node_modify_of_fresh _ _ _ _ rfl]
  split
  · cases hc : (t.node m).content <;> simp only [Content.mapAttributes, ← hc]
  · rfl

@[simp] theorem size_modifyAttributes (f : Attributes → Attributes) :
    (t.modifyAttributes n f).nodes.size = t.nodes.size := size_modify ..

/-- No attribute is the name of its element. -/
theorem name_modifyAttributes (f : Attributes → Attributes) :
    (t.modifyAttributes n f).name m = t.name m := by
  unfold Tree.name
  rw [node_modifyAttributes]
  by_cases hm : n = m
  · rw [if_pos hm]
    cases hc : (t.node m).content <;> simp only [Content.mapAttributes]
  · rw [if_neg hm]

/-- Two trees that differ in attributes only. -/
structure SameShape (t t' : Tree) : Prop where
  size : t'.nodes.size = t.nodes.size
  children (n : NodeId) : (t'.node n).children = (t.node n).children
  link (n : NodeId) : (t'.node n).link = (t.node n).link
  destroyed (n : NodeId) : (t'.node n).destroyed = (t.node n).destroyed
  isElement (n : NodeId) : t'.isElement n = t.isElement n
  root : (t.node documentId).content = .document → (t'.node documentId).content = .document

/-- And the shape of the tree does not. -/
theorem modifyAttributes_sameShape (f : Attributes → Attributes) :
    t.SameShape (t.modifyAttributes n f) := by
  have hnode := fun m => node_modifyAttributes (t := t) (n := n) (m := m) f
  refine ⟨size_modify .., fun m => ?_, fun m => ?_, fun m => ?_, fun m => ?_, fun h => ?_⟩
  · rw [hnode]; split <;> rfl
  · rw [hnode]; split <;> rfl
  · rw [hnode]; split <;> rfl
  · by_cases h : n = m
    · simp only [Tree.isElement, hnode, if_pos h]
      cases (t.node m).content <;> rfl
    · simp only [Tree.isElement, hnode, if_neg h]
  · rw [hnode]
    split
    · rw [h]; rfl
    · exact h

theorem SameShape.isTop_iff (h : t.SameShape t') : t'.IsTop n ↔ t.IsTop n :=
  ⟨fun c => ⟨h.size ▸ c.lt, h.link n ▸ c.link⟩, fun c => ⟨h.size ▸ c.lt, h.link n ▸ c.link⟩⟩

theorem SameShape.standing_iff (h : t.SameShape t') : t'.Standing n ↔ t.Standing n := by
  constructor
  · exact .of_closed (fun hr => (h.isTop_iff.mp hr).standing) fun hp hc =>
      hp.child (h.children _ ▸ hc)
  · exact .of_closed (fun hr => (h.isTop_iff.mpr hr).standing) fun hp hc =>
      hp.child ((h.children _).symm ▸ hc)

/-- Trees of one shape are coherent together. -/
theorem SameShape.coherent (h : t.SameShape t') (ht : t.Coherent) : t'.Coherent where
  root_content := h.root ht.root_content
  root_top := h.isTop_iff.mpr ht.root_top
  top_alive hr := (h.destroyed _).trans (ht.top_alive (h.isTop_iff.mp hr))
  child_lt hc := h.size ▸ ht.child_lt (h.children _ ▸ hc)
  child_link hc := (h.link _).trans (ht.child_link (h.children _ ▸ hc))
  child_alive hc := (h.destroyed _).trans (ht.child_alive (h.children _ ▸ hc))
  nodup p := h.children p ▸ ht.nodup p
  parent_lt hl := h.size ▸ ht.parent_lt (h.link _ ▸ hl)
  listed hl hp := (h.children _).symm ▸ ht.listed (h.link _ ▸ hl) (h.standing_iff.mp hp)

/-! ## New nodes -/

/-- A node that hangs at the top without being the document, as new nodes do until they are hung in.
-/
structure Loose (t : Tree) (n : NodeId) : Prop extends t.IsTop n where
  ne_document : n ≠ documentId

/-- A new node stands at the top. -/
theorem isTop_add_iff (c : Content) : (t.add c).2.IsTop n ↔ t.IsTop n ∨ n = t.nodes.size := by
  constructor
  · intro h
    have hlt := h.lt
    rw [size_add] at hlt
    rcases Nat.lt_or_eq_of_le (Nat.le_of_lt_succ hlt) with hn | hn
    · exact .inl ⟨hn, node_add_of_lt c hn ▸ h.link⟩
    · exact .inr hn
  · rintro (h | rfl)
    · exact ⟨size_add t c ▸ Nat.lt_succ_of_lt h.lt, (node_add_of_lt c h.lt).symm ▸ h.link⟩
    · exact ⟨size_add t c ▸ Nat.lt_succ_self _, by rw [node_add, if_pos rfl]; rfl⟩

/-- A new node lists nothing, and nothing lists it. -/
theorem children_add (c : Content) : ((t.add c).2.node n).children = (t.node n).children := by
  rw [node_add]
  split
  · next h => rw [node_of_size_le t n (Nat.le_of_eq h.symm)]; rfl
  · rfl

/-- A new node hangs where a place outside of the table says to hang. -/
theorem link_add (c : Content) : ((t.add c).2.node n).link = (t.node n).link := by
  rw [node_add]
  split
  · next h => rw [node_of_size_le t n (Nat.le_of_eq h.symm)]; rfl
  · rfl

/-- And nothing else stands that did not. -/
theorem standing_of_standing_add {c : Content} (h : (t.add c).2.Standing x) :
    t.Standing x ∨ x = t.nodes.size := by
  refine h.of_closed (fun hr => ((isTop_add_iff c).mp hr).imp_left IsTop.standing)
    fun {p q} hp hq => ?_
  rw [children_add] at hq
  rcases hp with hp | rfl
  · exact .inl (hp.child hq)
  · exact absurd (lt_size_of_mem_children hq) (Nat.lt_irrefl _)

/-- A tree stays coherent with a new node. -/
theorem Coherent.add (ht : t.Coherent) (c : Content) : (t.add c).2.Coherent := by
  have hchild : ∀ {p q}, q ∈ ((t.add c).2.node p).children → q ∈ (t.node p).children := fun h =>
    children_add (t := t) c ▸ h
  have hold : ∀ {p q}, q ∈ ((t.add c).2.node p).children → (t.add c).2.node q = t.node q := fun h =>
    node_add_of_lt c (ht.child_lt (hchild h))
  refine
    { root_content := ?_, root_top := ?_, top_alive := ?_, child_lt := ?_, child_link := ?_,
      child_alive := ?_, nodup := ?_, parent_lt := ?_, listed := ?_ }
  · rw [node_add_of_lt c ht.root_top.lt]; exact ht.root_content
  · exact (isTop_add_iff c).mpr (.inl ht.root_top)
  · intro r hr
    rcases (isTop_add_iff c).mp hr with hr | rfl
    · rw [node_add_of_lt c hr.lt]; exact ht.top_alive hr
    · rw [node_add, if_pos rfl]; rfl
  · intro p q h; rw [size_add]; exact Nat.lt_succ_of_lt (ht.child_lt (hchild h))
  · intro p q h; rw [hold h]; exact ht.child_link (hchild h)
  · intro p q h; rw [hold h]; exact ht.child_alive (hchild h)
  · intro p; rw [children_add]; exact ht.nodup p
  · intro n p h
    rw [node_add] at h
    split at h
    · cases h
    · rw [size_add]; exact Nat.lt_succ_of_lt (ht.parent_lt h)
  · intro n p h hp
    rw [node_add] at h
    split at h
    · cases h
    · rw [children_add]
      rcases standing_of_standing_add hp with hp | rfl
      · exact ht.listed h hp
      · exact absurd (ht.parent_lt h) (Nat.lt_irrefl _)

/-- In a coherent tree a new node is loose. -/
theorem Coherent.loose_add (ht : t.Coherent) (c : Content) : (t.add c).2.Loose t.nodes.size :=
  ⟨(isTop_add_iff c).mpr (.inr rfl), fun h => absurd ht.root_top.lt (h ▸ Nat.lt_irrefl _)⟩

/-! ## Hanging a node in -/

/-- A node that hangs at the top is hung in without being taken out anywhere. -/
theorem detach_of_isTop (hn : t.IsTop n) : t.detach n = t := by
  unfold detach
  rw [Coherent.above_top hn]
  exact setLink_self hn.link

/-- A node at the top is hung below a live element, at its end. -/
theorem appendChild_eq (hn : t.IsTop n) (hp : t.isLive p = true) :
    t.appendChild p n = .ok (t.hang n p (· ++ [n])) := by
  unfold appendChild
  rw [ensureLive_bind_of_isLive hp, detach_of_isTop hn]
  rfl

/-! What each way of attaching does if it succeeds. -/

/-- To append is to detach and to hang in at the end. -/
theorem appendChild_eq_ok (h : t.appendChild p n = .ok t') :
    t.isLive p = true ∧ t' = (t.detach n).hang n p (· ++ [n]) := by
  obtain ⟨hlive, h⟩ := ensureLive_bind_eq_ok.mp h
  exact ⟨hlive, (Except.ok.inj h).symm⟩

/-- To prepend is to detach and to hang in at the start. -/
theorem prependChild_eq_ok (h : t.prependChild p n = .ok t') :
    t.isLive p = true ∧ t' = (t.detach n).hang n p (n :: ·) := by
  obtain ⟨hlive, h⟩ := ensureLive_bind_eq_ok.mp h
  exact ⟨hlive, (Except.ok.inj h).symm⟩

/-- To insert is to detach and to hang in after the other node. -/
theorem insertAfter_eq_ok (h : t.insertAfter x n = .ok t') :
    t.isLive x = true ∧ ∃ p, t.above x = .parent p ∧ t' = (t.detach n).hang n p (putAfter x n) := by
  obtain ⟨hlive, h⟩ := ensureLive_bind_eq_ok.mp h
  cases hup : t.above x with
  | parent p =>
    rw [hup] at h
    exact ⟨hlive, p, rfl, (Except.ok.inj h).symm⟩
  | top => rw [hup] at h; cases h
  | lost => rw [hup] at h; cases h

/-- A list with a node put in has this node and those of before. -/
theorem perm_putAfter (a x : NodeId) (l : List NodeId) : (putAfter a x l).Perm (x :: l) := by
  induction l with
  | nil => exact .refl _
  | cons b l ih =>
    unfold putAfter
    split
    · exact .swap ..
    · exact (ih.cons b).trans (.swap ..)

/-- A node at the top is hung in after a live element that has a parent. -/
theorem insertAfter_eq (hn : t.IsTop n) (hx : t.isLive x = true) (hup : t.above x = .parent p) :
    t.insertAfter x n = .ok (t.hang n p (putAfter x n)) := by
  unfold insertAfter
  rw [ensureLive_bind_of_isLive hx, hup, detach_of_isTop hn]
  rfl

theorem size_hang (put : List NodeId → List NodeId) : (t.hang n p put).nodes.size = t.nodes.size :=
  (size_modifyChildren ..).trans (size_setLink ..)

/-- A node of the tree after something was hung in: at most its link and its children have changed.
-/
theorem node_hang (put : List NodeId → List NodeId) :
    (t.hang n p put).node m =
      { t.node m with
        link := if n = m ∧ m < t.nodes.size then .below p else (t.node m).link
        children := if p = m ∧ m < t.nodes.size then put (t.node m).children else
          (t.node m).children } := by
  unfold hang
  rw [node_modifyChildren, node_setLink, size_setLink]
  split <;> split <;> rfl

/-- Only the list that the node goes into changes. -/
theorem children_hang (put : List NodeId → List NodeId) (hp : p < t.nodes.size) :
    ((t.hang n p put).node m).children = if p = m then put (t.node m).children else
      (t.node m).children := by
  rw [node_hang]
  by_cases h : p = m
  · subst h; simp [hp]
  · simp [h]

/-- Only the link of the node that is hung in changes. -/
theorem link_hang (put : List NodeId → List NodeId) (hn : n < t.nodes.size) :
    ((t.hang n p put).node m).link = if n = m then .below p else (t.node m).link := by
  rw [node_hang]
  by_cases h : n = m
  · subst h; simp [hn]
  · simp [h]

/-- What is hung in stands at the top no longer. -/
theorem isTop_hang_iff (put : List NodeId → List NodeId) (hn : n < t.nodes.size) :
    (t.hang n p put).IsTop x ↔ t.IsTop x ∧ x ≠ n := by
  constructor
  · intro h
    have hl := h.link
    rw [link_hang put hn] at hl
    split at hl
    · cases hl
    · next hne => exact ⟨⟨size_hang (t := t) put ▸ h.lt, hl⟩, Ne.symm hne⟩
  · rintro ⟨h, hne⟩
    refine ⟨(size_hang put).symm ▸ h.lt, ?_⟩
    rw [link_hang put hn, if_neg (Ne.symm hne)]
    exact h.link

section Hanging

variable {put : List NodeId → List NodeId} (ht : t.Coherent) (hn : t.Loose n)
  (hp : p < t.nodes.size) (hput : (put (t.node p).children).Perm (n :: (t.node p).children))
include hp hput

omit ht hn in
/-- The new child is the one that was hung in. -/
theorem mem_children_hang : x ∈ ((t.hang n p put).node q).children ↔
    x ∈ (t.node q).children ∨ q = p ∧ x = n := by
  rw [children_hang put hp]
  split
  · next h => subst h; simp [hput.mem_iff, or_comm]
  · next h => exact ⟨.inl, fun c => c.resolve_right fun e => h e.1.symm⟩

include hn

omit ht in
/-- Hanging a loose node in makes nothing stand that did not. -/
theorem standing_of_standing_hang (h : (t.hang n p put).Standing x) : t.Standing x := by
  refine h.of_closed (fun hr => ((isTop_hang_iff put hn.lt).mp hr).1.standing) fun hq hc => ?_
  rcases (mem_children_hang hp hput).mp hc with hc | ⟨-, rfl⟩
  · exact hq.child hc
  · exact hn.toIsTop.standing

include ht

/-- **Hanging in a node at the top keeps a tree coherent,** if it does not go below itself. -/
theorem Coherent.hang : (t.hang n p put).Coherent := by
  have hdestroyed : ∀ m, ((t.hang n p put).node m).destroyed = (t.node m).destroyed := fun m => by
    rw [node_hang]
  have hother : ∀ {q x}, x ∈ (t.node q).children →
      ((t.hang n p put).node x).link = .below q := fun {q x} hx => by
    rw [link_hang put hn.lt, if_neg (fun h => ht.top_not_listed hn.toIsTop (h ▸ hx))]
    exact ht.child_link hx
  refine
    { root_content := ?_, root_top := ?_, top_alive := ?_, child_lt := ?_, child_link := ?_,
      child_alive := ?_, nodup := ?_, parent_lt := ?_, listed := ?_ }
  · rw [node_hang]; exact ht.root_content
  · exact (isTop_hang_iff put hn.lt).mpr ⟨ht.root_top, hn.ne_document.symm⟩
  · intro r hr; rw [hdestroyed]; exact ht.top_alive ((isTop_hang_iff put hn.lt).mp hr).1
  · intro q x hx
    rw [size_hang]
    rcases (mem_children_hang hp hput).mp hx with hx | ⟨-, rfl⟩
    · exact ht.child_lt hx
    · exact hn.lt
  · intro q x hx
    rcases (mem_children_hang hp hput).mp hx with hx | ⟨rfl, rfl⟩
    · exact hother hx
    · rw [link_hang put hn.lt, if_pos rfl]
  · intro q x hx
    rw [hdestroyed]
    rcases (mem_children_hang hp hput).mp hx with hx | ⟨-, rfl⟩
    · exact ht.child_alive hx
    · exact ht.top_alive hn.toIsTop
  · intro q
    rw [children_hang put hp]
    split
    · next h =>
      subst h
      exact hput.nodup_iff.mpr (List.nodup_cons.mpr ⟨ht.top_not_listed hn.toIsTop, ht.nodup p⟩)
    · exact ht.nodup q
  · intro m q h
    rw [link_hang put hn.lt] at h
    rw [size_hang]
    split at h
    · exact Link.below.inj h ▸ hp
    · exact ht.parent_lt h
  · intro m q h hq
    rw [link_hang put hn.lt] at h
    rw [mem_children_hang hp hput]
    split at h
    · next he => exact .inr ⟨(Link.below.inj h).symm, he.symm⟩
    · exact .inl (ht.listed h (standing_of_standing_hang hn hp hput hq))

end Hanging

/-- A new node that is hung in at once leaves no other node loose. -/
theorem Sound.hang_add (ht : t.Sound) (c : Content) {put : List NodeId → List NodeId}
    (hp : p < t.nodes.size)
    (hput : (put (t.node p).children).Perm (t.nodes.size :: (t.node p).children)) :
    ((t.add c).2.hang t.nodes.size p put).Sound := by
  have hloose := ht.loose_add c
  refine { ht.toCoherent.add c |>.hang hloose (size_add t c ▸ Nat.lt_succ_of_lt hp) ?_
    with top_only := ?_ }
  · rwa [children_add]
  · intro n hn hl
    obtain ⟨htop, hne⟩ := (isTop_hang_iff put hloose.lt).mp ⟨hn, hl⟩
    have := ((isTop_add_iff c).mp htop).resolve_right hne
    exact ht.top_only this.lt this.link

/-! ## Taking away -/

/-- An edit that only takes away: it cuts nodes off, takes them out of lists of children, and
destroys some. What stays listed is neither cut nor destroyed, and what is no longer listed is cut
or out of sight. -/
structure Pruned (t t' : Tree) : Prop where
  size : t'.nodes.size = t.nodes.size
  content (n : NodeId) : (t'.node n).content = (t.node n).content
  link (n : NodeId) : (t'.node n).link = (t.node n).link ∨ (t'.node n).link = .cut ∧ n ≠ documentId
  children (p : NodeId) : ((t'.node p).children).Sublist (t.node p).children
  kept_link {p c : NodeId} : c ∈ (t'.node p).children → (t'.node c).link = (t.node c).link
  kept_alive {p c : NodeId} : c ∈ (t'.node p).children →
    (t'.node c).destroyed = (t.node c).destroyed
  top_alive {r : NodeId} : t.IsTop r → (t'.node r).destroyed = (t.node r).destroyed
  dropped {p c : NodeId} : c ∈ (t.node p).children → c ∉ (t'.node p).children →
    (t'.node c).link = .cut ∨ ¬ t.Standing p

theorem Pruned.isTop (h : t.Pruned t') (hx : t'.IsTop x) : t.IsTop x := by
  refine ⟨h.size ▸ hx.lt, ?_⟩
  rcases h.link x with hl | ⟨hl, -⟩
  · exact hl ▸ hx.link
  · exact absurd (hl.symm.trans hx.link) (by simp)

/-- What stands after pruning stood before. -/
theorem Pruned.standing (h : t.Pruned t') (hx : t'.Standing x) : t.Standing x :=
  hx.of_closed (fun hr => (h.isTop hr).standing) fun hp hc => hp.child ((h.children _).subset hc)

/-- A pruned tree is coherent. -/
theorem Pruned.coherent (h : t.Pruned t') (ht : t.Coherent) : t'.Coherent where
  root_content := (h.content _).trans ht.root_content
  root_top := by
    refine ⟨h.size.symm ▸ ht.root_top.lt, ?_⟩
    exact ((h.link documentId).resolve_right fun c => c.2 rfl).trans ht.root_top.link
  top_alive hr := (h.top_alive (h.isTop hr)).trans (ht.top_alive (h.isTop hr))
  child_lt hc := h.size ▸ ht.child_lt ((h.children _).subset hc)
  child_link hc := (h.kept_link hc).trans (ht.child_link ((h.children _).subset hc))
  child_alive hc := (h.kept_alive hc).trans (ht.child_alive ((h.children _).subset hc))
  nodup p := (h.children p).nodup (ht.nodup p)
  parent_lt {n p} hl := by
    rcases h.link n with he | ⟨he, -⟩
    · exact h.size ▸ ht.parent_lt (he ▸ hl)
    · exact absurd (he.symm.trans hl) (by simp)
  listed {n p} hl hp := by
    rcases h.link n with he | ⟨he, -⟩
    · refine Decidable.byContradiction fun hn => ?_
      rcases h.dropped (ht.listed (he ▸ hl) (h.standing hp)) hn with hcut | hstale
      · exact absurd (hcut.symm.trans hl) (by simp)
      · exact hstale (h.standing hp)
    · exact absurd (he.symm.trans hl) (by simp)

/-- And sound, if the document still stands. -/
theorem Pruned.sound (h : t.Pruned t') (ht : t.Sound) : t'.Sound where
  toCoherent := h.coherent ht.toCoherent
  top_only hn hl := ht.top_only (h.isTop ⟨hn, hl⟩).lt (h.isTop ⟨hn, hl⟩).link

/-- The children of a node are cut off, each at its link, and its list is emptied. -/
theorem node_cutChildren :
    (t.cutChildren n).node m =
      { t.node m with
        link := if m ∈ (t.node n).children ∧ m < t.nodes.size then .cut else (t.node m).link
        children := if n = m then [] else (t.node m).children } := by
  show ((t.setLinks (t.node n).children .cut).modifyChildren n fun _ => []).node m = _
  rw [node_modifyChildren, node_setLinks, size_setLinks]
  by_cases hm : m < t.nodes.size
  · by_cases hn : n = m
    · subst hn
      by_cases hc : n ∈ (t.node n).children <;> simp [hm, hc]
    · by_cases hc : m ∈ (t.node n).children <;> simp [hm, hn, hc]
  · rw [node_of_size_le t m (Nat.not_lt.mp hm)]
    by_cases hn : n = m <;> simp [hm, hn, Node.fresh]

@[simp] theorem size_cutChildren : (t.cutChildren n).nodes.size = t.nodes.size :=
  (size_modifyChildren ..).trans (size_setLinks ..)

/-- Cutting off the children of a node takes them away, and nothing else. -/
theorem Coherent.pruned_cutChildren (ht : t.Coherent) : t.Pruned (t.cutChildren n) := by
  have hchildren : ∀ p, ((t.cutChildren n).node p).children = if n = p then [] else
      (t.node p).children :=
    fun p => by rw [node_cutChildren]
  have hlink : ∀ c, ((t.cutChildren n).node c).link = if c ∈ (t.node n).children then .cut else
      (t.node c).link :=
    fun c => by
      rw [node_cutChildren]
      by_cases hc : c ∈ (t.node n).children
      · simp [hc, ht.child_lt hc]
      · simp [hc]
  refine ⟨size_cutChildren, fun m => ?_, fun m => ?_, fun p => ?_, fun {p c} h => ?_,
    fun {p c} h => ?_,
    fun {r} _ => ?_, fun {p c} h hn => ?_⟩
  · rw [node_cutChildren]
  · rw [hlink]
    split
    · next h => exact .inr ⟨rfl, fun e => ht.top_not_listed ht.root_top (e ▸ h)⟩
    · exact .inl rfl
  · rw [hchildren]
    split
    · exact List.nil_sublist _
    · exact List.Sublist.refl _
  · rw [hchildren] at h
    split at h
    · cases h
    · next hne => rw [hlink, if_neg fun hc => hne (ht.parent_unique hc h)]
  · rw [node_cutChildren]
  · rw [node_cutChildren]
  · rw [hchildren] at hn
    split at hn
    · next he => subst he; rw [hlink, if_pos h]; exact .inl rfl
    · exact absurd h hn

/-- What a removal does: the element leaves the list of its parent and is cut off. -/
theorem remove_eq (h : t.remove n = .ok t') :
    t.isLive n = true ∧ t'.nodes.size = t.nodes.size ∧ ∀ m, t'.node m =
      { t.node m with
        link := if n = m ∧ m < t.nodes.size then .cut else (t.node m).link
        children := if t.above n = .parent m ∧ m < t.nodes.size then
          (t.node m).children.filter (· != n)
          else (t.node m).children } := by
  unfold remove ensureLive at h
  by_cases hlive : t.isLive n = true
  · rw [if_pos hlive] at h
    cases h
    refine ⟨hlive, ?_, fun m => ?_⟩
    · unfold detach; split <;> simp
    · unfold detach
      rw [node_setLink, node_setLink, size_setLink]
      cases hup : t.above n with
      | top => by_cases hm : n = m <;> by_cases hlt : m < t.nodes.size <;> simp [hm, hlt]
      | lost => by_cases hm : n = m <;> by_cases hlt : m < t.nodes.size <;> simp [hm, hlt]
      | parent p =>
        simp only [size_modifyChildren, node_modifyChildren, Upward.parent.injEq]
        by_cases hm : n = m <;> by_cases hp : p = m <;> by_cases hlt :
          m < t.nodes.size <;> simp [hm, hp, hlt]
  · rw [if_neg hlive] at h
    cases h

/-- In a coherent tree the removal of an element takes it away, and nothing else. -/
theorem Coherent.pruned_remove (ht : t.Coherent) (hn : t.isElement n = true)
    (h : t.remove n = .ok t') :
    t.Pruned t' := by
  obtain ⟨hlive, hsize, hnode⟩ := remove_eq h
  have hlt := lt_size_of_isElement hn
  have hlink : ∀ c, c ≠ n → (t'.node c).link = (t.node c).link := fun c hc => by
    rw [hnode]; simp [Ne.symm hc]
  have hchildren : ∀ q, (t'.node q).children = if t.above n = .parent q ∧ q < t.nodes.size then
      (t.node q).children.filter (· != n) else (t.node q).children := fun q => by rw [hnode]
  have hunlisted : ∀ q, n ∉ (t'.node q).children := fun q hmem => by
    rw [hchildren] at hmem
    split at hmem
    · simp at hmem
    · next hq =>
      -- what lists a standing node stands, and so it is what is above the node
      rcases ((ht.isLive_iff hlt).mp hlive).isTop_or_listed with htop | ⟨p, hp, hlisted⟩
      · exact ht.top_not_listed htop hmem
      · obtain rfl := ht.parent_unique hlisted hmem
        exact hq ⟨ht.above_of_mem hp hmem, lt_size_of_mem_children hmem⟩
  refine ⟨hsize, fun m => ?_, fun m => ?_, fun q => ?_, fun {q c} hc => ?_, fun {q c} _ => ?_,
    fun {r} _ => ?_, fun {q c} hc hgone => ?_⟩
  · rw [hnode]
  · by_cases hm : m = n
    · subst hm; rw [hnode]; simp [hlt, ht.ne_document hn]
    · exact .inl (hlink m hm)
  · rw [hchildren]
    split
    · exact List.filter_sublist
    · exact List.Sublist.refl _
  · exact hlink c fun he => hunlisted q (he ▸ hc)
  · rw [hnode]
  · rw [hnode]
  · rw [hchildren] at hgone
    split at hgone
    · have hcn : c = n := Decidable.byContradiction fun hcn =>
        hgone (List.mem_filter.mpr ⟨hc, by simp [hcn]⟩)
      subst hcn; rw [hnode]; simp [hlt]
    · exact absurd hc hgone

/-- To remove an element prunes the tree. -/
theorem Sound.pruned_remove (ht : t.Sound) (hn : t.isElement n = true) (h : t.remove n = .ok t') :
    t.Pruned t' :=
  ht.toCoherent.pruned_remove hn h

end Tree
end LiveSpec.Markup
