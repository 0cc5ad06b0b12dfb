import LiveSpec.Proofs.Tree.Nodes

/-!
# The shape of a tree

A node knows its children, and it knows separately where it hangs. `Tree.Coherent` says that the two
agree: what is listed below a node hangs there, each node is listed once at most, and what hangs
below a standing node is listed there. A node *stands* if it lies under one that hangs at the top:
the document, or a node that was made and has not been hung in yet. In a `Tree.Sound` tree, as it is
between two edits, only the document hangs at the top, so that standing is lying in the document.

`Tree.Under` is the order of a node and what lies below it, by the lists of children. In a coherent
tree each standing node has one depth (`Coherent.depth_unique`), less than the size of the table
(`Coherent.depth_lt`): a way down meets no node twice. So a standing node is live, and the liveness
check, which goes by links, finds exactly the standing nodes (`Coherent.isLive_iff`).
-/

namespace LiveSpec.Markup.Tree

/-- The node `x` is `a`, or lies below it. -/
inductive Under (t : Tree) (a : NodeId) : NodeId → Prop
  | self : Under t a a
  | child {p c : NodeId} : Under t a p → c ∈ (t.node p).children → Under t a c

/-- A node of the table that hangs at the top. -/
structure IsTop (t : Tree) (r : NodeId) : Prop where
  lt : r < t.nodes.size
  link : (t.node r).link = .top

/-- A node that lies under one that hangs at the top. -/
def Standing (t : Tree) (n : NodeId) : Prop := ∃ r, t.IsTop r ∧ t.Under r n

/-- A tree whose links agree with its lists of children. -/
structure Coherent (t : Tree) : Prop where
  root_content : (t.node documentId).content = .document
  root_top : t.IsTop documentId
  top_alive {r : NodeId} : t.IsTop r → (t.node r).destroyed = false
  child_lt {p c : NodeId} : c ∈ (t.node p).children → c < t.nodes.size
  child_link {p c : NodeId} : c ∈ (t.node p).children → (t.node c).link = .below p
  child_alive {p c : NodeId} : c ∈ (t.node p).children → (t.node c).destroyed = false
  nodup (p : NodeId) : (t.node p).children.Nodup
  parent_lt {n p : NodeId} : (t.node n).link = .below p → p < t.nodes.size
  listed {n p : NodeId} : (t.node n).link = .below p → t.Standing p → n ∈ (t.node p).children

/-- A tree between two edits: nothing but the document hangs at the top. -/
structure Sound (t : Tree) : Prop extends t.Coherent where
  top_only {n : NodeId} : n < t.nodes.size → (t.node n).link = .top → n = documentId

variable {t : Tree} {a b c p q r x : NodeId} {d k : Nat}

/-! ## The order of nodes -/

theorem Under.trans (hab : t.Under a b) (hbc : t.Under b c) : t.Under a c := by
  induction hbc with
  | self => exact hab
  | child _ hc ih => exact .child ih hc

/-- A child lies under its parent. -/
theorem Under.of_mem_children (h : c ∈ (t.node p).children) : t.Under p c := .child .self h

/-- What lies under a node is the node itself, or lies under one of its children. -/
theorem Under.eq_or_below (h : t.Under a x) : x = a ∨ ∃ c ∈ (t.node a).children, t.Under c x := by
  induction h with
  | self => exact .inl rfl
  | @child p c _ hc ih =>
    rcases ih with rfl | ⟨c', hc', hp⟩
    · exact .inr ⟨c, hc, .self⟩
    · exact .inr ⟨c', hc', .child hp hc⟩

theorem IsTop.standing (h : t.IsTop r) : t.Standing r := ⟨r, h, .self⟩

/-- What lies under a standing node stands. -/
theorem Standing.under (h : t.Standing p) (hx : t.Under p x) : t.Standing x := by
  obtain ⟨r, hr, hp⟩ := h
  exact ⟨r, hr, hp.trans hx⟩

/-- A child of a standing node stands. -/
theorem Standing.child (h : t.Standing p) (hc : c ∈ (t.node p).children) : t.Standing c :=
  h.under (.of_mem_children hc)

/-! ## Depth -/

/-- The number of steps from a top node down to a node. -/
inductive Depth (t : Tree) : NodeId → Nat → Prop
  | top {r : NodeId} : t.IsTop r → Depth t r 0
  | child {p c : NodeId} {d : Nat} : Depth t p d → c ∈ (t.node p).children → Depth t c (d + 1)

/-- What stands has a depth. -/
theorem Standing.depth (h : t.Standing x) : ∃ d, t.Depth x d := by
  obtain ⟨r, hr, hx⟩ := h
  induction hx with
  | self => exact ⟨0, .top hr⟩
  | child _ hc ih =>
    obtain ⟨d, hd⟩ := ih
    exact ⟨d + 1, .child hd hc⟩

/-- What has a depth stands. -/
theorem Depth.standing (h : t.Depth x d) : t.Standing x := by
  induction h with
  | top hr => exact hr.standing
  | child _ hc ih => exact ih.child hc

/-- Going down from a node adds to its depth, and adds nothing only at the node itself. -/
theorem Depth.under (ha : t.Depth a d) (h : t.Under a x) : ∃ k, t.Depth x (d + k) ∧
    (k = 0 → x = a) := by
  induction h with
  | self => exact ⟨0, ha, fun _ => rfl⟩
  | child _ hc ih =>
    obtain ⟨k, hk, -⟩ := ih
    exact ⟨k + 1, .child hk hc, fun h => absurd h (Nat.succ_ne_zero k)⟩

namespace Coherent

variable (ht : t.Coherent)
include ht

/-- A node is a child of one node at most. -/
theorem parent_unique (hp : c ∈ (t.node p).children) (hq : c ∈ (t.node q).children) : p = q :=
  Link.below.inj ((ht.child_link hp).symm.trans (ht.child_link hq))

/-- A top is no child. -/
theorem top_not_listed (hr : t.IsTop r) : r ∉ (t.node p).children := fun h => by
  have := (ht.child_link h).symm.trans hr.link
  cases this

/-- What stands and is listed is listed below a standing node. -/
theorem standing_parent (hx : t.Standing c) (hc : c ∈ (t.node p).children) : t.Standing p := by
  obtain ⟨r, hr, h⟩ := hx
  cases h with
  | self => exact absurd hc (ht.top_not_listed hr)
  | child hq hc' => exact ht.parent_unique hc hc' ▸ ⟨r, hr, hq⟩

/-- A node above a standing one stands. -/
theorem standing_of_under (h : t.Under a x) (hx : t.Standing x) : t.Standing a := by
  induction h with
  | self => exact hx
  | child _ hc ih => exact ih (ht.standing_parent hx hc)

/-- What stands is a node of the tree. -/
theorem standing_lt (h : t.Standing x) : x < t.nodes.size := by
  obtain ⟨r, hr, h⟩ := h
  cases h with
  | self => exact hr.lt
  | child _ hc => exact ht.child_lt hc

/-- What stands was not destroyed. -/
theorem standing_alive (h : t.Standing x) : (t.node x).destroyed = false := by
  obtain ⟨r, hr, h⟩ := h
  cases h with
  | self => exact ht.top_alive hr
  | child _ hc => exact ht.child_alive hc

/-- A node has one depth. -/
theorem depth_unique (h : t.Depth x d) (h' : t.Depth x k) : d = k := by
  induction h generalizing k with
  | top hr =>
    cases h' with
    | top => rfl
    | child _ hc => exact absurd hc (ht.top_not_listed hr)
  | child _ hc ih =>
    cases h' with
    | top hr => exact absurd hc (ht.top_not_listed hr)
    | child hp' hc' =>
      cases ht.parent_unique hc hc'
      exact congrArg (· + 1) (ih hp')

/-- The way down to a node of depth `d` passes `d + 1` nodes, all different. -/
theorem exists_path (h : t.Depth x d) :
    ∃ l : List NodeId, l.length = d + 1 ∧ l.Nodup ∧ ∀ y ∈ l, ∃ k ≤ d, t.Depth y k := by
  induction h with
  | @top r hr =>
    exact ⟨[r], rfl, by simp, fun y hy => ⟨0, Nat.le_refl 0, List.mem_singleton.mp hy ▸ .top hr⟩⟩
  | @child p c d hp hc ih =>
    obtain ⟨l, hlen, hnodup, hl⟩ := ih
    have hnew : c ∉ l := fun hmem => by
      obtain ⟨k, hk, hck⟩ := hl c hmem
      have := ht.depth_unique (.child hp hc) hck
      omega
    refine ⟨c :: l, by simp [hlen], List.nodup_cons.mpr ⟨hnew, hnodup⟩, fun y hy => ?_⟩
    rcases List.mem_cons.mp hy with rfl | hy
    · exact ⟨d + 1, Nat.le_refl _, .child hp hc⟩
    · obtain ⟨k, hk, hyk⟩ := hl y hy
      exact ⟨k, Nat.le_succ_of_le hk, hyk⟩

/-- The pigeonhole: a node lies less deep than the table is long. -/
theorem depth_lt (h : t.Depth x d) : d < t.nodes.size := by
  obtain ⟨l, hlen, hnodup, hl⟩ := ht.exists_path h
  have hsub : l ⊆ List.range t.nodes.size := fun y hy => by
    obtain ⟨k, -, hk⟩ := hl y hy
    exact List.mem_range.mpr (ht.standing_lt hk.standing)
  have hle := hnodup.length_le_of_subset hsub
  rw [List.length_range, hlen] at hle
  omega

/-- Two nodes that lie under each other are one. -/
theorem under_antisymm (ha : t.Standing a) (hab : t.Under a b) (hba : t.Under b a) : a = b := by
  obtain ⟨d, hd⟩ := ha.depth
  obtain ⟨k, hk, hk0⟩ := hd.under hab
  obtain ⟨k', hk', -⟩ := hk.under hba
  have := ht.depth_unique hd hk'
  exact (hk0 (by omega)).symm

/-- A standing node does not lie under its own child. -/
theorem not_under_child (hp : t.Standing p) (hc : c ∈ (t.node p).children) :
    ¬ t.Under c p := fun h => by
  obtain ⟨d, hd⟩ := hp.depth
  obtain ⟨k, hk, -⟩ := (Depth.child hd hc).under h
  have := ht.depth_unique hd hk
  omega

/-- Two nodes above the same standing node lie one under the other. -/
theorem under_total (hx : t.Standing x) (ha : t.Under a x) (hb : t.Under b x) :
    t.Under a b ∨ t.Under b a := by
  induction ha with
  | self => exact .inr hb
  | @child p c hp hc ih =>
    cases hb with
    | self => exact .inl (.child hp hc)
    | child hq hc' =>
      cases ht.parent_unique hc hc'
      exact ih (ht.standing_parent hx hc) hq

/-! ## Liveness -/

/-- One step up from a node below a standing one goes to the node that lists it. -/
theorem above_of_mem (hp : t.Standing p) (hc : c ∈ (t.node p).children) :
    t.above c = .parent p := by
  unfold above
  rw [ht.child_link hc]
  exact if_neg (by simp [ht.standing_alive hp])

omit ht in
/-- Above a top there is only the end of the tree. -/
theorem above_top (hr : t.IsTop r) : t.above r = .top := by
  unfold above; rw [hr.link]

/-- With more steps than its depth, a node reaches its top. -/
theorem reachesTop_of_depth (h : t.Depth x d) {fuel : Nat} (hf : d < fuel) :
    t.reachesTop fuel x = true := by
  induction h generalizing fuel with
  | top hr =>
    obtain ⟨f, rfl⟩ := Nat.exists_eq_succ_of_ne_zero (Nat.ne_of_gt hf)
    rw [reachesTop, above_top hr]
  | child hp hc ih =>
    obtain ⟨f, rfl⟩ :=
      Nat.exists_eq_succ_of_ne_zero (Nat.ne_of_gt (Nat.lt_of_le_of_lt (Nat.zero_le _) hf))
    rw [reachesTop, ht.above_of_mem hp.standing hc]
    exact ih (by omega)

omit ht in
/-- One step up follows the link to a node that is not destroyed. -/
theorem link_of_above (h : t.above x = .parent p) : (t.node x).link = .below p ∧
    (t.node p).destroyed = false := by
  unfold above at h
  cases hl : (t.node x).link with
  | top => rw [hl] at h; cases h
  | cut => rw [hl] at h; cases h
  | below q =>
    rw [hl] at h
    dsimp only at h
    cases hd : (t.node q).destroyed with
    | true => rw [hd] at h; cases h
    | false => rw [hd] at h; cases h; exact ⟨rfl, hd⟩

/-- A node of the tree that reaches a top stands. -/
theorem standing_of_reachesTop {fuel : Nat} (h : t.reachesTop fuel x = true)
    (hx : x < t.nodes.size) :
    t.Standing x := by
  induction fuel generalizing x with
  | zero => cases h
  | succ fuel ih =>
    rw [reachesTop] at h
    cases hup : t.above x with
    | lost => rw [hup] at h; cases h
    | top =>
      refine IsTop.standing ⟨hx, ?_⟩
      unfold above at hup
      split at hup <;> first | assumption | cases hup | (split at hup <;> cases hup)
    | parent p =>
      rw [hup] at h
      obtain ⟨hl, -⟩ := link_of_above hup
      have hp := ih h (ht.parent_lt hl)
      exact hp.child (ht.listed hl hp)

/-- **The liveness check finds the standing nodes.** -/
theorem isLive_iff (hx : x < t.nodes.size) : t.isLive x = true ↔ t.Standing x := by
  refine ⟨fun h => ht.standing_of_reachesTop h hx, fun h => ?_⟩
  obtain ⟨d, hd⟩ := h.depth
  exact ht.reachesTop_of_depth hd (Nat.lt_succ_of_lt (ht.depth_lt hd))

/-- What stands is live. -/
theorem isLive_of_standing (h : t.Standing x) : t.isLive x = true :=
  (ht.isLive_iff (ht.standing_lt h)).mpr h

end Coherent

/-- What stands hangs at the top, or is listed below a node that stands. -/
theorem Standing.isTop_or_listed (h : t.Standing x) : t.IsTop x ∨ ∃ p, t.Standing p ∧
    x ∈ (t.node p).children := by
  obtain ⟨r, hr, h⟩ := h
  cases h with
  | self => exact .inl hr
  | child hp hc => exact .inr ⟨_, ⟨r, hr, hp⟩, hc⟩

/-- One step up from a standing node goes to a standing node that lists it. -/
theorem Coherent.listed_of_above (ht : t.Coherent) (hx : t.Standing x) (h : t.above x = .parent p) :
    t.Standing p ∧ x ∈ (t.node p).children := by
  have hl := (link_of_above h).1
  rcases hx.isTop_or_listed with htop | ⟨q, hq, hmem⟩
  · exact absurd (htop.link.symm.trans hl) (by simp)
  · have : q = p := Link.below.inj ((ht.child_link hmem).symm.trans hl)
    exact this ▸ ⟨hq, hmem⟩

/-- A sound tree has one top, the document. -/
theorem Sound.eq_document (ht : t.Sound) (h : t.IsTop r) : r = documentId := ht.top_only h.lt h.link

/-- A coherent tree with no other top than the document is sound. -/
theorem Coherent.sound_of_tops (ht : t.Coherent)
    (h : ∀ {r}, t.IsTop r → r = documentId) : t.Sound :=
  ⟨ht, fun hlt hlink => h ⟨hlt, hlink⟩⟩

/-- In a sound tree the standing nodes are those of the document. -/
theorem Sound.standing_iff (ht : t.Sound) : t.Standing x ↔ t.Under documentId x := by
  constructor
  · rintro ⟨r, hr, h⟩
    exact ht.eq_document hr ▸ h
  · exact fun h => ⟨documentId, ht.root_top, h⟩

/-- In a sound tree a standing node other than the document is listed below a standing one. -/
theorem Sound.exists_parent (ht : t.Sound) (h : t.Standing x) (hx : x ≠ documentId) :
    ∃ p, t.Standing p ∧ x ∈ (t.node p).children :=
  h.isTop_or_listed.resolve_left fun htop => hx (ht.eq_document htop)

/-! ## Elements -/

/-- An element stands in the table. -/
theorem lt_size_of_isElement (h : t.isElement x = true) : x < t.nodes.size := by
  refine Nat.lt_of_not_le fun hle => ?_
  unfold isElement at h
  rw [node_of_size_le _ _ hle] at h
  cases h

/-- The document is no element. -/
theorem Coherent.ne_document (ht : t.Coherent) (h : t.isElement x = true) : x ≠ documentId := by
  rintro rfl
  unfold isElement at h
  rw [ht.root_content] at h
  cases h

/-! ## Checking a tree -/

/-- A node agrees with the nodes that it lists and with the one that it hangs below. -/
def Agrees (t : Tree) (n : NodeId) : Prop :=
  (t.node n).children.Nodup ∧ (t.node n).destroyed = false ∧
  (∀ c ∈ (t.node n).children, c < t.nodes.size ∧ (t.node c).link = .below n) ∧
  match (t.node n).link with
  | .top => n = documentId
  | .below p => p < t.nodes.size ∧ n ∈ (t.node p).children
  | .cut => True

instance {t : Tree} {n : NodeId} : Decidable (t.Agrees n) := by
  unfold Agrees
  cases (t.node n).link <;> infer_instance

/-- A tree all of whose nodes agree is sound. -/
theorem sound_of_agrees (hroot : (t.node documentId).content = .document)
    (htop : documentId < t.nodes.size ∧ (t.node documentId).link = .top)
    (h : ∀ n < t.nodes.size, t.Agrees n) :
    t.Sound := by
  have hchild : ∀ {p c}, c ∈ (t.node p).children → c < t.nodes.size ∧
      (t.node c).link = .below p := by
    intro p c hc
    refine (h p (Nat.lt_of_not_le fun hle => ?_)).2.2.1 c hc
    rw [node_of_size_le _ _ hle] at hc
    cases hc
  have hlink : ∀ {n p}, (t.node n).link = .below p → p < t.nodes.size ∧
      n ∈ (t.node p).children := by
    intro n p hl
    have hn : n < t.nodes.size := Nat.lt_of_not_le fun hle => by
      rw [node_of_size_le _ _ hle] at hl
      cases hl
    have := (h n hn).2.2.2
    rwa [hl] at this
  refine
    { root_content := hroot, root_top := ⟨htop.1, htop.2⟩, top_alive := fun hr => (h _ hr.lt).2.1,
      child_lt := fun hc => (hchild hc).1, child_link := fun hc => (hchild hc).2,
      child_alive := fun hc => (h _ (hchild hc).1).2.1, nodup := fun p => ?_, parent_lt :=
        fun hl => (hlink hl).1,
      listed := fun hl _ => (hlink hl).2, top_only := fun {n} hn hl => ?_ }
  · rcases Nat.lt_or_ge p t.nodes.size with hp | hp
    · exact (h p hp).1
    · rw [node_of_size_le _ _ hp]
      exact List.nodup_nil
  · have := (h n hn).2.2.2
    rwa [hl] at this

end LiveSpec.Markup.Tree
