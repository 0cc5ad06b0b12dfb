import LiveSpec.Proofs.Tree.Edits

/-!
# Letting go changes nothing that stands

`Tree.release` destroys the nodes that are neither listed below another one nor held. In a sound
tree such a node does not stand, and neither does what lies below it. So a standing node stays as it
is, whatever is held (`Sound.released`).
-/

namespace LiveSpec.Markup.Tree

variable {t t' : Tree} {n m p u x : NodeId} {held : NodeId → Bool}

/-- Two trees that differ only in nodes that do not stand: they may have been destroyed and lost
children. -/
structure Released (t t' : Tree) : Prop where
  size : t'.nodes.size = t.nodes.size
  content (n : NodeId) : (t'.node n).content = (t.node n).content
  link (n : NodeId) : (t'.node n).link = (t.node n).link
  children (p : NodeId) : ((t'.node p).children).Sublist (t.node p).children
  node {x : NodeId} : t.Standing x → t'.node x = t.node x
  sound : t.Sound → t'.Sound

namespace Released

theorem refl : t.Released t := ⟨rfl, fun _ => rfl, fun _ => rfl, fun _ => .refl _, fun _ => rfl, id⟩

/-- A release makes no top and takes none away. -/
theorem isTop_iff (h : t.Released t') : t'.IsTop x ↔ t.IsTop x :=
  ⟨fun c => ⟨h.size ▸ c.lt, h.link x ▸ c.link⟩,
    fun c => ⟨h.size.symm ▸ c.lt, (h.link x).trans c.link⟩⟩

/-- What stands is what stood. -/
theorem standing_iff (h : t.Released t') : t'.Standing x ↔ t.Standing x := by
  constructor
  · exact .of_closed (fun hr => (h.isTop_iff.mp hr).standing) fun hp hc =>
      hp.child ((h.children _).subset hc)
  · -- the way down to a standing node passes standing nodes only, and these keep their children
    intro hx
    refine (hx.of_closed (S := fun y => t.Standing y ∧
      t'.Standing y) (fun hr => ?_) fun hp hc => ?_).2
    · exact ⟨hr.standing, (h.isTop_iff.mpr hr).standing⟩
    · exact ⟨hp.1.child hc, hp.2.child (h.node hp.1 ▸ hc)⟩

theorem trans {t'' : Tree} (h : t.Released t') (h' : t'.Released t'') : t.Released t'' where
  size := h'.size.trans h.size
  content n := (h'.content n).trans (h.content n)
  link n := (h'.link n).trans (h.link n)
  children p := (h'.children p).trans (h.children p)
  node hx := (h'.node (h.standing_iff.mpr hx)).trans (h.node hx)
  sound ht := h'.sound (h.sound ht)

end Released

/-! ## Destroying one node -/

/-- What is listed below a node lies under it. -/
theorem under_of_mem_below {fuel : Nat} (h : x ∈ t.below fuel n) : t.Under n x := by
  induction fuel generalizing n with
  | zero => cases h
  | succ fuel ih =>
    rw [below, List.mem_flatMap] at h
    obtain ⟨c, hc, hx⟩ := h
    rcases List.mem_cons.mp hx with rfl | hx
    · exact .of_mem_children hc
    · exact (Under.of_mem_children hc).trans (ih hx)

/-- The lists of children of several nodes, emptied one after the other. -/
theorem node_foldl_empty (ns : List NodeId) (t : Tree) :
    (ns.foldl (fun t c => t.modifyChildren c fun _ => []) t).node m =
      if m ∈ ns then { t.node m with children := [] } else t.node m := by
  induction ns generalizing t with
  | nil => simp
  | cons c ns ih =>
    have hstep : (t.modifyChildren c fun _ => []).node m =
        if c = m then { t.node m with children := [] } else t.node m :=
      node_modify_of_fresh _ _ _ _ rfl
    rw [List.foldl_cons, ih, hstep]
    by_cases hc : c = m
    · by_cases hm : m ∈ ns <;> simp [hc, hm]
    · by_cases hm : m ∈ ns <;> simp [hc, hm, Ne.symm hc]

theorem size_foldl_empty (ns : List NodeId) (t : Tree) :
    (ns.foldl (fun t c => t.modifyChildren c fun _ => []) t).nodes.size = t.nodes.size := by
  induction ns generalizing t with
  | nil => rfl
  | cons c ns ih => exact (ih _).trans (size_modifyChildren ..)

@[simp] theorem size_destroy : (t.destroy n).nodes.size = t.nodes.size :=
  (size_modify ..).trans (size_foldl_empty ..)

/-- A destroyed node, and what lay below it: all of them lose their children. -/
theorem node_destroy (t : Tree) (u m : NodeId) : (t.destroy u).node m =
    { t.node m with
      children := if m ∈ u :: t.below (t.nodes.size + 1) u then [] else (t.node m).children
      destroyed := if u = m ∧ m < t.nodes.size then true else (t.node m).destroyed } := by
  unfold destroy
  rw [node_modify, node_foldl_empty, size_foldl_empty]
  by_cases hm : u = m
  · subst hm
    by_cases hlt : u < t.nodes.size
    · by_cases hb : u ∈ t.below (t.nodes.size + 1) u <;> simp [hlt, hb]
    · by_cases hb : u ∈ t.below (t.nodes.size + 1) u <;>
        simp [hlt, hb, node_of_size_le t u (Nat.not_lt.mp hlt), Node.fresh]
  · by_cases hb : m ∈ t.below (t.nodes.size + 1) u <;> simp [hm, hb, Ne.symm hm]

/-- Destroying a node empties nodes under it and marks that one, and changes nothing else. -/
theorem destroy_eq (t : Tree) (u : NodeId) : ∃ emptied : List NodeId, (∀ x ∈ emptied, t.Under u x) ∧
    u ∈ emptied ∧
    ∀ m, (t.destroy u).node m =
      { t.node m with
        children := if m ∈ emptied then [] else (t.node m).children
        destroyed := if u = m ∧ m < t.nodes.size then true else (t.node m).destroyed } := by
  refine ⟨u :: t.below (t.nodes.size + 1) u, fun x hx => ?_, List.mem_cons_self,
    fun m => node_destroy t u m⟩
  rcases List.mem_cons.mp hx with rfl | hx
  · exact .self
  · exact under_of_mem_below hx

/-- A node that nothing lists and that does not stand: its destruction changes nothing that stands.
-/
structure Forsaken (t : Tree) (u : NodeId) : Prop where
  unlisted (p : NodeId) : u ∉ (t.node p).children
  fallen : ¬ t.Standing u

/-- Destroying a forsaken node only prunes the tree. -/
theorem Coherent.pruned_destroy (ht : t.Coherent) (hu : t.Forsaken u) : t.Pruned (t.destroy u) := by
  obtain ⟨emptied, hunder, -, hnode⟩ := destroy_eq t u
  have hchildren : ∀ p, ((t.destroy u).node p).children = if p ∈ emptied then [] else
      (t.node p).children :=
    fun p => by rw [hnode]
  have hlink : ∀ m, ((t.destroy u).node m).link = (t.node m).link := fun m => by rw [hnode]
  have halive :
      ∀ m, m ≠ u → ((t.destroy u).node m).destroyed = (t.node m).destroyed := fun m hm => by
    rw [hnode]; simp [Ne.symm hm]
  have hsub : ∀ p, ((t.destroy u).node p).children.Sublist (t.node p).children := fun p => by
    rw [hchildren]
    split
    · exact List.nil_sublist _
    · exact .refl _
  refine ⟨?_, fun m => ?_, fun m => .inl (hlink m), hsub, fun {p c} _ => hlink c,
    fun {p c} hc => ?_,
    fun {r} hr => ?_, fun {p c} hc hgone => ?_⟩
  · exact (size_modify ..).trans (size_foldl_empty ..)
  · rw [hnode]
  · exact halive c fun h => hu.unlisted p (h ▸ (hsub p).subset hc)
  · exact halive r fun h => hu.fallen (h ▸ hr.standing)
  · rw [hchildren] at hgone
    split at hgone
    · next hp => exact .inr fun h => hu.fallen (ht.standing_of_under (hunder p hp) h)
    · exact absurd hc hgone

/-- No standing node is touched by it. -/
theorem Coherent.node_destroy (ht : t.Coherent) (hu : t.Forsaken u) (hx : t.Standing x) :
    (t.destroy u).node x = t.node x := by
  obtain ⟨emptied, hunder, hself, hnode⟩ := destroy_eq t u
  have hin : x ∉ emptied := fun h => hu.fallen (ht.standing_of_under (hunder x h) hx)
  have hne : u ≠ x := fun h => hin (h ▸ hself)
  rw [hnode]
  simp [hin, hne]

/-- So it is a release. -/
theorem Sound.released_destroy (ht : t.Sound) (hu : t.Forsaken u) : t.Released (t.destroy u) := by
  have hp := ht.pruned_destroy hu
  obtain ⟨emptied, -, -, hnode⟩ := destroy_eq t u
  refine ⟨hp.size, hp.content, fun m => ?_, hp.children, fun hx => ht.node_destroy hu hx, hp.sound⟩
  rw [hnode]

/-- Nodes that are destroyed together: none of them becomes listed while the others go. -/
theorem Sound.released_foldl_destroy (ht : t.Sound) (us : List NodeId)
    (hus : ∀ u ∈ us, t.Forsaken u) :
    t.Released (us.foldl destroy t) := by
  induction us generalizing t with
  | nil => exact .refl
  | cons u us ih =>
    have hstep := ht.released_destroy (hus u List.mem_cons_self)
    refine hstep.trans (ih (hstep.sound ht) fun v hv => ?_)
    have hv := hus v (List.mem_cons_of_mem u hv)
    exact ⟨fun p h => hv.unlisted p ((hstep.children p).subset h),
      fun h => hv.fallen (hstep.standing_iff.mp h)⟩

/-! ## Contents

Destroying nodes changes the content of none, whatever the shape of the tree. -/

/-- A tree with the same nodes as far as their contents are concerned. -/
structure SameContents (t t' : Tree) : Prop where
  size_le : t.nodes.size ≤ t'.nodes.size
  content {n : NodeId} : n < t.nodes.size → (t'.node n).content = (t.node n).content

theorem SameContents.refl : t.SameContents t := ⟨Nat.le_refl _, fun _ => rfl⟩

theorem SameContents.trans {t'' : Tree} (h : t.SameContents t') (h' : t'.SameContents t'') :
    t.SameContents t'' :=
  ⟨Nat.le_trans h.size_le h'.size_le,
    fun hn => (h'.content (Nat.lt_of_lt_of_le hn h.size_le)).trans (h.content hn)⟩

/-- Destroying a node changes no content. -/
theorem sameContents_destroy : t.SameContents (t.destroy u) := by
  obtain ⟨emptied, -, -, hnode⟩ := destroy_eq t u
  refine ⟨Nat.le_of_eq ((size_modify ..).trans (size_foldl_empty ..)).symm, fun {n} _ => ?_⟩
  rw [hnode]

/-- What the destruction of any node keeps, letting go keeps. -/
theorem releaseWithin_keeps {P : Tree → Prop}
    (hdestroy : ∀ {t : Tree} {u : NodeId}, P t → P (t.destroy u)) {fuel : Nat} (h : P t) :
    P (t.releaseWithin held fuel) := by
  have hfold : ∀ {us : List NodeId} {t : Tree}, P t → P (us.foldl destroy t) := fun {us t} ht => by
    induction us generalizing t with
    | nil => exact ht
    | cons u us ih => exact ih (hdestroy ht)
  induction fuel generalizing t with
  | zero => exact h
  | succ fuel ih =>
    unfold releaseWithin
    split
    · exact h
    · exact ih (hfold h)

/-- Nor does a release. -/
theorem sameContents_release : t.SameContents (t.release held) :=
  releaseWithin_keeps (fun h => h.trans sameContents_destroy) .refl

/-! ## Finding the nodes to destroy -/

theorem size_foldl_mark (cs : List NodeId) (a : Array Bool) :
    (cs.foldl (fun a c => a.set! c true) a).size = a.size := by
  induction cs generalizing a with
  | nil => rfl
  | cons c cs ih => exact (ih _).trans (by simp)

/-- A mark stays, and each node of the list gets one. -/
theorem getD_foldl_mark {cs : List NodeId} {a : Array Bool} (hn : n < a.size) :
    (cs.foldl (fun a c => a.set! c true) a).getD n false = true ↔
      a.getD n false = true ∨ n ∈ cs := by
  induction cs generalizing a with
  | nil => simp
  | cons c cs ih =>
    have hset : (a.set! c true).getD n false = true ↔ a.getD n false = true ∨ n = c := by
      by_cases hc : c = n
      · simp [hc, hn]
      · simp [hc, Ne.symm hc]
    rw [List.foldl_cons, ih (by simpa using hn), hset, List.mem_cons, or_assoc]

/-- The children of all nodes are marked. -/
theorem getD_foldl_children {xs : List Node} {a : Array Bool} (hn : n < a.size) :
    (xs.foldl (fun a x => x.children.foldl (fun a c => a.set! c true) a) a).getD n false = true ↔
      a.getD n false = true ∨ ∃ x ∈ xs, n ∈ x.children := by
  induction xs generalizing a with
  | nil => simp
  | cons x xs ih =>
    rw [List.foldl_cons, ih (by rwa [size_foldl_mark]), getD_foldl_mark hn, or_assoc]
    simp

/-- What is found unreachable: what is neither the document nor destroyed, and neither listed nor
held. -/
theorem mem_unreachable : u ∈ t.unreachable held ↔ u < t.nodes.size ∧ u ≠ documentId ∧
    (t.node u).destroyed = false ∧ (∀ p, u ∉ (t.node p).children) ∧ held u = false := by
  unfold unreachable
  rw [List.mem_filter, List.mem_range]
  refine and_congr_right fun hlt => ?_
  have hlisted :
      (t.nodes.foldl (fun marks x => x.children.foldl (fun marks c => marks.set! c true) marks)
      (Array.replicate t.nodes.size false)).getD u false = true ↔ ∃ p, u ∈ (t.node p).children := by
    rw [← Array.foldl_toList, getD_foldl_children (by simpa using hlt)]
    constructor
    · rintro (hmark | ⟨x, hx, hu⟩)
      · simp [hlt] at hmark
      · obtain ⟨p, hp, rfl⟩ := List.mem_iff_getElem.mp hx
        refine ⟨p, ?_⟩
        rw [Array.length_toList] at hp
        simpa [node, hp] using hu
    · rintro ⟨p, hp⟩
      exact .inr ⟨t.node p, by simp [node, lt_size_of_mem_children hp], hp⟩
  have hunlisted : (∀ p, u ∉ (t.node p).children) ↔ ¬ ∃ p, u ∈ (t.node p).children :=
    not_exists.symm
  rw [hunlisted, ← hlisted]
  simp [and_assoc]

/-- In a sound tree, what nothing reaches is forsaken. -/
theorem Sound.forsaken_of_unreachable (ht : t.Sound) (hu : u ∈ t.unreachable held) :
    t.Forsaken u := by
  obtain ⟨-, hne, -, hun, -⟩ := mem_unreachable.mp hu
  refine ⟨hun, fun h => ?_⟩
  obtain ⟨p, -, hp⟩ := ht.exists_parent h hne
  exact hun p hp

/-- So any number of rounds is a release. -/
theorem Sound.released_releaseWithin {fuel : Nat} (ht : t.Sound) :
    t.Released (t.releaseWithin held fuel) := by
  induction fuel generalizing t with
  | zero => exact .refl
  | succ fuel ih =>
    unfold releaseWithin
    split
    · exact .refl
    · next ns _ =>
      have hstep := ht.released_foldl_destroy (t.unreachable held) fun u hu =>
        ht.forsaken_of_unreachable hu
      exact hstep.trans (ih (hstep.sound ht))

/-- **Letting go changes nothing that stands**, whatever is held. -/
theorem Sound.released (ht : t.Sound) : t.Released (t.release held) := ht.released_releaseWithin

end LiveSpec.Markup.Tree
