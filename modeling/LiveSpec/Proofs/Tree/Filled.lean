import LiveSpec.Proofs.Tree.Linked
import LiveSpec.Proofs.Tree.Branch

/-!
# A text put into an element

When a text replaces the content of an element, the element shows that text and nothing else
(`filled_setText`). The nodes that were in it are let go afterwards, with all below them.

A node is spared by that if everything above it is in reach: listed, held, destroyed long since, or
the document. Destroying what is out of reach takes no such node away, round after round
(`InReach.node_release`), and replacing the content of a node takes nothing out of reach that is
above it (`InReach.setText`), since no node is above itself. So the element still shows the text
when the old content is gone.
-/

namespace LiveSpec.Markup.Tree

variable {t : Tree} {gone : NodeId → Prop} {held : NodeId → Bool} {n m a x : NodeId} {s : String}
  {us : List NodeId}

/-! ## What the element shows -/

/-- An element whose only content is a text; an empty text is no content. -/
def Filled (t : Tree) (n : NodeId) (s : String) : Prop :=
  (t.node n).children.map (fun c => (t.node c).content) = if s = "" then [] else [.text s]

theorem filled_setText (hn : n < t.nodes.size) (s : String) : (t.setText n s).Filled n s := by
  have hchildren : ((t.cutChildren n).node n).children = [] := by rw [node_cutChildren, if_pos rfl]
  unfold Filled Tree.setText
  dsimp only
  split
  · rw [hchildren]
    rfl
  · rw [appendText_eq, node_hang_add _ _ (by simpa using hn),
      if_neg (by simpa using Nat.ne_of_lt hn), if_pos rfl, hchildren,
      List.nil_append, List.map_singleton, node_hang_add _ _ (by simpa using hn), if_pos rfl]

theorem Filled.text (h : t.Filled n s) : t.text n = s := by
  unfold Tree.text Tree.textWithin
  cases hchildren : (t.node n).children with
  | nil =>
    rw [Filled, hchildren] at h
    split at h
    · next he => rw [he]; rfl
    · cases h
  | cons c cs =>
    rw [Filled, hchildren] at h
    split at h
    · cases h
    · obtain ⟨hc, hcs⟩ := List.cons.inj h
      obtain rfl := List.map_eq_nil_iff.mp hcs
      dsimp only at hc
      simp [hc]

/-- A text that replaces the content of an element is the text of the element. -/
theorem text_setText (hn : n < t.nodes.size) (s : String) : (t.setText n s).text n = s :=
  (filled_setText hn s).text

/-! ## What stays in reach -/

/-- Neither a node nor any node that it lies under is out of reach. -/
def InReach (t : Tree) (held : NodeId → Bool) (n : NodeId) : Prop :=
  ∀ a, t.Under a n → a ∉ t.unreachable held

/-- What stands in a sound tree is in reach, whatever is held. -/
theorem Sound.inReach (ht : t.Sound) (hn : t.Standing n) : t.InReach held n := fun _ ha hun =>
  (ht.forsaken_of_unreachable hun).fallen (ht.toCoherent.standing_of_under ha hn)

theorem InReach.above (h : t.InReach held n) (ha : t.Under a n) : t.InReach held a :=
  fun _ hb => h _ (hb.trans ha)

/-- What is in reach is in reach if more is held. -/
theorem InReach.mono {held' : NodeId → Bool} (h : t.InReach held n)
    (hmore : ∀ m < t.nodes.size, held m = true → held' m = true) : t.InReach held' n := by
  intro a hunder hun
  obtain ⟨hlt, hne, halive, hunlisted, hheld⟩ := mem_unreachable.mp hun
  refine h a hunder (mem_unreachable.mpr ⟨hlt, hne, halive, hunlisted,
    Bool.eq_false_iff.mpr fun hm => ?_⟩)
  rw [hmore a hlt hm] at hheld
  cases hheld

theorem children_destroy_subset (t : Tree) (u p : NodeId) :
    ((t.destroy u).node p).children ⊆ (t.node p).children := by
  rw [node_destroy]
  dsimp only
  split
  · exact List.nil_subset _
  · exact List.Subset.refl _

/-- Destroying nodes leaves alone what lies under none of them. -/
theorem node_foldl_destroy (h : ∀ u ∈ us, ¬ t.Under u x) :
    (us.foldl destroy t).node x = t.node x := by
  induction us generalizing t with
  | nil => rfl
  | cons u us ih =>
    have hu := h u List.mem_cons_self
    have hstep : (t.destroy u).node x = t.node x := by
      obtain ⟨emptied, hunder, hself, hnode⟩ := destroy_eq t u
      have hin : x ∉ emptied := fun hx => hu (hunder x hx)
      have hne : u ≠ x := fun he => hin (he ▸ hself)
      rw [hnode]
      simp [hin, hne]
    rw [List.foldl_cons, ih fun v hv hx =>
      h v (List.mem_cons_of_mem u hv) (hx.mono (children_destroy_subset t u)), hstep]

theorem under_of_foldl_destroy (h : (us.foldl destroy t).Under a x) : t.Under a x := by
  induction us generalizing t with
  | nil => exact h
  | cons u us ih => exact (ih h).mono (children_destroy_subset t u)

/-- One round of letting go: what is in reach is left alone and stays in reach. -/
theorem InReach.node_round (h : t.InReach held n) :
    ((t.unreachable held).foldl destroy t).node n = t.node n :=
  node_foldl_destroy fun u hu hunder => h u hunder hu

theorem InReach.round (h : t.InReach held n) :
    ((t.unreachable held).foldl destroy t).InReach held n := by
  intro a hunder hun
  have ha := h.above (under_of_foldl_destroy hunder)
  obtain ⟨hlt, hne, hdestroyed, hunlisted, hheld⟩ := mem_unreachable.mp hun
  rw [ha.node_round] at hdestroyed
  refine ha a .self (mem_unreachable.mpr ⟨lt_size_of_foldl hlt, hne, hdestroyed,
    fun p hp => ?_, hheld⟩)
  -- what listed it before is above it, so it lists it still
  refine hunlisted p ?_
  rw [(ha.above (.of_mem_children hp)).node_round]
  exact hp
where
  lt_size_of_foldl {us : List NodeId} {t : Tree} {a : NodeId}
    (h : a < (us.foldl destroy t).nodes.size) :
      a < t.nodes.size := by
    induction us generalizing t with
    | nil => exact h
    | cons u us ih => exact size_destroy (t := t) (n := u) ▸ ih h

theorem InReach.node_releaseWithin {fuel : Nat} (h : t.InReach held n) :
    (t.releaseWithin held fuel).node n = t.node n := by
  induction fuel generalizing t with
  | zero => rfl
  | succ fuel ih =>
    unfold releaseWithin
    split
    · rfl
    · rw [ih h.round, h.node_round]

/-- **Letting go leaves alone what is in reach.** -/
theorem InReach.node_release (h : t.InReach held n) : (t.release held).node n = t.node n :=
  h.node_releaseWithin

/-! ## Replacing the content and letting go of it -/

theorem destroyed_setText (hn : n < t.nodes.size) (hm : m < t.nodes.size) :
    ((t.setText n s).node m).destroyed = (t.node m).destroyed := by
  have hcut : ((t.cutChildren n).node m).destroyed = (t.node m).destroyed := by
    rw [node_cutChildren]
  unfold Tree.setText
  dsimp only
  split
  · exact hcut
  · rw [appendText_eq, node_hang_add _ _ (by simpa using hn), size_cutChildren,
      if_neg (Nat.ne_of_lt hm)]
    split
    · next he =>
      subst he
      exact hcut
    · exact hcut

theorem under_of_setText (hn : n < t.nodes.size) (hx : x < t.nodes.size)
    (h : (t.setText n s).Under a x) : t.Under a x := by
  induction h with
  | self => exact .self
  | child _ hmem ih =>
    have hmem := mem_children_of_setText hn hx hmem
    exact .child (ih (lt_size_of_mem_children hmem)) hmem

/-- Replacing the content of an element keeps it in reach. -/
theorem InReach.setText (h : t.InReach held n) (ht : t.Linked gone) (hn : n < t.nodes.size)
    (s : String) :
    (t.setText n s).InReach held n := by
  intro a hunder hun
  have ha := under_of_setText hn hn hunder
  have hlt : a < t.nodes.size := by
    rcases ha.eq_or_below with rfl | ⟨c, hc, -⟩
    · exact hn
    · exact lt_size_of_mem_children hc
  obtain ⟨-, hne, hdestroyed, hunlisted, hheld⟩ := mem_unreachable.mp hun
  rw [destroyed_setText hn hlt] at hdestroyed
  refine h a ha (mem_unreachable.mpr ⟨hlt, hne, hdestroyed, fun p hp => ?_, hheld⟩)
  by_cases hpn : p = n
  · exact ht.acyclic (hpn ▸ hp) ha
  · refine hunlisted p ?_
    rw [children_setText hn (lt_size_of_mem_children hp) hpn]
    exact hp

theorem content_release (t : Tree) (held : NodeId → Bool) (m : NodeId) :
    ((t.release held).node m).content = (t.node m).content := by
  rcases Nat.lt_or_ge m t.nodes.size with hm | hm
  · exact sameContents_release.content hm
  · rw [node_of_size_le t m hm, node_of_size_le _ m ((Dropped.release held).size.symm ▸ hm)]

/-- **An element shows the text that was put into it** when the content that it had is let go. -/
theorem filled_release_setText (ht : t.Linked gone) (hn : n < t.nodes.size) (s : String)
    (hreach : t.InReach held n) : ((t.setText n s).release held).Filled n s := by
  have hfilled := filled_setText hn s
  unfold Filled at hfilled ⊢
  rw [(hreach.setText ht hn s).node_release]
  simpa only [content_release] using hfilled

end LiveSpec.Markup.Tree
