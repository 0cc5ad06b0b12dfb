import LiveSpec.Proofs.Tree.Climbing
import LiveSpec.Proofs.Tree.History

/-!
# Trees of any history

`Tree.Linked` is kept as long as no node is brought under itself. A tree that is edited without that
care still is `Tree.Wired`: listed nodes hang where they are listed, links lead into the table, and
a destroyed node lists nothing. All that an edit has to heed is that the nodes it names were not
destroyed (`Edit.Proper`), which holds of every node that someone still has in hand.

Next to that, each edit says which nodes it leaves cut off: those it takes out, and those that were
cut off before and that it does not put in again (`Wired.edit`).
-/

namespace LiveSpec.Markup.Tree

variable {t t' : Tree} {gone : NodeId → Prop} {n m p c x : NodeId} {put : List NodeId → List NodeId}

/-- A node of the table that was not destroyed. -/
structure Alive (t : Tree) (n : NodeId) : Prop where
  lt : n < t.nodes.size
  alive : (t.node n).destroyed = false

instance : Decidable (t.Alive n) :=
  decidable_of_iff (n < t.nodes.size ∧ (t.node n).destroyed = false) ⟨fun h => ⟨h.1, h.2⟩,
    fun h => ⟨h.lt, h.alive⟩⟩

/-- A tree in which each listed node hangs where it is listed, links lead into the table, and
nothing is listed below a destroyed node. -/
structure Wired (t : Tree) : Prop extends t.Hung where
  parent_lt {n p : NodeId} : (t.node n).link = .below p → p < t.nodes.size
  bare {n : NodeId} : (t.node n).destroyed = true → (t.node n).children = []

/-! ## What an edit takes out and puts in -/

namespace Edit

/-- All nodes that the edit names are alive. -/
def Proper (t : Tree) : Edit → Prop
  | newElement _ | newElementWithText _ _ => True
  | appendText n _ | setText n _ | remove n => t.Alive n
  | appendChild n c | prependChild n c | insertAfter n c | moveChildren n c => t.Alive n ∧ t.Alive c

/-- The node that is removed, and the children of one that is given a text. -/
def TakesOut (t : Tree) (n : NodeId) : Edit → Prop
  | remove m => n = m
  | setText m _ => n ∈ (t.node m).children
  | _ => False

/-- The node that is attached. -/
def PutsIn (n : NodeId) : Edit → Prop
  | appendChild _ c | prependChild _ c | insertAfter _ c => n = c
  | _ => False

end Edit

namespace Wired

section

variable (h : t.Wired)
include h

/-- One step up from a listed node goes to the node that lists it. -/
theorem above_of_mem (hc : c ∈ (t.node p).children) : t.above c = .parent p := by
  refine above_eq_parent_iff.mpr ⟨h.child_link hc, Bool.eq_false_iff.mpr fun hd => ?_⟩
  rw [h.bare hd] at hc
  cases hc

theorem alive_above (hup : t.above n = .parent p) : t.Alive p := by
  obtain ⟨hl, hp⟩ := above_eq_parent_iff.mp hup
  exact ⟨h.parent_lt hl, hp⟩

/-- An edit that takes nodes out of lists and leaves those that stay listed where they hang. -/
theorem shrink (hsize : t'.nodes.size = t.nodes.size)
    (hdestroyed : ∀ n, (t'.node n).destroyed = (t.node n).destroyed)
    (hsub : ∀ p, (t'.node p).children ⊆ (t.node p).children)
    (hkept : ∀ {p c}, c ∈ (t'.node p).children → (t'.node c).link = (t.node c).link)
    (hlink : ∀ {n p}, (t'.node n).link = .below p → (t.node n).link = .below p) : t'.Wired where
  child_lt hc := hsize ▸ h.child_lt (hsub _ hc)
  child_link hc := (hkept hc).trans (h.child_link (hsub _ hc))
  parent_lt hl := hsize ▸ h.parent_lt (hlink hl)
  bare {n} hd := List.subset_nil.mp (h.bare (hdestroyed n ▸ hd) ▸ hsub n)

/-- A new node, which nothing lists and which lists nothing, keeps the wiring. -/
theorem add (s : Content) : (t.add s).2.Wired where
  toHung := h.toHung.add s
  parent_lt hl := by
    rw [link_add] at hl
    rw [size_add]
    exact Nat.lt_succ_of_lt (h.parent_lt hl)
  bare {n} hd := by
    rw [children_add]
    rw [node_add] at hd
    split at hd
    · cases hd
    · exact h.bare hd

/-- An edit of contents keeps the wiring. -/
theorem of_sameShape (hs : t.SameShape t') : t'.Wired where
  toHung := .of_sameShape hs h.toHung
  parent_lt hl := by
    rw [hs.link] at hl
    exact hs.size.symm ▸ h.parent_lt hl
  bare hd := by
    rw [hs.destroyed] at hd
    exact (hs.children _).trans (h.bare hd)

/-- Hanging a top node into the children of an alive one keeps the wiring. -/
theorem hang (hc : t.IsTop c) (hp : t.Alive p)
    (hput : (put (t.node p).children).Perm (c :: (t.node p).children)) :
    (t.hang c p put).Wired where
  toHung := h.toHung.hang hc hp.lt hput
  parent_lt hl := by
    rw [link_hang put hc.lt] at hl
    rw [size_hang]
    split at hl
    · exact Link.below.inj hl ▸ hp.lt
    · exact h.parent_lt hl
  bare {n} hd := by
    have hd : (t.node n).destroyed = true := by rwa [node_hang] at hd
    rw [children_hang put hp.lt, if_neg]
    · exact h.bare hd
    · rintro rfl
      exact Bool.eq_false_iff.mp hp.alive hd

/-- Detaching a node changes its link and the list of the one above it, and nothing else. -/
theorem node_detach (hc : t.Alive c) (m : NodeId) : (t.detach c).node m =
    { t.node m with
      link := if c = m then .top else (t.node m).link
      children := (t.node m).children.filter (· != c) } :=
  node_detach_of_listed hc.lt (fun _ hmem => h.above_of_mem hmem) m

/-- Detaching a node keeps the wiring. -/
theorem detach (hc : t.Alive c) : (t.detach c).Wired := by
  have hnode := h.node_detach hc
  refine h.shrink Linked.size_detach (fun m => by rw [hnode]) (fun p => ?_)
    (fun {p x} hx => ?_) fun {n p} hl => ?_
  · rw [hnode]
    exact List.filter_subset_self _
  · rw [hnode] at hx ⊢
    refine if_neg ?_
    rintro rfl
    simp at hx
  · rw [hnode] at hl
    dsimp only at hl
    split at hl
    · cases hl
    · exact hl

/-! ## The edits -/

theorem alive_detach (hc : t.Alive c) (hp : t.Alive p) : (t.detach c).Alive p := by
  refine ⟨Linked.size_detach.symm ▸ hp.lt, ?_⟩
  rw [h.node_detach hc]
  exact hp.alive

/-- A node that is detached stands at the top. -/
theorem isTop_detach (hc : t.Alive c) : (t.detach c).IsTop c := by
  refine ⟨Linked.size_detach.symm ▸ hc.lt, ?_⟩
  rw [h.node_detach hc]
  exact if_pos rfl

/-- Attaching a node, wherever it was before. -/
theorem attach (hc : t.Alive c) (hp : t.Alive p) (hput : ∀ cs, (put cs).Perm (c :: cs)) :
    ((t.detach c).hang c p put).Wired :=
  (h.detach hc).hang (h.isTop_detach hc) (h.alive_detach hc hp) (hput _)

/-- Attaching a node gives it its new link, and puts it into one list in place of another. -/
theorem node_attach (hc : t.Alive c) (hp : t.Alive p) (put : List NodeId → List NodeId)
    (m : NodeId) :
    ((t.detach c).hang c p put).node m =
      { t.node m with
        link := if c = m then .below p else (t.node m).link
        children := if p = m then put ((t.node m).children.filter (· != c))
          else (t.node m).children.filter (· != c) } := by
  have hnode := h.node_detach hc m
  rw [node_hang, Linked.size_detach, hnode]
  by_cases hcm : c = m
  · subst hcm
    by_cases hpc : p = c <;> simp [hpc, hc.lt]
  · by_cases hpm : p = m
    · subst hpm
      simp [hcm, hp.lt]
    · simp [hcm, hpm]

/-- Cutting all children of a node off keeps the wiring. -/
theorem cutChildren : (t.cutChildren n).Wired := by
  refine h.shrink size_cutChildren (fun m => by rw [node_cutChildren]) (fun p => ?_)
    (fun {p x} hx => ?_)
    fun {m p} hl => ?_
  · rw [node_cutChildren]
    dsimp only
    split
    · exact List.nil_subset _
    · exact List.Subset.refl _
  · rw [node_cutChildren] at hx ⊢
    dsimp only at hx
    split at hx
    · cases hx
    · next hne => exact if_neg fun hn => hne (h.parent_unique hn.1 hx)
  · rw [node_cutChildren] at hl
    dsimp only at hl
    split at hl
    · cases hl
    · exact hl

theorem appendText (hn : t.Alive n) (s : String) : (t.appendText n s).Wired := by
  have hn' : (t.add (.text s)).2.Alive n :=
    ⟨by rw [size_add]; exact Nat.lt_succ_of_lt hn.lt, by
      rw [node_add_of_lt _ hn.lt]; exact hn.alive⟩
  exact (h.add _).hang ((isTop_add_iff _).mpr (.inr rfl)) hn' (List.perm_append_singleton ..)

theorem setText (hn : t.Alive n) (s : String) : (t.setText n s).Wired := by
  have hcut : (t.cutChildren n).Wired := h.cutChildren
  have hn' : (t.cutChildren n).Alive n :=
    ⟨size_cutChildren.symm ▸ hn.lt, by rw [node_cutChildren]; exact hn.alive⟩
  unfold Tree.setText
  dsimp only
  split
  · exact hcut
  · exact hcut.appendText hn' s

/-- Removing a node keeps the wiring. -/
theorem remove (hok : t.remove n = .ok t') : t'.Wired := by
  obtain ⟨-, hsize, hnode⟩ := remove_eq hok
  refine h.shrink hsize (fun m => by rw [hnode]) (fun p => ?_)
    (fun {p x} hx => ?_) fun {m p} hl => ?_
  · rw [hnode]
    dsimp only
    split
    · exact List.filter_subset_self _
    · exact List.Subset.refl _
  · -- the removed node is not in the list of the one above it any more, and it was in no other
    rw [hnode] at hx ⊢
    refine if_neg ?_
    rintro ⟨rfl, -⟩
    dsimp only at hx
    split at hx
    · simp at hx
    · next hup => exact hup ⟨h.above_of_mem hx, lt_size_of_mem_children hx⟩
  · rw [hnode] at hl
    dsimp only at hl
    split at hl
    · cases hl
    · exact hl

/-- Moving all children of a node to another keeps the wiring. -/
theorem move (hd : t.Alive p) (hne : n ≠ p) (hmoved : Moved n p t t') : t'.Wired where
  toHung := h.toHung.move hne hmoved
  parent_lt {m q} hl := by
    rw [hmoved.node] at hl
    rw [hmoved.size]
    dsimp only at hl
    split at hl
    · exact Link.below.inj hl ▸ hd.lt
    · exact h.parent_lt hl
  bare {m} hdestroyed := by
    rw [hmoved.node] at hdestroyed ⊢
    dsimp only at hdestroyed ⊢
    split
    · rfl
    · rw [if_neg]
      · exact h.bare hdestroyed
      · rintro rfl
        exact Bool.eq_false_iff.mp hd.alive hdestroyed

end

end Wired

/-! ## What is cut off afterwards -/

/-- Appending a text cuts nothing off. -/
theorem link_appendText_eq_cut_iff (s : String) :
    ((t.appendText n s).node m).link = .cut ↔ (t.node m).link = .cut := by
  show (((t.add (.text s)).2.hang t.nodes.size n (· ++ [t.nodes.size])).node m).link = .cut ↔ _
  rw [link_hang _ (by rw [size_add]; exact Nat.lt_succ_self _), link_add]
  split
  · next hm =>
    rw [node_of_size_le t m (Nat.le_of_eq hm)]
    exact iff_of_false nofun nofun
  · exact .rfl

/-- Setting a text cuts off the children that were there, and nothing else. -/
theorem Hung.link_setText_eq_cut_iff (h : t.Hung) (s : String) :
    ((t.setText n s).node m).link = .cut ↔ m ∈ (t.node n).children ∨ (t.node m).link = .cut := by
  have hcut : ((t.cutChildren n).node m).link = .cut ↔
      m ∈ (t.node n).children ∨ (t.node m).link = .cut := by
    rw [node_cutChildren]
    by_cases hmem : m ∈ (t.node n).children
    · simp [hmem, h.child_lt hmem]
    · simp [hmem]
  unfold Tree.setText
  dsimp only
  split
  · exact hcut
  · exact (link_appendText_eq_cut_iff s).trans hcut

/-- Attaching a node puts that one back into the tree, and cuts nothing off. -/
theorem Wired.link_attach_eq_cut_iff (h : t.Wired) (hc : t.Alive c) (hp : t.Alive p)
    (put : List NodeId → List NodeId) :
    (((t.detach c).hang c p put).node m).link = .cut ↔ (t.node m).link = .cut ∧ m ≠ c := by
  rw [h.node_attach hc hp]
  by_cases hcm : c = m
  · simp [hcm]
  · simp [hcm, Ne.symm hcm]

/-- Removing a node cuts off that one. -/
theorem link_remove_eq_cut_iff (hn : n < t.nodes.size) (hok : t.remove n = .ok t') :
    (t'.node m).link = .cut ↔ m = n ∨ (t.node m).link = .cut := by
  obtain ⟨-, -, hnode⟩ := remove_eq hok
  rw [hnode]
  by_cases hnm : n = m
  · subst hnm
    simp [hn]
  · simp [hnm, Ne.symm hnm]

/-- Moving children cuts nothing off. -/
theorem Moved.link_eq_cut_iff (h : t.Hung) (hmoved : Moved n p t t') :
    (t'.node m).link = .cut ↔ (t.node m).link = .cut := by
  rw [hmoved.node]
  by_cases hmem : m ∈ (t.node n).children
  · simp [hmem, h.child_link hmem]
  · simp [hmem]

/-! ## One edit -/

/-- The children go to another node, or stay where they are. -/
theorem Hung.moveChildren_eq_ok (h : t.Hung) (hn : n < t.nodes.size) (hp : p < t.nodes.size)
    (hok : t.moveChildren n p = .ok t') : t' = t ∨ n ≠ p ∧ Moved n p t t' := by
  by_cases hne : n = p
  · subst hne
    exact .inl (h.moveChildren_self hok)
  · obtain ⟨_, -, hok⟩ := Except.bind_eq_ok.mp hok
    obtain ⟨_, -, hok⟩ := Except.bind_eq_ok.mp hok
    obtain rfl := Except.ok.inj hok
    exact .inr ⟨hne, moved_of_writes (fun _ hc => h.child_lt hc) hn hp hne⟩

namespace Wired

variable (h : t.Wired)
include h

/-- **An edit of living nodes keeps a tree wired,** whatever it brings under what. -/
theorem edit {e : Edit} (he : e.Proper t) (hok : e.apply t = .ok t') : t'.Wired := by
  cases e with
  | newElement name => exact Except.ok.inj hok ▸ h.add _
  | newElementWithText name s =>
    have hnew : (t.newElement name).2.Alive t.nodes.size :=
      ⟨by rw [newElement, size_add]; exact Nat.lt_succ_self _, by
        rw [newElement, node_add, if_pos rfl]; rfl⟩
    exact Except.ok.inj hok ▸ (h.add _).appendText hnew s
  | appendText n s => exact Except.ok.inj hok ▸ h.appendText he s
  | setText n s => exact Except.ok.inj hok ▸ h.setText he s
  | appendChild p c =>
    obtain ⟨-, rfl⟩ := appendChild_eq_ok hok
    exact h.attach he.2 he.1 fun _ => List.perm_append_singleton ..
  | prependChild p c =>
    obtain ⟨-, rfl⟩ := prependChild_eq_ok hok
    exact h.attach he.2 he.1 fun _ => .refl _
  | insertAfter n c =>
    obtain ⟨-, p, hup, rfl⟩ := insertAfter_eq_ok hok
    exact h.attach he.2 (h.alive_above hup) (perm_putAfter n c)
  | remove n => exact h.remove hok
  | moveChildren n p =>
    rcases h.toHung.moveChildren_eq_ok he.1.lt he.2.lt hok with rfl | ⟨hne, hmoved⟩
    · exact h
    · exact h.move he.2 hne hmoved

/-- **What is cut off after an edit:** what it takes out, and what was cut off before and is not put
in. -/
theorem link_edit_eq_cut_iff {e : Edit} (he : e.Proper t) (hok : e.apply t = .ok t') :
    (t'.node m).link = .cut ↔ e.TakesOut t m ∨ (t.node m).link = .cut ∧ ¬ e.PutsIn m := by
  have hneither : (t.node m).link = .cut ↔ False ∨ (t.node m).link = .cut ∧ ¬ False := by simp
  cases e with
  | newElement name =>
    obtain rfl := Except.ok.inj hok
    rw [newElement, link_add]
    exact hneither
  | newElementWithText name s =>
    obtain rfl := Except.ok.inj hok
    rw [newElementWithText, link_appendText_eq_cut_iff, newElement, link_add]
    exact hneither
  | appendText n s =>
    obtain rfl := Except.ok.inj hok
    exact (link_appendText_eq_cut_iff s).trans hneither
  | setText n s =>
    obtain rfl := Except.ok.inj hok
    exact (h.toHung.link_setText_eq_cut_iff s).trans (or_congr .rfl (and_iff_left id).symm)
  | appendChild p c =>
    obtain ⟨-, rfl⟩ := appendChild_eq_ok hok
    exact (h.link_attach_eq_cut_iff he.2 he.1 _).trans (iff_of_eq (false_or _)).symm
  | prependChild p c =>
    obtain ⟨-, rfl⟩ := prependChild_eq_ok hok
    exact (h.link_attach_eq_cut_iff he.2 he.1 _).trans (iff_of_eq (false_or _)).symm
  | insertAfter n c =>
    obtain ⟨-, p, hup, rfl⟩ := insertAfter_eq_ok hok
    exact (h.link_attach_eq_cut_iff he.2 (h.alive_above hup) _).trans (iff_of_eq (false_or _)).symm
  | remove n =>
    exact (link_remove_eq_cut_iff he.lt hok).trans (or_congr .rfl (and_iff_left id).symm)
  | moveChildren n p =>
    rcases h.toHung.moveChildren_eq_ok he.1.lt he.2.lt hok with rfl | ⟨-, hmoved⟩
    · exact hneither
    · exact (hmoved.link_eq_cut_iff h.toHung).trans hneither

/-! ## Letting go -/

/-- Destroying a node keeps the wiring of what is left. -/
theorem destroy : (t.destroy n).Wired := by
  have hnode := node_destroy t n
  have hsub : ∀ p, ((t.destroy n).node p).children ⊆ (t.node p).children := fun p => by
    rw [hnode]
    dsimp only
    split
    · exact List.nil_subset _
    · exact List.Subset.refl _
  have hlink : ∀ m, ((t.destroy n).node m).link = (t.node m).link := fun m => by rw [hnode]
  refine ⟨⟨fun hc => size_destroy.symm ▸ h.child_lt (hsub _ hc),
    fun hc => (hlink _).trans (h.child_link (hsub _ hc))⟩,
    fun hl => ?_, fun {m} hd => ?_⟩
  · rw [hlink] at hl
    exact size_destroy.symm ▸ h.parent_lt hl
  · rw [hnode] at hd ⊢
    dsimp only at hd ⊢
    by_cases hm : n = m
    · exact if_pos (hm ▸ List.mem_cons_self)
    · rw [if_neg fun hc => hm hc.1] at hd
      rw [h.bare hd, ite_self]

theorem release (held : NodeId → Bool) :
    (t.release held).Wired := releaseWithin_keeps (fun h => h.destroy) h

end Wired

/-- A linked tree of which nothing was destroyed is wired. -/
theorem Linked.wired (h : t.Linked fun _ => False)
    (hlt : ∀ {n p}, (t.node n).link = .below p → p < t.nodes.size) :
    t.Wired := by
  refine ⟨h.hung, hlt, fun hd => ?_⟩
  rw [h.alive id] at hd
  cases hd

/-- The tree of a document that was read is wired. -/
theorem Parsed.wired (h : t.Parsed) : t.Wired := h.linked.wired h.coherent.parent_lt

end LiveSpec.Markup.Tree
