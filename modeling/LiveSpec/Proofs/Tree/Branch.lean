import LiveSpec.Proofs.Tree.Onward

/-!
# Who holds a branch makes no difference to the rest

A branch that was cut off stays as it is while its topmost node is held, and is destroyed when
nobody holds it. So two trees that went through the same edits, of which one holds the top of a
branch and the other does not, come to differ; but only inside the branch, and only once nothing
outside lists it (`Beside`). All other edits outside the branch keep it so (`Beside.setText`,
`Beside.release`), and what is read outside of it is the same in both (`Beside.text`).

A branch is given by the set of its nodes. All that matters is that a way down into it leads through
its topmost node, and that none leads out of it (`Enclosed`).
-/

namespace LiveSpec.Markup.Tree

variable {t t' : Tree} {D : NodeId → Prop} {e n m p u x : NodeId} {held held' : NodeId → Bool}

/-! ## What edits list -/

/-- Cutting a node's children off lists no child anew. -/
theorem mem_children_of_cutChildren (h : x ∈ ((t.cutChildren n).node p).children) :
    x ∈ (t.node p).children := by
  rw [node_cutChildren] at h
  dsimp only at h
  split at h
  · cases h
  · exact h

/-- Putting text into an element makes nothing but the new node a child. -/
theorem mem_children_of_setText {s : String} (hn : n < t.nodes.size) (hx : x < t.nodes.size)
    (h : x ∈ ((t.setText n s).node p).children) : x ∈ (t.node p).children := by
  unfold Tree.setText at h
  dsimp only at h
  split at h
  · exact mem_children_of_cutChildren h
  · rw [appendText_eq, node_hang_add _ _ (by simpa using hn), size_cutChildren] at h
    split at h
    · cases h
    · split at h
      · next hp =>
        subst hp
        rcases List.mem_append.mp h with h | h
        · exact mem_children_of_cutChildren h
        · exact absurd (List.mem_singleton.mp h) (Nat.ne_of_lt hx)
      · exact mem_children_of_cutChildren h

/-- A node that is destroyed gives no other a child. -/
theorem mem_children_of_destroy (h : x ∈ ((t.destroy u).node p).children) :
    x ∈ (t.node p).children := by
  rw [node_destroy] at h
  dsimp only at h
  split at h
  · cases h
  · exact h

/-- Nor do several nodes that are destroyed. -/
theorem children_foldl_destroy (us : List NodeId) (h : x ∈ ((us.foldl destroy t).node p).children) :
    x ∈ (t.node p).children := by
  induction us generalizing t with
  | nil => exact h
  | cons u us ih => exact mem_children_of_destroy (ih h)

/-! ## Branches -/

/-- The nodes `D` are a branch below the node `e`. -/
structure Enclosed (t : Tree) (D : NodeId → Prop) (e : NodeId) : Prop where
  top : D e
  lt {x : NodeId} : D x → x < t.nodes.size
  hung {x : NodeId} : D x → (t.node x).link ≠ .top
  inner {p c : NodeId} : D p → c ∈ (t.node p).children → D c
  entry {p c : NodeId} : ¬ D p → c ∈ (t.node p).children → D c → c = e
  apart {x p : NodeId} : ¬ D x → (t.node x).link = .below p → ¬ D p

/-- Of a branch that no node outside lists, nothing stands. -/
theorem Enclosed.not_of_standing (ht : t.Enclosed D e)
    (hunlisted : ∀ p, ¬ D p → e ∉ (t.node p).children) (hx : t.Standing x) : ¬ D x :=
  hx.of_closed (S := fun x => ¬ D x) (fun hr hrD => ht.hung hrD hr.link) fun hp hc hcD =>
    hunlisted _ hp (ht.entry hp hc hcD ▸ hc)

/-- What lies under a node that another one lists is a branch. -/
theorem Coherent.enclosed (ht : t.Coherent) (hp : t.Standing p) (he : e ∈ (t.node p).children) :
    t.Enclosed (t.Under e) e := by
  have hstands : ∀ {x}, t.Under e x → t.Standing x := fun hx => (hp.child he).under hx
  refine ⟨.self, fun hx => ht.standing_lt (hstands hx), fun hx => ?_, fun hq hc => hq.child hc,
    fun {q c} hq hc hec => ?_, fun {x q} hx hlink hq => ?_⟩
  · cases hx with
    | self =>
      rw [ht.child_link he]
      exact nofun
    | child _ hc =>
      rw [ht.child_link hc]
      exact nofun
  · cases hec with
    | self => rfl
    | child hq' hc' => exact absurd (ht.parent_unique hc' hc ▸ hq') hq
  · exact hx (hq.child (ht.listed hlink (hstands hq)))

namespace Enclosed

/-- What lies under a node of the branch is of the branch. -/
theorem under (h : t.Enclosed D e) (hn : D n) (hx : t.Under n x) : D x := by
  induction hx with
  | self => exact hn
  | child _ hc ih => exact h.inner ih hc

/-- Edits that take children away, and hang nothing anywhere else. -/
theorem prune (h : t.Enclosed D e) (hsize : t'.nodes.size = t.nodes.size)
    (hchildren : ∀ {p c}, c ∈ (t'.node p).children → c ∈ (t.node p).children)
    (hlink : ∀ x, (t'.node x).link = (t.node x).link ∨ (t'.node x).link = .cut) :
    t'.Enclosed D e := by
  refine ⟨h.top, fun hx => hsize ▸ h.lt hx, fun {x} hx => ?_,
    fun hq hc => h.inner hq (hchildren hc),
    fun hq hc => h.entry hq (hchildren hc), fun {x q} hx hq => ?_⟩
  · rcases hlink x with hsame | hcut
    · rw [hsame]
      exact h.hung hx
    · rw [hcut]
      exact nofun
  · rcases hlink x with hsame | hcut
    · exact h.apart hx (hsame.symm.trans hq)
    · rw [hcut] at hq
      cases hq

theorem cutChildren (h : t.Enclosed D e) : (t.cutChildren n).Enclosed D e := by
  refine h.prune size_cutChildren mem_children_of_cutChildren fun x => ?_
  rw [node_cutChildren]
  dsimp only
  split
  · exact .inr rfl
  · exact .inl rfl

/-- A branch stays one when a text is appended outside of it. -/
theorem appendText (h : t.Enclosed D e) (hn : ¬ D n) (hlt : n < t.nodes.size) (s : String) :
    (t.appendText n s).Enclosed D e := by
  have hnode := fun m => node_hang_add (m := m) (.text s) (· ++ [t.nodes.size]) hlt
  have hnew : ¬ D t.nodes.size := fun hD => Nat.lt_irrefl _ (h.lt hD)
  have hsame : ∀ {x}, D x → (t.appendText n s).node x = t.node x := by
    intro x hx
    have hold : x ≠ t.nodes.size := fun heq => hnew (heq ▸ hx)
    have hne : x ≠ n := fun heq => hn (heq ▸ hx)
    rw [appendText_eq, hnode, if_neg hold, if_neg hne]
  refine ⟨h.top, fun hx => ?_, fun hx => ?_, fun hq hc => ?_, fun {q c} hq hc hD => ?_,
    fun {x q} hx hlink => ?_⟩
  · rw [appendText_eq, size_hang, size_add]
    exact Nat.lt_succ_of_lt (h.lt hx)
  · rw [hsame hx]
    exact h.hung hx
  · rw [hsame hq] at hc
    exact h.inner hq hc
  · rw [appendText_eq, hnode] at hc
    split at hc
    · cases hc
    · split at hc
      · rcases List.mem_append.mp hc with hc | hc
        · exact h.entry hn hc hD
        · exact absurd (List.mem_singleton.mp hc ▸ hD) hnew
      · exact h.entry hq hc hD
  · rw [appendText_eq, hnode] at hlink
    split at hlink
    · cases hlink
      exact hn
    · split at hlink
      · exact h.apart hn hlink
      · exact h.apart hx hlink

/-- A branch stays one when a text is set outside of it: what is cut off there keeps apart from it.
-/
theorem setText (h : t.Enclosed D e) (hn : ¬ D n) (hlt : n < t.nodes.size) (s : String) :
    (t.setText n s).Enclosed D e := by
  unfold Tree.setText
  dsimp only
  split
  · exact h.cutChildren
  · exact h.cutChildren.appendText hn (by simpa using hlt) s

/-- A branch stays one when any node is destroyed, its own or another. -/
theorem destroy (h : t.Enclosed D e) : (t.destroy u).Enclosed D e :=
  h.prune size_destroy mem_children_of_destroy fun x => .inl (by rw [node_destroy])

theorem foldl_destroy (h : t.Enclosed D e) (us : List NodeId) :
    (us.foldl Tree.destroy t).Enclosed D e := by
  induction us generalizing t with
  | nil => exact h
  | cons u us ih => exact ih h.destroy

end Enclosed

/-! ## Trees that agree outside a branch -/

/-- Two trees of one size with the same nodes outside `D`. -/
structure Agree (D : NodeId → Prop) (t t' : Tree) : Prop where
  size : t'.nodes.size = t.nodes.size
  node {n : NodeId} : ¬ D n → t'.node n = t.node n

namespace Agree

theorem refl : Agree D t t := ⟨rfl, fun _ => rfl⟩

theorem symm (h : Agree D t t') : Agree D t' t := ⟨h.size.symm, fun hn => (h.node hn).symm⟩

theorem trans {t'' : Tree} (h : Agree D t t') (h' : Agree D t' t'') : Agree D t t'' :=
  ⟨h'.size.trans h.size, fun hn => (h'.node hn).trans (h.node hn)⟩

/-- Cutting off the children of a node outside the branch keeps two trees in agreement. -/
theorem cutChildren (h : Agree D t t') (hn : ¬ D n) :
    Agree D (t.cutChildren n) (t'.cutChildren n) := by
  refine ⟨size_cutChildren.trans (h.size.trans size_cutChildren.symm), fun hm => ?_⟩
  rw [node_cutChildren, node_cutChildren, h.node hm, h.node hn, h.size]

/-- So does appending a text outside: the new node gets the same number in both. -/
theorem appendText (h : Agree D t t') (hn : ¬ D n) (hlt : n < t.nodes.size) (s : String) :
    Agree D (t.appendText n s) (t'.appendText n s) := by
  have hlt' : n < t'.nodes.size := h.size ▸ hlt
  refine ⟨?_, fun {m} hm => ?_⟩
  · rw [appendText_eq, appendText_eq, size_hang, size_hang, size_add, size_add, h.size]
  · rw [appendText_eq, appendText_eq, node_hang_add _ _ hlt, node_hang_add _ _ hlt', h.size,
      h.node hn, h.node hm]

theorem setText (h : Agree D t t') (hn : ¬ D n) (hlt : n < t.nodes.size) (s : String) :
    Agree D (t.setText n s) (t'.setText n s) := by
  have hcut := h.cutChildren hn
  unfold Tree.setText
  dsimp only
  split
  · exact hcut
  · exact hcut.appendText hn (by simpa using hlt) s

/-! ### Destroying nodes -/

/-- The way down from a node outside to another one leads past nodes outside. -/
theorem mem_below {fuel : Nat} (h : Agree D t t') (ht : t.Enclosed D e) (ht' : t'.Enclosed D e)
    (hu : ¬ D u) (hm : ¬ D m) : m ∈ t'.below fuel u ↔ m ∈ t.below fuel u := by
  induction fuel generalizing u with
  | zero => exact Iff.rfl
  | succ fuel ih =>
    rw [below, below, List.mem_flatMap, List.mem_flatMap, h.node hu]
    refine exists_congr fun c => and_congr_right fun _ => ?_
    rw [List.mem_cons, List.mem_cons]
    by_cases hc : D c
    · have hbelow : m ∉ t.below fuel c := fun hmem => hm (ht.under hc (under_of_mem_below hmem))
      have hbelow' : m ∉ t'.below fuel c := fun hmem => hm (ht'.under hc (under_of_mem_below hmem))
      rw [or_iff_left hbelow, or_iff_left hbelow']
    · exact or_congr_right (ih hc)

/-- A node outside is destroyed in both trees. -/
theorem destroy (h : Agree D t t') (ht : t.Enclosed D e) (ht' : t'.Enclosed D e) (hu : ¬ D u) :
    Agree D (t.destroy u) (t'.destroy u) := by
  refine ⟨size_destroy.trans (h.size.trans size_destroy.symm), fun {m} hm => ?_⟩
  have hmem : m ∈ u :: t'.below (t'.nodes.size + 1) u ↔ m ∈ u :: t.below (t.nodes.size + 1) u := by
    rw [List.mem_cons, List.mem_cons, h.size, h.mem_below ht ht' hu hm]
  rw [node_destroy, node_destroy, h.node hm, h.size]
  simp only [h.size ▸ hmem]

/-- A node of the branch is destroyed in one of them. -/
theorem destroy_inside (h : Agree D t t') (ht : t.Enclosed D e) (hu : D u) :
    Agree D (t.destroy u) t' := by
  refine ⟨h.size.trans size_destroy.symm, fun {m} hm => ?_⟩
  have hmem : m ∉ u :: t.below (t.nodes.size + 1) u := by
    intro hmem
    rcases List.mem_cons.mp hmem with rfl | hmem
    · exact hm hu
    · exact hm (ht.under hu (under_of_mem_below hmem))
  have hne : ¬ (u = m ∧ m < t.nodes.size) := fun hum => hm (hum.1 ▸ hu)
  rw [node_destroy, if_neg hmem, if_neg hne]
  exact h.node hm

/-- Whichever nodes of the branch are destroyed with others, only the others matter. -/
theorem foldl_destroy [DecidablePred D] (h : Agree D t t') (ht : t.Enclosed D e)
    (ht' : t'.Enclosed D e) (us : List NodeId) :
    Agree D (us.foldl Tree.destroy t) ((us.filter fun u => ¬ D u).foldl Tree.destroy t') := by
  induction us generalizing t t' with
  | nil => exact h
  | cons u us ih =>
    rw [List.filter_cons]
    by_cases hu : D u
    · rw [if_neg (by simpa using hu)]
      exact ih (h.destroy_inside ht hu) ht.destroy ht'
    · rw [if_pos (by simpa using hu)]
      exact ih (h.destroy ht ht' hu) ht.destroy ht'.destroy

/-- Outside the branch the same nodes are unreachable, if the same ones are held. -/
theorem mem_unreachable (h : Agree D t t') (ht : t.Enclosed D e) (ht' : t'.Enclosed D e)
    (hheld : held' u = held u) (hu : ¬ D u) :
    u ∈ t'.unreachable held' ↔ u ∈ t.unreachable held := by
  have hlisted : ∀ p, u ∈ (t'.node p).children ↔ u ∈ (t.node p).children := by
    intro p
    by_cases hp : D p
    · exact ⟨fun hmem => absurd (ht'.inner hp hmem) hu, fun hmem => absurd (ht.inner hp hmem) hu⟩
    · rw [h.node hp]
  rw [Tree.mem_unreachable, Tree.mem_unreachable, h.size, h.node hu, hheld]
  simp only [hlisted]

/-- A text that leads nowhere into the branch. -/
theorem textWithin {fuel : Nat} (h : Agree D t t')
    (hunlisted : ∀ p, ¬ D p → e ∉ (t.node p).children) (ht : t.Enclosed D e) (hn : ¬ D n) :
    t'.textWithin fuel n = t.textWithin fuel n := by
  induction fuel generalizing n with
  | zero => rfl
  | succ fuel ih =>
    rw [Tree.textWithin, Tree.textWithin, h.node hn]
    refine congrArg String.join (List.map_congr_left fun c hc => ?_)
    have hcD : ¬ D c := fun hD => hunlisted n hn (ht.entry hn hc hD ▸ hc)
    rw [h.node hcD, ih hcD]

end Agree

/-! ## Rounds of letting go -/

/-- The nodes that nothing reaches come in the order of their numbers. -/
theorem unreachable_sorted : (t.unreachable held).Pairwise (· < ·) :=
  List.pairwise_lt_range.filter _

/-- Once everything is reachable, more rounds of releasing change nothing. -/
theorem releaseWithin_done {fuel : Nat} (h : t.unreachable held = []) :
    t.releaseWithin held fuel = t := by
  cases fuel with
  | zero => rfl
  | succ fuel =>
    unfold releaseWithin
    rw [h]

/-- One round destroys all nodes that are unreachable, and the others follow. -/
theorem releaseWithin_succ {fuel : Nat} :
    t.releaseWithin held (fuel + 1) = ((t.unreachable held).foldl destroy t).releaseWithin
      held fuel := by
  rw [releaseWithin]
  split
  · next h =>
    rw [h, List.foldl_nil, releaseWithin_done h]
  · rfl

/-! ## Beside each other -/

/-- Two trees that are the same, or differ in nothing but what became of a branch that no node
outside lists. -/
structure Beside (D : NodeId → Prop) (e : NodeId) (t t' : Tree) : Prop where
  here : t.Enclosed D e
  there : t'.Enclosed D e
  same : t' = t ∨ Agree D t t' ∧ ∀ p, ¬ D p → e ∉ (t.node p).children

namespace Beside

theorem refl (h : t.Enclosed D e) : Beside D e t t := ⟨h, h, .inl rfl⟩

/-- Either way, the trees agree outside the branch. -/
theorem agree (h : Beside D e t t') : Agree D t t' := by
  rcases h.same with rfl | ⟨hagree, -⟩
  · exact .refl
  · exact hagree

/-- Text is put into an element outside. -/
theorem setText (h : Beside D e t t') (hn : ¬ D n) (hlt : n < t.nodes.size) (s : String) :
    Beside D e (t.setText n s) (t'.setText n s) := by
  refine ⟨h.here.setText hn hlt s, h.there.setText hn (h.agree.size ▸ hlt) s, ?_⟩
  rcases h.same with rfl | ⟨hagree, hunlisted⟩
  · exact .inl rfl
  · refine .inr ⟨hagree.setText hn hlt s, fun p hp hmem => ?_⟩
    exact hunlisted p hp (mem_children_of_setText hlt (h.here.lt h.here.top) hmem)

/-- A round of letting go, with the top of the branch held in one tree alone. -/
theorem round (h : Beside D e t t') (hheld : ∀ u, u ≠ e → held' u = held u) :
    Beside D e ((t.unreachable held).foldl destroy t)
    ((t'.unreachable held').foldl destroy t') := by
  classical
  refine ⟨h.here.foldl_destroy _, h.there.foldl_destroy _, ?_⟩
  by_cases hlisted : t' = t ∧ ∃ p, e ∈ (t.node p).children
  · -- what is listed is not let go, whether it is held or not
    obtain ⟨rfl, p, hp⟩ := hlisted
    have hsame : t'.unreachable held' = t'.unreachable held := by
      refine unreachable_sorted.eq_of_mem_iff unreachable_sorted fun u => ?_
      by_cases hu : u = e
      · have hreached : ∀ held, u ∉ t'.unreachable held := fun held hmem =>
          (mem_unreachable.mp hmem).2.2.2.1 p (hu ▸ hp)
        exact iff_of_false (hreached held') (hreached held)
      · rw [mem_unreachable, mem_unreachable, hheld u hu]
    rw [hsame]
    exact .inl rfl
  · have hunlisted : ∀ p, ¬ D p → e ∉ (t.node p).children := by
      rcases h.same with hsame | ⟨-, hunlisted⟩
      · exact fun p _ hp => hlisted ⟨hsame, p, hp⟩
      · exact hunlisted
    have hothers : (t'.unreachable held').filter (fun u => ¬ D u) =
        (t.unreachable held).filter fun u => ¬ D u := by
      refine (unreachable_sorted.filter _).eq_of_mem_iff (unreachable_sorted.filter _) fun u => ?_
      rw [List.mem_filter, List.mem_filter]
      refine and_congr_left fun hu => ?_
      have hu : ¬ D u := of_decide_eq_true hu
      exact h.agree.mem_unreachable h.here h.there (hheld u fun hue => hu (hue ▸ h.here.top)) hu
    have hhere := h.agree.foldl_destroy h.here h.there (t.unreachable held)
    have hthere := (Agree.refl (D := D)).foldl_destroy h.there h.there (t'.unreachable held')
    rw [hothers] at hthere
    refine .inr ⟨hhere.trans hthere.symm, fun p hp hmem => ?_⟩
    exact hunlisted p hp (children_foldl_destroy _ hmem)

/-- Trees beside each other are so after a release, if only the held state of the branch's root
differs. -/
theorem releaseWithin {fuel : Nat} (h : Beside D e t t') (hheld : ∀ u, u ≠ e → held' u = held u) :
    Beside D e (t.releaseWithin held fuel) (t'.releaseWithin held' fuel) := by
  induction fuel generalizing t t' with
  | zero => exact h
  | succ fuel ih =>
    rw [releaseWithin_succ, releaseWithin_succ]
    exact ih (h.round hheld)

/-- **Letting go keeps two trees beside each other**, although the top of the branch is held in one
of them alone. -/
theorem release (h : Beside D e t t') (hheld : ∀ u, u ≠ e → held' u = held u) :
    Beside D e (t.release held) (t'.release held') := by
  unfold Tree.release
  rw [h.agree.size]
  exact h.releaseWithin hheld

/-! ### Reading -/

/-- Outside the branch the two trees read the same texts. -/
theorem text (h : Beside D e t t') (hn : ¬ D n) : t'.text n = t.text n := by
  rcases h.same with rfl | ⟨hagree, hunlisted⟩
  · rfl
  · unfold Tree.text
    rw [hagree.size]
    exact hagree.textWithin hunlisted h.here hn

theorem attributes (h : Beside D e t t') (hn : ¬ D n) : t'.attributes n = t.attributes n := by
  unfold Tree.attributes
  rw [h.agree.node hn]

theorem attribute? (h : Beside D e t t') (hn : ¬ D n) (name : String) :
    t'.attribute? n name = t.attribute? n name := by
  unfold Tree.attribute?
  rw [h.attributes hn]

theorem describe (h : Beside D e t t') (hn : ¬ D n) : t'.describe n = t.describe n := by
  unfold Tree.describe Tree.name
  rw [h.attributes hn, h.agree.node hn]

/-- A prefix means the same at a node outside the branch, as nothing above it is of the branch. -/
theorem inScope {name : String} {fuel : Nat} (h : Beside D e t t') (hn : ¬ D n) :
    t'.inScope name fuel n = t.inScope name fuel n := by
  induction fuel generalizing n with
  | zero => rfl
  | succ fuel ih =>
    have hagree := h.agree
    have habove : t'.above n = t.above n ∧ ∀ q, t.above n = .parent q → ¬ D q := by
      unfold Tree.above
      rw [hagree.node hn]
      cases hlink : (t.node n).link with
      | below q =>
        have hq : ¬ D q := h.here.apart hn hlink
        dsimp only
        rw [hagree.node hq]
        refine ⟨rfl, fun q' hq' => ?_⟩
        split at hq'
        · cases hq'
        · cases hq'
          exact hq
      | top => exact ⟨rfl, nofun⟩
      | cut => exact ⟨rfl, nofun⟩
    rw [Tree.inScope, Tree.inScope, h.attribute? hn, habove.1]
    cases t.attribute? n name with
    | some v => rfl
    | none =>
      cases hup : t.above n with
      | parent q => exact ih (habove.2 q hup)
      | top => rfl
      | lost => rfl

theorem namespacedAttribute? (h : Beside D e t t') (hn : ¬ D n) (ns localName : String) :
    t'.namespacedAttribute? n ns localName = t.namespacedAttribute? n ns localName := by
  have hnamespace : ∀ mark, t'.namespace? n mark = t.namespace? n mark := fun mark => by
    unfold Tree.namespace?
    rw [h.agree.size]
    exact h.inScope hn
  unfold Tree.namespacedAttribute?
  simp only [h.attributes hn, hnamespace]

/-! ### Standing -/

theorem symm (h : Beside D e t t') : Beside D e t' t := by
  refine ⟨h.there, h.here, ?_⟩
  rcases h.same with rfl | ⟨hagree, hunlisted⟩
  · exact .inl rfl
  · exact .inr ⟨hagree.symm, fun p hp hmem => hunlisted p hp (hagree.node hp ▸ hmem)⟩

/-- The same nodes stand in both trees. -/
theorem standing (h : Beside D e t t') (hx : t.Standing x) : t'.Standing x := by
  rcases h.same with rfl | ⟨hagree, hunlisted⟩
  · exact hx
  · have hboth : ¬ D x ∧ t'.Standing x := by
      refine hx.of_closed (S := fun x => ¬ D x ∧ t'.Standing x)
        (fun {r} hr => ?_) fun {p c} hp hc => ?_
      · have hrD : ¬ D r := fun hrD => h.here.hung hrD hr.link
        exact ⟨hrD, IsTop.standing ⟨hagree.size ▸ hr.lt,
          (congrArg Node.link (hagree.node hrD)).trans hr.link⟩⟩
      · refine ⟨fun hcD => hunlisted p hp.1 (h.here.entry hp.1 hc hcD ▸ hc), hp.2.child ?_⟩
        rw [hagree.node hp.1]
        exact hc
    exact hboth.2

/-- The same nodes stand in both trees. -/
theorem standing_iff (h : Beside D e t t') : t'.Standing x ↔ t.Standing x :=
  ⟨h.symm.standing, h.standing⟩

/-- What stands reads the same in both trees, also inside the branch. -/
theorem text_of_standing (h : Beside D e t t') (hn : D n → t.Standing n) :
    t'.text n = t.text n := by
  by_cases hD : D n
  · rcases h.same with rfl | ⟨-, hunlisted⟩
    · rfl
    · exact absurd hD (h.here.not_of_standing hunlisted (hn hD))
  · exact h.text hD

end Beside

end LiveSpec.Markup.Tree
