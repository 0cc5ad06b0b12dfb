import LiveSpec.Proofs.Tree.Order

/-!
# A search finds everything, in order

A walk goes from the branches that are still to be visited to those below the first one, and then on
(`Branches`). Each step leaves fewer nodes to be visited, and there are no more of them than nodes
in the table: so the fuel of a walk is always enough, and it stops at each node that it is to stop
at, in the order of the document (`Walk.elements_sorted`).

So the result of a search is determined by what stands below the element: it is the one list in
document order of the elements of the name that are there (`Coherent.descendants_iff`). What an edit
does to it can be told from what it does to the tree, without following the walk.
-/

namespace LiveSpec.Markup.Tree

variable {t t' : Tree} {n a b c p x y : NodeId} {f : Nat} {ns rest : List NodeId} {name : String}

/-- A node that lies in one of several branches. -/
def Within (t : Tree) (ns : List NodeId) (x : NodeId) : Prop := ∃ a ∈ ns, t.Under a x

theorem within_unfold : t.Within (n :: rest) x ↔ x = n ∨
    t.Within ((t.node n).children ++ rest) x := by
  constructor
  · rintro ⟨a, ha, hx⟩
    rcases List.mem_cons.mp ha with rfl | ha
    · exact hx.eq_or_below.imp_right fun ⟨c, hc, hcx⟩ => ⟨c, List.mem_append_left _ hc, hcx⟩
    · exact .inr ⟨a, List.mem_append_right _ ha, hx⟩
  · rintro (rfl | ⟨a, ha, hx⟩)
    · exact ⟨x, List.mem_cons_self, .self⟩
    · rcases List.mem_append.mp ha with ha | ha
      · exact ⟨n, List.mem_cons_self, (Under.of_mem_children ha).trans hx⟩
      · exact ⟨a, List.mem_cons_of_mem n ha, hx⟩

/-- The first branch opened: it comes before the branches in its place. -/
theorem Branches.unfold (h : t.Branches (n :: rest)) : t.Branches ((t.node n).children ++ rest) ∧
    ∀ y, t.Within ((t.node n).children ++ rest) y → t.Precedes n y := by
  obtain ⟨hfirst, hrest⟩ := List.pairwise_cons.mp h.ordered
  have hn := h.standing List.mem_cons_self
  refine ⟨⟨fun {y} hy => ?_, List.pairwise_append.mpr ⟨?_, hrest,
    fun c hc r hr x y hx hy => ?_⟩⟩, ?_⟩
  · rcases List.mem_append.mp hy with hy | hy
    · exact hn.child hy
    · exact h.standing (List.mem_cons_of_mem n hy)
  · exact List.pairwise_iff_forall_sublist.mpr fun hs x y hx hy => .beside hs hx hy
  · exact hfirst r hr x y ((Under.of_mem_children hc).trans hx) hy
  · rintro y ⟨a, ha, hy⟩
    rcases List.mem_append.mp ha with ha | ha
    · exact .below ha hy
    · exact hfirst a ha n y .self hy

/-! ## What is left to visit -/

open Classical in
/-- The nodes of some branches. -/
noncomputable def branchNodes (t : Tree) (ns : List NodeId) : Finset NodeId :=
  (Finset.range t.nodes.size).filter fun x => t.Within ns x

open Classical in
theorem mem_branchNodes : x ∈ t.branchNodes ns ↔ x < t.nodes.size ∧ t.Within ns x := by
  unfold branchNodes
  rw [Finset.mem_filter, Finset.mem_range]

open Classical in
theorem card_branchNodes_le : (t.branchNodes ns).card ≤ t.nodes.size :=
  (Finset.card_filter_le ..).trans_eq (Finset.card_range _)

/-- To open the first branch is to be done with its topmost node. -/
theorem Branches.card_unfold (ht : t.Coherent) (h : t.Branches (n :: rest)) :
    (t.branchNodes ((t.node n).children ++ rest)).card < (t.branchNodes (n :: rest)).card := by
  have hn := h.standing List.mem_cons_self
  refine Finset.card_lt_card ⟨fun x hx => ?_, fun hsub => ?_⟩
  · obtain ⟨hlt, hx⟩ := mem_branchNodes.mp hx
    exact mem_branchNodes.mpr ⟨hlt, within_unfold.mpr (.inr hx)⟩
  · have hmem := hsub (mem_branchNodes.mpr ⟨ht.standing_lt hn, n, List.mem_cons_self, .self⟩)
    exact ht.precedes_irrefl hn (h.unfold.2 n (mem_branchNodes.mp hmem).2)

namespace Walk

/-- A step of a walk in document order: it stops at the first node that it is to stop at, and goes
on with what comes after it. -/
structure Stops (t : Tree) (w : Walk) (x : NodeId) (w' : Walk) : Prop where
  name : w'.name = w.name
  stops : w.stopsAt t x = true
  within : t.Within w.pending x
  pending {y : NodeId} : t.Within w'.pending y → t.Within w.pending y
  branches : t.Branches w'.pending
  before {y : NodeId} : t.Within w'.pending y → t.Precedes x y
  fewer : (t.branchNodes w'.pending).card < (t.branchNodes w.pending).card
  /-- Nothing is left out. -/
  complete {y : NodeId} : t.Within w.pending y → w.stopsAt t y = true → y = x ∨
    t.Within w'.pending y

theorem stops_of_next? (ht : t.Coherent) {w w' : Walk} (hw : t.Branches w.pending)
    (h : next? t f w = some (x, w')) :
    Stops t w x w' := by
  induction f generalizing w with
  | zero => cases h
  | succ f ih =>
    obtain ⟨pending, name⟩ := w
    cases pending with
    | nil => cases h
    | cons n rest =>
      obtain ⟨hunfold, hbefore⟩ := hw.unfold
      have hfewer := hw.card_unfold ht
      unfold next? at h
      dsimp only at h
      split at h
      · next hstop =>
        cases h
        exact ⟨rfl, hstop, ⟨_, List.mem_cons_self, .self⟩, fun hy => within_unfold.mpr (.inr hy),
          hunfold, hbefore _,
          hfewer, fun hy _ => within_unfold.mp hy⟩
      · next hpass =>
        have hstep := ih hunfold h
        refine ⟨hstep.name, hstep.stops, within_unfold.mpr (.inr hstep.within),
          fun hy => within_unfold.mpr (.inr (hstep.pending hy)), hstep.branches, hstep.before,
          hstep.fewer.trans hfewer,
          fun {y} hy hstop => ?_⟩
        rcases within_unfold.mp hy with rfl | hy
        · exact absurd hstop hpass
        · exact hstep.complete hy hstop

/-- With enough fuel a walk ends only where there is nothing left to stop at. -/
theorem none_of_next? (ht : t.Coherent) {w : Walk} (hw : t.Branches w.pending)
    (hf : (t.branchNodes w.pending).card < f) (h : next? t f w = none) (hy : t.Within w.pending y) :
    w.stopsAt t y = false := by
  induction f generalizing w with
  | zero => omega
  | succ f ih =>
    obtain ⟨pending, name⟩ := w
    cases pending with
    | nil =>
      obtain ⟨a, ha, -⟩ := hy
      cases ha
    | cons n rest =>
      have hfewer := hw.card_unfold ht
      unfold next? at h
      dsimp only at h hf
      split at h
      · cases h
      · next hpass =>
        rcases within_unfold.mp hy with rfl | hy
        · exact Bool.eq_false_of_not_eq_true hpass
        · exact ih (w := ⟨(t.node n).children ++ rest, name⟩) hw.unfold.1
            (by dsimp only; omega) h hy

/-- **A walk stops at all nodes that it is to stop at**, in document order. -/
theorem elements_sorted (ht : t.Coherent) {w : Walk} (hw : t.Branches w.pending)
    (hf : (t.branchNodes w.pending).card < f) : (elements t f w).Pairwise t.Precedes ∧
      ∀ x, x ∈ elements t f w ↔ w.stopsAt t x = true ∧ t.Within w.pending x := by
  induction f generalizing w with
  | zero => omega
  | succ f ih =>
    unfold elements
    cases hnext : next? t (t.nodes.size + 1) w with
    | none =>
      refine ⟨.nil, fun x => iff_of_false List.not_mem_nil ?_⟩
      rintro ⟨hstop, hx⟩
      rw [none_of_next? ht hw (Nat.lt_succ_of_le card_branchNodes_le) hnext hx] at hstop
      cases hstop
    | some found =>
      obtain ⟨x, w'⟩ := found
      have hstep := stops_of_next? ht hw hnext
      obtain ⟨hsorted, hall⟩ := ih hstep.branches (by have := hstep.fewer; omega)
      have hsame : ∀ y, w'.stopsAt t y = w.stopsAt t y := fun y => by
        unfold stopsAt; rw [hstep.name]
      refine ⟨List.pairwise_cons.mpr ⟨fun y hy => hstep.before ((hall y).mp hy).2, hsorted⟩,
        fun y => ?_⟩
      rw [List.mem_cons, hall, hsame]
      constructor
      · rintro (rfl | ⟨hstop, hy⟩)
        · exact ⟨hstep.stops, hstep.within⟩
        · exact ⟨hstop, hstep.pending hy⟩
      · rintro ⟨hstop, hy⟩
        exact (hstep.complete hy hstop).imp_right fun hy => ⟨hstop, hy⟩

end Walk

/-! ## Searching -/

/-- Nothing stands twice in a list in document order. -/
theorem Coherent.nodup_of_sorted (ht : t.Coherent) {xs : List NodeId} (hxs : xs.Pairwise t.Precedes)
    (hstanding : ∀ x ∈ xs, t.Standing x) : xs.Nodup := by
  refine hxs.imp_of_mem fun {x y} hx _ hxy heq => ?_
  subst heq
  exact ht.precedes_irrefl (hstanding x hx) hxy

/-- Two lists in document order with the same standing nodes are the same list. -/
theorem Coherent.eq_of_sorted (ht : t.Coherent) {xs ys : List NodeId} (hxs : xs.Pairwise t.Precedes)
    (hys : ys.Pairwise t.Precedes) (hstanding : ∀ x ∈ xs, t.Standing x)
    (hmem : ∀ x, x ∈ xs ↔ x ∈ ys) : xs = ys := by
  have hstanding' : ∀ y ∈ ys, t.Standing y := fun y hy => hstanding y ((hmem y).mpr hy)
  have hperm : xs.Perm ys := (List.perm_ext_iff_of_nodup (ht.nodup_of_sorted hxs hstanding)
    (ht.nodup_of_sorted hys hstanding')).mpr hmem
  exact hperm.eq_of_pairwise (fun x y hx hy hxy hyx =>
    absurd hyx (ht.precedes_asymm (hstanding x hx) (hstanding' y hy) hxy)) hxs hys

/-- **What a search finds**: the list in document order of all elements of the name below a standing
one. -/
theorem Coherent.descendants_iff (ht : t.Coherent) (hn : n < t.nodes.size) {xs : List NodeId} :
    t.descendants n name = .ok xs ↔ t.Standing n ∧ xs.Pairwise t.Precedes ∧ ∀ x, x ∈ xs ↔
      t.Found n name x := by
  unfold descendants walk ensureLive
  by_cases hlive : t.isLive n = true
  · have hs := (ht.isLive_iff hn).mp hlive
    have hbranches : t.Branches (t.node n).children := by simpa using (Branches.single hs).unfold.1
    obtain ⟨hsorted, hall⟩ := Walk.elements_sorted ht (f := t.nodes.size + 1)
      (w := ⟨(t.node n).children, if name = "*" then none else
        some (Text.asciiLower name)⟩) hbranches
      (Nat.lt_succ_of_le card_branchNodes_le)
    -- what the walk stops at is what is to be found
    have hfound : ∀ x, x ∈ Walk.elements t (t.nodes.size + 1)
        ⟨(t.node n).children, if name = "*" then none else some (Text.asciiLower name)⟩ ↔
          t.Found n name x := fun x => by
      rw [hall]
      unfold Walk.stopsAt
      rw [Bool.and_eq_true]
      constructor
      · rintro ⟨⟨helement, hname⟩, c, hc, hu⟩
        exact ⟨(hs.child hc).under hu, helement, ⟨c, hc, hu⟩, fun hne => by simpa [hne] using hname⟩
      · rintro ⟨-, helement, hbelow, hname⟩
        refine ⟨⟨helement, ?_⟩, hbelow⟩
        by_cases hne : name = "*"
        · simp [hne]
        · simpa [hne] using hname hne
    rw [if_pos hlive]
    refine ⟨fun h => ?_, fun ⟨_, hxs, hmem⟩ => congrArg Except.ok ?_⟩
    · cases h
      exact ⟨hs, hsorted, hfound⟩
    · exact ht.eq_of_sorted hsorted hxs (fun x hx => ((hfound x).mp hx).standing) fun x =>
        (hfound x).trans (hmem x).symm
  · rw [if_neg hlive]
    exact ⟨nofun, fun ⟨hs, _⟩ => absurd ((ht.isLive_iff hn).mpr hs) hlive⟩

end LiveSpec.Markup.Tree
