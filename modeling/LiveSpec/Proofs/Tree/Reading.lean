import LiveSpec.Proofs.Results
import LiveSpec.Proofs.Tree.Onward

/-!
# Reading a branch

Text and walks go by the lists of children. Their fuel is the size of the table, which is more than
the depth of any node, so that in a coherent tree it never decides the answer: the text of a
standing node depends on the nodes below it alone (`Coherent.text_eq`), and a walk from it meets
each node once (`nodup_descendants`).
-/

namespace LiveSpec.Markup.Tree

variable {t t' t'' : Tree} {n a b c p r x y : NodeId} {d f g : Nat}

/-! ## Branches that stay as they are -/

/-- The branch below a node, as it is in both trees. -/
structure Untouched (t t' : Tree) (r : NodeId) : Prop where
  children {x : NodeId} : t.Under r x → (t'.node x).children = (t.node x).children
  content {x : NodeId} : t.Under r x → (t'.node x).content = (t.node x).content

namespace Untouched

theorem refl : t.Untouched t r := ⟨fun _ => rfl, fun _ => rfl⟩

theorem under (h : t.Untouched t' r) (hx : t.Under r x) : t'.Under r x := by
  induction hx with
  | self => exact .self
  | child hp hc ih => exact .child ih ((h.children hp).symm ▸ hc)

/-- What lies below the node now lay there before. -/
theorem of_under (h : t.Untouched t' r) (hx : t'.Under r x) : t.Under r x := by
  induction hx with
  | self => exact .self
  | child _ hc ih => exact .child ih (h.children ih ▸ hc)

theorem trans (h : t.Untouched t' r) (h' : t'.Untouched t'' r) : t.Untouched t'' r where
  children hx := (h'.children (h.under hx)).trans (h.children hx)
  content hx := (h'.content (h.under hx)).trans (h.content hx)

theorem mono (h : t.Untouched t' r) (hx : t.Under r x) : t.Untouched t' x where
  children hy := h.children (hx.trans hy)
  content hy := h.content (hx.trans hy)

theorem textWithin (h : t.Untouched t' r) : t'.textWithin f r = t.textWithin f r := by
  induction f generalizing r with
  | zero => rfl
  | succ f ih =>
    unfold Tree.textWithin
    rw [h.children .self]
    refine congrArg String.join (List.map_congr_left fun c hc => ?_)
    have hrc := Under.of_mem_children hc
    rw [h.content hrc, ih (h.mono hrc)]

end Untouched

/-- More fuel than there are levels below a node changes nothing. -/
theorem Coherent.textWithin_fuel (ht : t.Coherent) (hd : t.Depth x d) (hf : t.nodes.size ≤ d + f)
    (hg : t.nodes.size ≤ d + g) : t.textWithin f x = t.textWithin g x := by
  have hlt := ht.depth_lt hd
  induction f generalizing x d g with
  | zero => omega
  | succ f ih =>
    obtain ⟨g, rfl⟩ := Nat.exists_eq_succ_of_ne_zero (show g ≠ 0 by omega)
    unfold textWithin
    refine congrArg String.join (List.map_congr_left fun c hc => ?_)
    have hdc := Depth.child hd hc
    rw [ih hdc (by omega) (show t.nodes.size ≤ d + 1 + g by omega) (ht.depth_lt hdc)]

/-- The text of a standing node is that of its branch. -/
theorem Coherent.text_eq (ht : t.Coherent) (hsize : t.nodes.size ≤ t'.nodes.size)
    (hx : t.Standing x) (h : t.Untouched t' x) : t'.text x = t.text x := by
  obtain ⟨d, hd⟩ := hx.depth
  unfold text
  rw [h.textWithin]
  exact ht.textWithin_fuel hd (by omega) (by omega)

/-! ## Walks -/

/-- Standing nodes of which none lies under another one. -/
structure Apart (t : Tree) (ns : List NodeId) : Prop where
  standing {n : NodeId} : n ∈ ns → t.Standing n
  apart : ns.Pairwise fun a b => ¬ t.Under a b ∧ ¬ t.Under b a

/-- What a child lies under: itself, or what its parent lies under. -/
theorem Coherent.under_child (ht : t.Coherent) (h : t.Under a c) (hc : c ∈ (t.node p).children) :
    a = c ∨ t.Under a p := by
  cases h with
  | self => exact .inl rfl
  | child hq hc' => exact .inr (ht.parent_unique hc' hc ▸ hq)

theorem Coherent.apart_children (ht : t.Coherent) (hn : t.Standing n) :
    t.Apart (t.node n).children := by
  refine ⟨hn.child, ?_⟩
  refine (ht.nodup n).imp_of_mem fun {a b} ha hb hne => ⟨fun h => ?_, fun h => ?_⟩
  · exact ht.not_under_child hn ha ((ht.under_child h hb).resolve_left hne)
  · exact ht.not_under_child hn hb ((ht.under_child h ha).resolve_left (Ne.symm hne))

/-- The children of a node in its place. -/
theorem Coherent.apart_unfold (ht : t.Coherent) {rest : List NodeId} (h : t.Apart (n :: rest)) :
    t.Apart ((t.node n).children ++ rest) ∧ ∀ y ∈ (t.node n).children ++ rest, ¬ t.Under y n := by
  obtain ⟨hfirst, hrest⟩ := List.pairwise_cons.mp h.apart
  have hn := h.standing List.mem_cons_self
  have hchildren := ht.apart_children hn
  refine ⟨⟨fun {y} hy => ?_, List.pairwise_append.mpr ⟨hchildren.apart, hrest,
    fun c hc r hr => ⟨fun hu => ?_, fun hu => ?_⟩⟩⟩,
    fun y hy hu => ?_⟩
  · rcases List.mem_append.mp hy with hy | hy
    · exact hchildren.standing hy
    · exact h.standing (List.mem_cons_of_mem n hy)
  · exact (hfirst r hr).1 ((Under.of_mem_children hc).trans hu)
  · rcases ht.under_child hu hc with rfl | hu
    · exact (hfirst r hr).1 (.of_mem_children hc)
    · exact (hfirst r hr).2 hu
  · rcases List.mem_append.mp hy with hy | hy
    · exact ht.not_under_child hn hy hu
    · exact (hfirst y hy).2 hu

namespace Walk

/-- A step of a walk: it stops at a node below those that are still to be visited, and it does not
come back. -/
structure Steps (t : Tree) (w : Walk) (x : NodeId) (w' : Walk) : Prop where
  name : w'.name = w.name
  stops : w.stopsAt t x = true
  under : ∃ a ∈ w.pending, t.Under a x
  pending : ∀ y ∈ w'.pending, ∃ a ∈ w.pending, t.Under a y
  away : ∀ y ∈ w'.pending, ¬ t.Under y x
  apart : t.Apart w'.pending

theorem steps_of_next? (ht : t.Coherent) {w w' : Walk} (hw : t.Apart w.pending)
    (h : next? t f w = some (x, w')) :
    Steps t w x w' := by
  induction f generalizing w with
  | zero => cases h
  | succ f ih =>
    obtain ⟨pending, name⟩ := w
    cases pending with
    | nil => cases h
    | cons n rest =>
      obtain ⟨hunfold, haway⟩ := ht.apart_unfold hw
      -- what lies under the children of the first node lies under that node
      have hback : ∀ {y}, (∃ a ∈ (t.node n).children ++ rest, t.Under a y) →
          ∃ a ∈ n :: rest, t.Under a y := by
        rintro y ⟨a, ha, hy⟩
        rcases List.mem_append.mp ha with ha | ha
        · exact ⟨n, List.mem_cons_self, (Under.of_mem_children ha).trans hy⟩
        · exact ⟨a, List.mem_cons_of_mem n ha, hy⟩
      unfold next? at h
      dsimp only at h
      split at h
      · next hstop =>
        cases h
        exact ⟨rfl, hstop, ⟨_, List.mem_cons_self, .self⟩, fun y hy => hback ⟨y, hy, .self⟩,
          haway, hunfold⟩
      · have hstep := ih hunfold h
        refine ⟨hstep.name, hstep.stops, hback hstep.under,
          fun y hy => hback (hstep.pending y hy), hstep.away,
          hstep.apart⟩

/-- A walk stops only at what it is to stop at, whatever the shape of the tree. -/
theorem stopsAt_of_next? {w w' : Walk} (h : next? t f w = some (x, w')) : w.stopsAt t x = true ∧
    w'.name = w.name := by
  induction f generalizing w with
  | zero => cases h
  | succ f ih =>
    obtain ⟨pending, name⟩ := w
    cases pending with
    | nil => cases h
    | cons n rest =>
      unfold next? at h
      dsimp only at h
      split at h
      · next hstop =>
        cases h
        exact ⟨hstop, rfl⟩
      · have hlater := ih h
        exact hlater

theorem stopsAt_of_mem_elements {w : Walk} (h : x ∈ elements t f w) : w.stopsAt t x = true := by
  induction f generalizing w with
  | zero => cases h
  | succ f ih =>
    unfold elements at h
    cases hnext : next? t (t.nodes.size + 1) w with
    | none =>
      rw [hnext] at h
      cases h
    | some found =>
      obtain ⟨n, w'⟩ := found
      obtain ⟨hstops, hname⟩ := stopsAt_of_next? hnext
      rw [hnext] at h
      rcases List.mem_cons.mp h with rfl | h
      · exact hstops
      · have hsame : w'.stopsAt t x = w.stopsAt t x := by
          unfold stopsAt
          rw [hname]
        exact hsame ▸ ih h

theorem elements_spec (ht : t.Coherent) {w : Walk} (hw : t.Apart w.pending) :
    (elements t f w).Nodup ∧ ∀ x ∈ elements t f w, w.stopsAt t x = true ∧
      ∃ a ∈ w.pending, t.Under a x := by
  induction f generalizing w with
  | zero => exact ⟨List.nodup_nil, fun x hx => by cases hx⟩
  | succ f ih =>
    unfold elements
    cases hnext : next? t (t.nodes.size + 1) w with
    | none => exact ⟨List.nodup_nil, fun x hx => by cases hx⟩
    | some found =>
      obtain ⟨x, w'⟩ := found
      have hstep := steps_of_next? ht hw hnext
      obtain ⟨hnodup, hrest⟩ := ih hstep.apart
      have hsame : ∀ y, w'.stopsAt t y = w.stopsAt t y := fun y => by
        unfold stopsAt; rw [hstep.name]
      refine ⟨List.nodup_cons.mpr ⟨fun hx => ?_, hnodup⟩, fun y hy => ?_⟩
      · obtain ⟨-, a, ha, hu⟩ := hrest x hx
        exact hstep.away a ha hu
      · rcases List.mem_cons.mp hy with rfl | hy
        · exact ⟨hstep.stops, hstep.under⟩
        · obtain ⟨hstop, a, ha, hu⟩ := hrest y hy
          obtain ⟨b, hb, hba⟩ := hstep.pending a ha
          exact ⟨hsame y ▸ hstop, b, hb, hba.trans hu⟩

end Walk

/-- What a search for a name finds has this name, whatever the shape of the tree. -/
theorem isNamed_of_mem_descendants {name : String} {xs : List NodeId}
    (h : t.descendants n name = .ok xs) (hx : x ∈ xs) (hname : name ≠ "*") :
    t.isNamed x (Text.asciiLower name) = true := by
  obtain ⟨w, hwalk, hxs⟩ := Except.bind_eq_ok.mp h
  obtain ⟨-, -, hw⟩ := Except.bind_eq_ok.mp hwalk
  obtain rfl := Except.pure_eq_ok.mp hw
  obtain rfl := Except.pure_eq_ok.mp hxs
  have hstops := Walk.stopsAt_of_mem_elements hx
  unfold Walk.stopsAt at hstops
  rw [if_neg hname] at hstops
  exact (Bool.and_eq_true_iff.mp hstops).2

/-- An element of a name that stands strictly below a node. -/
structure Found (t : Tree) (n : NodeId) (name : String) (x : NodeId) : Prop where
  standing : t.Standing x
  element : t.isElement x = true
  below : ∃ c ∈ (t.node n).children, t.Under c x
  named : name ≠ "*" → t.isNamed x (Text.asciiLower name) = true

theorem Found.under {name : String} (h : t.Found n name x) : t.Under n x := by
  obtain ⟨c, hc, hu⟩ := h.below
  exact (Under.of_mem_children hc).trans hu

theorem Coherent.found_ne (ht : t.Coherent) {name : String} (h : t.Found n name x) : x ≠ n := by
  rintro rfl
  obtain ⟨c, hc, hu⟩ := h.below
  exact ht.not_under_child h.standing hc hu

/-- An old node that is found later was there to be found before. -/
theorem Coherent.found_of_onward (ht : t.Coherent) (ht' : t'.Coherent) (hgo : t.Onward t')
    (hx : x < t.nodes.size) {name : String} (h : t'.Found n name x) : t.Found n name x := by
  have hbelow := (hgo.under ht ht' hx h.under).eq_or_below.resolve_left (ht'.found_ne h)
  refine ⟨hgo.standing ht ht' hx h.standing, (hgo.isElement hx).symm.trans h.element, hbelow,
    fun hne => ?_⟩
  rw [← hgo.isNamed hx]
  exact h.named hne

/-- **A search below an element finds elements of the name that stand there, each once.** -/
theorem Coherent.descendants_spec (ht : t.Coherent) (hn : n < t.nodes.size) {name : String}
    {xs : List NodeId} (h : t.descendants n name = .ok xs) :
    t.Standing n ∧ xs.Nodup ∧ ∀ x ∈ xs, t.Found n name x := by
  unfold descendants walk ensureLive at h
  by_cases hlive : t.isLive n = true
  · rw [if_pos hlive] at h
    cases h
    have hs := (ht.isLive_iff hn).mp hlive
    obtain ⟨hnodup, hall⟩ := Walk.elements_spec (f := t.nodes.size + 1)
      (w := ⟨(t.node n).children, if name = "*" then none else some (Text.asciiLower name)⟩) ht
        (ht.apart_children hs)
    refine ⟨hs, hnodup, fun x hx => ?_⟩
    obtain ⟨hstop, c, hc, hu⟩ := hall x hx
    obtain ⟨helement, hname⟩ := Bool.and_eq_true_iff.mp hstop
    exact ⟨(hs.child hc).under hu, helement, ⟨c, hc, hu⟩, fun hne => by simpa [hne] using hname⟩
  · rw [if_neg hlive] at h
    cases h

end LiveSpec.Markup.Tree
