import LiveSpec.Proofs.Tree.Classes
import LiveSpec.Proofs.Tree.Hung

/-!
# A tree under paint

Painting adds nodes beside those of the document, and it moves nodes of the document only below a
new `del`. So the paint can be taken off: `Tree.erased` unwraps each `del` that was added and leaves
out each `ins`, message and trace.

`Tree.Coated` says what a tree looks like that has paint on it. Each edit of the painter keeps it: a
word more in a class (`Coated.addClass`), a node that is made (`Coated.add`), or hung in beside the
document (`Coated.hang_new`) or into it (`Coated.hang_note`), and the wrapping of the children of an
element (`Coated.wrap`). From it alone follows that the document is found again under the paint
(`Coated.unclassed_erased`).
-/

namespace LiveSpec

namespace Markup

/-- What a node is, apart from the attribute `class`. -/
def Content.unclassed : Content → Content := Content.mapAttributes (Attributes.erase "class")

namespace Attributes

/-- Putting an attribute changes no other. -/
theorem erase_put (name value : String) (as : Attributes) :
    (as.put name value).erase name = as.erase name := by
  have hsame : Text.sameName name name = true := by simp [Text.sameName]
  induction as with
  | nil => simp [put, erase, hsame]
  | cons a as ih =>
    obtain ⟨n, old⟩ := a
    unfold erase at ih ⊢
    by_cases hn : Text.sameName n name = true
    · simp [put, hn]
    · simp [put, hn, ih]

/-- Adding a class changes no attribute but `class`. -/
theorem erase_addClass (w : String) (as : Attributes) :
    (addClass w as).erase "class" = as.erase "class" := by
  unfold addClass
  split
  · rfl
  · exact erase_put ..

end Attributes

namespace Tree

variable {t s s' : Tree} {base : Nat} {n m p x c d : NodeId} {w : String}
  {f : List NodeId → List NodeId}

/-! ## The tree without its paint -/

/-- What painting adds besides a wrapper: the actual text of a failure, the message of an exception,
its frames. -/
def isNote (t : Tree) (c : NodeId) : Bool :=
  t.name c = "ins" || t.hasClass c "exceptionMessage" || t.hasClass c "stackTrace"

/-- What stands for a child once the paint is off, where all nodes from `base` on are paint. A `del`
is unwrapped, what painting adds besides is left out, and all else stays. -/
def peeled (t : Tree) (base : Nat) : Nat → NodeId → List NodeId
  | 0, c => [c]
  | fuel + 1, c =>
    if c < base then [c]
    else if t.name c = "del" then (t.node c).children.flatMap (peeled t base fuel)
    else if t.isNote c then []
    else [c]

/-- Where a node hangs once the paint is off: what an unwrapped `del` contains takes its place. -/
def homeLink (t : Tree) (base : Nat) : Nat → NodeId → Link
  | 0, n => (t.node n).link
  | fuel + 1, n =>
    match (t.node n).link with
    | .below d => if base ≤ d ∧ t.name d = "del" ∧ n ∈ (t.node
      d).children then homeLink t base fuel d else .below d
    | l => l

/-- The tree of the nodes before `base`, with the paint taken off. -/
def erased (t : Tree) (base : Nat) : Tree :=
  ⟨.ofFn fun n : Fin base =>
    { t.node n with
      children := (t.node n).children.flatMap (t.peeled base (t.nodes.size + 1))
      link := t.homeLink base (t.nodes.size + 1) n }⟩

/-- The tree without any attribute `class`. -/
def unclassed (t : Tree) : Tree := ⟨t.nodes.map fun x => { x with content := x.content.unclassed }⟩

/-- A node without the paint has what its children stand for. -/
theorem node_erased (h : n < base) : (t.erased base).node n =
    { t.node n with
      children := (t.node n).children.flatMap (t.peeled base (t.nodes.size + 1))
      link := t.homeLink base (t.nodes.size + 1) n } := by
  simp [erased, node, Array.getD, h]

theorem node_unclassed (t : Tree) (n : NodeId) :
    t.unclassed.node n = { t.node n with content := (t.node n).content.unclassed } := by
  by_cases h : n < t.nodes.size
  · simp [unclassed, node, Array.getD, h]
  · simp [unclassed, node, Array.getD, h, Node.fresh, Content.unclassed, Content.mapAttributes]

theorem name_addClass : (t.addClass n w).name m = t.name m := name_modifyAttributes _

/-- A node is a note by its content. -/
theorem isNote_congr (h : (s.node c).content = (t.node c).content) : s.isNote c = t.isNote c := by
  unfold isNote hasClass attributes
  rw [name_congr h, h]

/-- A note with one class more is a note. -/
theorem isNote_addClass (hw : IsWord w) (h : t.isNote c = true) :
    (t.addClass n w).isNote c = true := by
  unfold isNote at h ⊢
  simp only [name_addClass, hasClass_addClass hw, Bool.or_eq_true] at h ⊢
  tauto

/-- A node is put after another somewhere in the list. -/
theorem exists_putAfter (a c : NodeId) (cs : List NodeId) : ∃ l r, cs = l ++ r ∧
    putAfter a c cs = l ++ c :: r := by
  induction cs with
  | nil => exact ⟨[], [], rfl, rfl⟩
  | cons b cs ih =>
    unfold putAfter
    split
    · exact ⟨[b], cs, rfl, rfl⟩
    · obtain ⟨l, r, hcs, hput⟩ := ih
      exact ⟨b :: l, r, by rw [hcs]; rfl, by rw [hput]; rfl⟩

/-! ## Under the paint -/

/-- The nodes of the document that a child stands for. -/
def bare (t : Tree) (base : Nat) (c : NodeId) : List NodeId :=
  if c < base then [c] else if t.name c = "del" then (t.node c).children.filter (· < base) else []

/-- The tree `s` is `t` with paint on it: nodes that were added, and words `w` in the class of a
node `n` for which `ok n w` says so. -/
structure Coated (ok : NodeId → String → Prop) (t s : Tree) : Prop extends s.Hung where
  size_le : t.nodes.size ≤ s.nodes.size
  content {n : NodeId} :
    n < t.nodes.size → (s.node n).content.unclassed = (t.node n).content.unclassed
  classes {n : NodeId} :
    n < t.nodes.size → ∃ ws, (s.attributes n).classes = (t.attributes n).classes ++ ws ∧
    ∀ w ∈ ws, ok n w
  destroyed {n : NodeId} : n < t.nodes.size → (s.node n).destroyed = (t.node n).destroyed
  /-- No child of the document is lost, nor does any change places. -/
  children {n : NodeId} : n < t.nodes.size → (s.node n).children.flatMap (s.bare t.nodes.size) =
    (t.node n).children
  /-- What was moved is in a wrapper, and this one hangs where it came from. -/
  moved {d c : NodeId} : t.nodes.size ≤ d → c ∈ (s.node d).children → c < t.nodes.size →
    s.name d = "del" ∧ ∃ p < t.nodes.size, (s.node d).link = .below p ∧ (t.node c).link = .below p
  stayed {n : NodeId} : n < t.nodes.size → (∀ d, t.nodes.size ≤ d → n ∉ (s.node d).children) →
    (s.node n).link = (t.node n).link
  /-- What was added to the document is a wrapper or a note. -/
  added {n c : NodeId} : n < t.nodes.size → c ∈ (s.node n).children → t.nodes.size ≤ c →
    s.name c = "del" ∨ s.isNote c = true
  /-- An element gets one wrapper at most, which then says that it failed; so no wrapper contains
  another. -/
  failed {n c : NodeId} : n < t.nodes.size → c ∈ (s.node n).children → t.nodes.size ≤ c →
    s.name c = "del" →
    s.hasClass n "failure" = true
  inside {d c : NodeId} : t.nodes.size ≤ d → s.name d = "del" → c ∈ (s.node d).children →
    t.nodes.size ≤ c →
    s.name c ≠ "del" ∧ s.isNote c = true

variable {ok : NodeId → String → Prop}

theorem bare_of_lt (h : n < base) : t.bare base n = [n] := if_pos h

/-- A painted node that is no `del` stands for nothing. -/
theorem bare_of_not_del (hc : base ≤ c) (hname : t.name c ≠ "del") : t.bare base c = [] := by
  unfold bare
  rw [if_neg (Nat.not_lt.mpr hc), if_neg hname]

/-- What a child stands for depends on its name and, in a `del`, on its children. -/
theorem bare_congr (hname : s.name c = t.name c) (hchildren : s.name c = "del" → base ≤ c →
    (s.node c).children = (t.node c).children) : s.bare base c = t.bare base c := by
  unfold bare
  by_cases hc : c < base
  · rw [if_pos hc, if_pos hc]
  · by_cases hdel : s.name c = "del"
    · rw [hchildren hdel (Nat.not_lt.mp hc), hname]
    · rw [if_neg hc, if_neg hc, if_neg hdel, if_neg (hname ▸ hdel)]

/-- Where no painted child is a `del`, the children stand for those of the document. -/
theorem flatMap_bare (cs : List NodeId) (h : ∀ c ∈ cs, base ≤ c → t.name c ≠ "del") :
    cs.flatMap (t.bare base) = cs.filter (· < base) := by
  induction cs with
  | nil => rfl
  | cons c cs ih =>
    have ih := ih fun x hx => h x (List.mem_cons_of_mem c hx)
    rw [List.flatMap_cons, ih]
    by_cases hc : c < base
    · rw [bare_of_lt hc]
      simp [hc]
    · rw [bare_of_not_del (Nat.not_lt.mp hc) (h c (by simp) (Nat.not_lt.mp hc))]
      simp [hc]

namespace Coated

/-- A tree is coated with nothing. -/
theorem refl (ht : t.Hung) : Coated ok t t where
  toHung := ht
  size_le := Nat.le_refl _
  content _ := rfl
  classes _ := ⟨[], by simp⟩
  destroyed _ := rfl
  children {n} _ := by
    have hlt : ∀ c ∈ (t.node n).children, c < t.nodes.size := fun c hc => ht.child_lt hc
    rw [flatMap_bare _ fun c hc hge => absurd (hlt c hc) (Nat.not_lt.mpr hge)]
    exact List.filter_eq_self.mpr (by simpa using hlt)
  moved hd hc _ := absurd (lt_size_of_mem_children hc) (Nat.not_lt.mpr hd)
  stayed _ _ := rfl
  added _ hc hge := absurd (ht.child_lt hc) (Nat.not_lt.mpr hge)
  failed _ hc hge := absurd (ht.child_lt hc) (Nat.not_lt.mpr hge)
  inside hd _ hc := absurd (lt_size_of_mem_children hc) (Nat.not_lt.mpr hd)

section

variable (h : Coated ok t s)
include h

/-- A child is no top. -/
theorem ne_of_isTop (hc : s.IsTop c) (hx : x ∈ (s.node p).children) : x ≠ c := by
  rintro rfl
  exact h.unlisted hc hx

/-! ## What each edit keeps -/

/-- A class may be added to a coated tree, if it may be at that node. -/
theorem addClass (hw : IsWord w) (hok : n < t.nodes.size → ok n w) :
    Coated ok t (s.addClass n w) := by
  have hshape : s.SameShape (s.addClass n w) := modifyAttributes_sameShape _
  have hbare : (s.addClass n w).bare t.nodes.size = s.bare t.nodes.size :=
    funext fun c => bare_congr name_addClass fun _ _ => hshape.children c
  refine { toHung := h.toHung.of_sameShape hshape, size_le := hshape.size.symm ▸
    h.size_le, content := ?_,
           classes := ?_, destroyed := ?_, children := ?_, moved := ?_, stayed := ?_, added :=
             ?_, failed := ?_,
           inside := ?_ }
  · intro m hm
    rw [← h.content hm, Tree.addClass, node_modifyAttributes]
    split
    · cases (s.node m).content <;> simp [Content.unclassed, Content.mapAttributes,
        Attributes.erase_addClass]
    · rfl
  · intro m hm
    obtain ⟨ws, hold, hws⟩ := h.classes hm
    rw [Tree.addClass, attributes_modifyAttributes]
    by_cases hn : n = m ∧ s.isElement n = true
    · obtain ⟨rfl, hn⟩ := hn
      rw [if_pos ⟨rfl, hn⟩, Attributes.classes_addClass hw]
      split
      · exact ⟨ws, hold, hws⟩
      · refine ⟨ws ++ [w], by rw [hold, List.append_assoc], fun v hv => ?_⟩
        rcases List.mem_append.mp hv with hv | hv
        · exact hws v hv
        · exact List.mem_singleton.mp hv ▸ hok hm
    · rw [if_neg hn]
      exact ⟨ws, hold, hws⟩
  · intro m hm
    rw [hshape.destroyed, h.destroyed hm]
  · intro m hm
    rw [hshape.children, hbare, h.children hm]
  · intro d c hd hc hlt
    rw [hshape.children] at hc
    rw [name_addClass, hshape.link]
    exact h.moved hd hc hlt
  · intro m hm hnot
    rw [hshape.link]
    exact h.stayed hm fun d hd hc => hnot d hd (by rwa [hshape.children])
  · intro m c hm hc hge
    rw [hshape.children] at hc
    rw [name_addClass]
    exact (h.added hm hc hge).imp_right (isNote_addClass hw)
  · intro m c hm hc hge hdel
    rw [hshape.children] at hc
    rw [name_addClass] at hdel
    rw [hasClass_addClass hw, h.failed hm hc hge hdel, Bool.true_or]
  · intro d c hd hdel hc hge
    rw [hshape.children] at hc
    rw [name_addClass] at hdel ⊢
    exact (h.inside hd hdel hc hge).imp_right (isNote_addClass hw)

/-- What an edit has to show that makes nodes and hangs nodes in that were made: nothing of the
document is listed elsewhere, a wrapper keeps its children, and what the document gets besides is a
note. -/
theorem extend (hhung : s'.Hung) (hsize : s.nodes.size ≤ s'.nodes.size)
    (hcontent : ∀ {m}, m < s.nodes.size → (s'.node m).content = (s.node m).content)
    (hdestroyed : ∀ {m}, m < s.nodes.size → (s'.node m).destroyed = (s.node m).destroyed)
    (hold : ∀ {m}, m < t.nodes.size → (s'.node m).link = (s.node m).link)
    (hlink : ∀ {m p}, (s.node m).link = .below p → (s'.node m).link = .below p)
    (hdown : ∀ {d}, t.nodes.size ≤ d → (s'.node d).children = (s.node d).children ∨
      s'.name d ≠ "del" ∧ d < s.nodes.size ∧ ∀ c ∈ (s'.node d).children, t.nodes.size ≤ c)
    (hchildren : ∀ {m}, m < t.nodes.size → (s'.node m).children.flatMap (s'.bare t.nodes.size) =
      (s.node m).children.flatMap (s'.bare t.nodes.size))
    (hadded : ∀ {m c}, m < t.nodes.size → c ∈ (s'.node m).children → c ∈ (s.node m).children ∨
      s'.name c ≠ "del" ∧ s'.isNote c = true) : Coated ok t s' := by
  have hlt : ∀ {m}, m < t.nodes.size → m < s.nodes.size := fun hm => Nat.lt_of_lt_of_le hm h.size_le
  have hname : ∀ {m}, m < s.nodes.size → s'.name m = s.name m := fun hm => name_congr (hcontent hm)
  have hwrapper : ∀ {d}, t.nodes.size ≤ d → s'.name d = "del" →
      (s'.node d).children = (s.node d).children :=
    fun hd hdel => (hdown hd).resolve_right fun hnot => hnot.1 hdel
  refine { toHung := hhung, size_le := Nat.le_trans h.size_le hsize, content := ?_,
           classes := ?_, destroyed := ?_, children := ?_, moved := ?_, stayed := ?_, added :=
             ?_, failed := ?_,
           inside := ?_ }
  · intro m hm
    rw [hcontent (hlt hm), h.content hm]
  · intro m hm
    obtain ⟨ws, hws⟩ := h.classes hm
    refine ⟨ws, ?_⟩
    unfold attributes at hws ⊢
    rwa [hcontent (hlt hm)]
  · intro m hm
    rw [hdestroyed (hlt hm), h.destroyed hm]
  · intro m hm
    rw [hchildren hm, ← h.children hm]
    refine List.flatMap_congr fun c hc => ?_
    exact bare_congr (hname (h.child_lt hc)) fun hdel hge => hwrapper hge hdel
  · intro d c hd hc hlt'
    rcases hdown hd with hsame | ⟨-, -, hnew⟩
    · rw [hsame] at hc
      obtain ⟨hdel, p, hp, hdp, hcp⟩ := h.moved hd hc hlt'
      exact ⟨(hname (lt_size_of_mem_children hc)).trans hdel, p, hp, hlink hdp, hcp⟩
    · exact absurd hlt' (Nat.not_lt.mpr (hnew c hc))
  · intro m hm hnot
    rw [hold hm]
    refine h.stayed hm fun d hd hc => ?_
    rcases hdown hd with hsame | ⟨hdel, hlt', -⟩
    · exact hnot d hd (hsame ▸ hc)
    · exact hdel ((hname hlt').trans (h.moved hd hc hm).1)
  · intro m c hm hc hge
    rcases hadded hm hc with hc | ⟨-, hnote⟩
    · have hclt := h.child_lt hc
      rw [hname hclt, isNote_congr (hcontent hclt)]
      exact h.added hm hc hge
    · exact .inr hnote
  · intro m c hm hc hge hdel
    rcases hadded hm hc with hc | ⟨hnot, -⟩
    · rw [hname (h.child_lt hc)] at hdel
      have hfailed := h.failed hm hc hge hdel
      unfold hasClass attributes at hfailed ⊢
      rwa [hcontent (hlt hm)]
    · exact absurd hdel hnot
  · intro d c hd hdel hc hge
    rw [hwrapper hd hdel] at hc
    rw [hname (lt_size_of_mem_children hc)] at hdel
    have hclt := h.child_lt hc
    rw [hname hclt, isNote_congr (hcontent hclt)]
    exact h.inside hd hdel hc hge

/-- A new node hangs nowhere yet. -/
theorem add (content : Content) : Coated ok t (s.add content).2 := by
  have hnode : ∀ {m}, m < s.nodes.size → (s.add content).2.node m = s.node m :=
    fun hm => node_add_of_lt content hm
  have hchildren : ∀ m, ((s.add content).2.node m).children = (s.node m).children := fun m => by
    rw [children_add]
  refine h.extend (h.toHung.add content) (by rw [size_add]; exact Nat.le_succ _)
    (fun hm => by rw [hnode hm])
    (fun hm => by rw [hnode hm]) (fun hm => by rw [hnode (Nat.lt_of_lt_of_le hm h.size_le)]) ?_
    (fun {d} _ => .inl (hchildren d)) (fun {m} _ => by rw [hchildren])
      (fun {m c} _ hc => .inl (hchildren m ▸ hc))
  intro m p hl
  by_cases hm : m < s.nodes.size
  · rw [hnode hm, hl]
  · rw [node_of_size_le _ _ (Nat.not_lt.mp hm)] at hl
    cases hl

variable (hc : s.IsTop c) (hnew : t.nodes.size ≤ c)
include hc hnew

/-- A node that was made is hung into another one that is no wrapper. -/
theorem hang_new (hp : p < s.nodes.size) (hpnew : t.nodes.size ≤ p) (hname : s.name p ≠ "del")
    (hput : (f (s.node p).children).Perm (c :: (s.node p).children)) :
    Coated ok t (s.hang c p f) := by
  have hcontent : ∀ m, ((s.hang c p f).node m).content = (s.node m).content := fun m => by
    rw [node_hang]
  have hother :
      ∀ {m}, m ≠ p → ((s.hang c p f).node m).children = (s.node m).children := fun hm => by
    rw [children_hang f hp, if_neg (Ne.symm hm)]
  have hne : ∀ {m}, m < t.nodes.size → m ≠ p := fun hm => Nat.ne_of_lt (Nat.lt_of_lt_of_le hm hpnew)
  refine h.extend (h.toHung.hang hc hp hput) (Nat.le_of_eq (size_hang f).symm)
    (fun {m} _ => hcontent m)
    (fun _ => by rw [node_hang]) ?_ ?_ ?_ ?_ ?_
  · intro m hm
    rw [link_hang f hc.lt, if_neg (Nat.ne_of_gt (Nat.lt_of_lt_of_le hm hnew))]
  · intro m q hl
    rw [link_hang f hc.lt, if_neg, hl]
    rintro rfl
    rw [hc.link] at hl
    cases hl
  · intro d hd
    by_cases hdp : d = p
    · refine .inr ⟨?_, hdp ▸ hp, fun x hx => ?_⟩
      · rwa [name_congr (hcontent d), hdp]
      · rcases (mem_children_hang hp hput).mp hx with hx | ⟨-, rfl⟩
        · refine Nat.not_lt.mp fun hlt => hname ?_
          exact hdp ▸ (h.moved hd hx hlt).1
        · exact hnew
    · exact .inl (hother hdp)
  · intro m hm
    rw [hother (hne hm)]
  · intro m x hm hx
    rw [hother (hne hm)] at hx
    exact .inl hx

/-- A note is hung into a node of the document. -/
theorem hang_note (hp : p < t.nodes.size) (hname : s.name c ≠ "del") (hnote : s.isNote c = true)
    (hput : ∃ l r, (s.node p).children = l ++ r ∧ f (s.node p).children = l ++ c :: r) :
    Coated ok t (s.hang c p f) := by
  have hcontent : ∀ m, ((s.hang c p f).node m).content = (s.node m).content := fun m => by
    rw [node_hang]
  have hplt : p < s.nodes.size := Nat.lt_of_lt_of_le hp h.size_le
  have hother :
      ∀ {m}, m ≠ p → ((s.hang c p f).node m).children = (s.node m).children := fun hm => by
    rw [children_hang f hplt, if_neg (Ne.symm hm)]
  obtain ⟨l, r, hsplit, hput⟩ := hput
  have hperm : (f (s.node p).children).Perm (c :: (s.node p).children) := by
    rw [hput, hsplit]
    exact List.perm_middle
  have hself : ((s.hang c p f).node p).children = l ++ c :: r := by
    rw [children_hang f hplt, if_pos rfl, hput]
  refine h.extend (h.toHung.hang hc hplt hperm) (Nat.le_of_eq (size_hang f).symm)
    (fun {m} _ => hcontent m)
    (fun _ => by rw [node_hang]) ?_ ?_ ?_ ?_ ?_
  · intro m hm
    rw [link_hang f hc.lt, if_neg (Nat.ne_of_gt (Nat.lt_of_lt_of_le hm hnew))]
  · intro m q hl
    rw [link_hang f hc.lt, if_neg, hl]
    rintro rfl
    rw [hc.link] at hl
    cases hl
  · intro d hd
    exact .inl (hother (Nat.ne_of_gt (Nat.lt_of_lt_of_le hp hd)))
  · intro m hm
    by_cases hmp : m = p
    · subst hmp
      have hbare : (s.hang c m f).bare t.nodes.size c = [] :=
        bare_of_not_del hnew (by rwa [name_congr (hcontent c)])
      rw [hself, hsplit, List.flatMap_append, List.flatMap_append, List.flatMap_cons, hbare,
        List.nil_append]
    · rw [hother hmp]
  · intro m x hm hx
    rcases (mem_children_hang hplt hperm).mp hx with hx | ⟨-, rfl⟩
    · exact .inl hx
    · rw [name_congr (hcontent x), isNote_congr (hcontent x)]
      exact .inr ⟨hname, hnote⟩

end

/-- **The children of a failed element go into a wrapper, which takes their place.** -/
theorem wrap (h : Coated ok t s) (hn : n < t.nodes.size) (hd : s.IsTop d) (hnew : t.nodes.size ≤ d)
    (hdel : s.name d = "del") (hempty : (s.node d).children = [])
    (hfailed : s.hasClass n "failure" = true)
    (hfirst : ∀ c ∈ (s.node n).children, t.nodes.size ≤ c → s.name c ≠ "del") {s₁ : Tree}
    (hmoved : Moved n d s s₁) :
    Coated ok t (s₁.hang d n (· ++ [d])) := by
  have hne : n ≠ d := Nat.ne_of_lt (Nat.lt_of_lt_of_le hn hnew)
  have hnlt : n < s₁.nodes.size := hmoved.size.symm ▸ Nat.lt_of_lt_of_le hn h.size_le
  have hlink₁ : ∀ m, (s₁.node m).link = if m ∈ (s.node n).children then .below d else
      (s.node m).link := fun m => by
    rw [hmoved.node]
  have hchildren₁ : ∀ m, (s₁.node m).children = if m = n then [] else if m = d then
      (s.node n).children else
      (s.node m).children := fun m => by
    rw [hmoved.node, hempty, List.nil_append]
  have hd₁ : s₁.IsTop d :=
    ⟨hmoved.size.symm ▸ hd.lt, by rw [hlink₁, if_neg (h.unlisted hd), hd.link]⟩
  have hhung : (s₁.hang d n (· ++ [d])).Hung :=
    (h.toHung.move hne hmoved).hang hd₁ hnlt (List.perm_append_singleton ..)
  generalize hs₂ : s₁.hang d n (· ++ [d]) = s₂ at hhung ⊢
  have hcontent : ∀ m, (s₂.node m).content = (s.node m).content := fun m => by
    rw [← hs₂, node_hang, hmoved.node]
  have hname : ∀ m, s₂.name m = s.name m := fun m => name_congr (hcontent m)
  have hlink : ∀ m, (s₂.node m).link =
      if d = m then .below n else if m ∈ (s.node n).children then .below d else
        (s.node m).link := fun m => by
    rw [← hs₂, link_hang _ hd₁.lt, hlink₁]
  have hchildren : ∀ m, (s₂.node m).children =
      if m = n then [d] else if m = d then (s.node n).children else
        (s.node m).children := fun m => by
    rw [← hs₂, children_hang _ hnlt, hchildren₁]
    by_cases hm : m = n
    · simp [hm]
    · simp [hm, Ne.symm hm]
  -- where a wrapper keeps its children
  have hother :
      ∀ {m}, m ≠ n → m ≠ d → (s₂.node m).children = (s.node m).children := fun hmn hmd => by
    rw [hchildren, if_neg hmn, if_neg hmd]
  have hge : ∀ {m}, t.nodes.size ≤ m → m ≠ n := fun hm => Nat.ne_of_gt (Nat.lt_of_lt_of_le hn hm)
  have hself : (s₂.node d).children = (s.node n).children := by
    rw [hchildren, if_neg (Ne.symm hne), if_pos rfl]
  have hold : ∀ {m}, m < t.nodes.size → m ≠ d := fun hm => Nat.ne_of_lt (Nat.lt_of_lt_of_le hm hnew)
  refine { toHung := hhung, size_le := ?_, content := ?_, classes := ?_, destroyed := ?_,
           children := ?_, moved := ?_, stayed := ?_, added := ?_, failed := ?_, inside := ?_ }
  · rw [← hs₂, size_hang, hmoved.size]
    exact h.size_le
  · intro m hm
    rw [hcontent, h.content hm]
  · intro m hm
    obtain ⟨ws, hws⟩ := h.classes hm
    refine ⟨ws, ?_⟩
    unfold attributes at hws ⊢
    rwa [hcontent]
  · intro m hm
    rw [← hs₂, node_hang, hmoved.node]
    exact h.destroyed hm
  · intro m hm
    by_cases hmn : m = n
    · subst hmn
      have hbare : s₂.bare t.nodes.size d = (s.node m).children.filter (· < t.nodes.size) := by
        unfold bare
        rw [if_neg (Nat.not_lt.mpr hnew), hname, if_pos hdel, hself]
      rw [hchildren, if_pos rfl, List.flatMap_cons, List.flatMap_nil, List.append_nil, hbare,
        ← h.children hm]
      exact (flatMap_bare _ hfirst).symm
    · rw [hother hmn (hold hm), ← h.children hm]
      refine List.flatMap_congr fun c hc => bare_congr (hname c) fun _ hcge => hother (hge hcge) ?_
      exact h.ne_of_isTop hd hc
  · intro e c he hc hlt
    by_cases hed : e = d
    · subst hed
      rw [hself] at hc
      refine ⟨(hname e).trans hdel, n, hn, by rw [hlink, if_pos rfl], ?_⟩
      -- a node that no wrapper contains hangs where it hung before
      have hstayed : (s.node c).link = (t.node c).link := h.stayed hlt fun q hq hcq => by
        obtain rfl := h.parent_unique hc hcq
        exact absurd hn (Nat.not_lt.mpr hq)
      exact hstayed.symm.trans (h.child_link hc)
    · rw [hother (hge he) hed] at hc
      obtain ⟨hedel, p, hp, hep, hcp⟩ := h.moved he hc hlt
      refine ⟨(hname e).trans hedel, p, hp, ?_, hcp⟩
      rw [hlink, if_neg (Ne.symm hed), if_neg fun hmem => hfirst e hmem he hedel, hep]
  · intro m hm hnot
    have hmem : m ∉ (s.node n).children := fun hc => hnot d hnew (hself ▸ hc)
    rw [hlink, if_neg (Ne.symm (hold hm)), if_neg hmem]
    refine h.stayed hm fun e he hc => ?_
    by_cases hed : e = d
    · subst hed
      simp [hempty] at hc
    · exact hnot e he (by rwa [hother (hge he) hed])
  · intro m c hm hc hcge
    rw [hname, isNote_congr (hcontent c)]
    by_cases hmn : m = n
    · rw [hchildren, if_pos hmn] at hc
      exact .inl (List.mem_singleton.mp hc ▸ hdel)
    · rw [hother hmn (hold hm)] at hc
      exact h.added hm hc hcge
  · intro m c hm hc hcge hcdel
    rw [hname] at hcdel
    have hclass : s.hasClass m "failure" = true := by
      by_cases hmn : m = n
      · exact hmn ▸ hfailed
      · rw [hother hmn (hold hm)] at hc
        exact h.failed hm hc hcge hcdel
    unfold hasClass attributes at hclass ⊢
    rwa [hcontent]
  · intro e c he hedel hc hcge
    rw [hname] at hedel
    rw [hname, isNote_congr (hcontent c)]
    by_cases hed : e = d
    · subst hed
      rw [hself] at hc
      exact ⟨hfirst c hc hcge, (h.added hn hc hcge).resolve_left (hfirst c hc hcge)⟩
    · rw [hother (hge he) hed] at hc
      exact h.inside he hedel hc hcge

/-! ## What is under the paint -/

section

variable (h : Coated ok t s)
include h

/-- Two levels are enough to take the paint off a child, since no wrapper contains another. -/
theorem peeled_eq (hn : n < t.nodes.size) (hc : c ∈ (s.node n).children) (fuel : Nat) :
    s.peeled t.nodes.size (fuel + 2) c = s.bare t.nodes.size c := by
  unfold peeled bare
  by_cases hlt : c < t.nodes.size
  · rw [if_pos hlt, if_pos hlt]
  · have hge := Nat.not_lt.mp hlt
    rw [if_neg hlt, if_neg hlt]
    by_cases hdel : s.name c = "del"
    · rw [if_pos hdel, if_pos hdel, ← flatMap_bare _ fun x hx hxge => (h.inside hge hdel hx hxge).1]
      refine List.flatMap_congr fun x hx => ?_
      unfold peeled
      by_cases hxlt : x < t.nodes.size
      · rw [if_pos hxlt, bare_of_lt hxlt]
      · have hxge := Nat.not_lt.mp hxlt
        obtain ⟨hxdel, hnote⟩ := h.inside hge hdel hx hxge
        rw [if_neg hxlt, if_neg hxdel, if_pos hnote, bare_of_not_del hxge hxdel]
    · rw [if_neg hdel, if_neg hdel, if_pos ((h.added hn hc hge).resolve_left hdel)]

/-- Every node of the document hangs where it hung. -/
theorem homeLink_eq (hn : n < t.nodes.size) (fuel : Nat) :
    s.homeLink t.nodes.size (fuel + 2) n = (t.node n).link := by
  by_cases hmoved : ∃ d, t.nodes.size ≤ d ∧ n ∈ (s.node d).children
  · obtain ⟨d, hd, hmem⟩ := hmoved
    obtain ⟨hdel, p, hp, hdp, hnp⟩ := h.moved hd hmem hn
    unfold homeLink
    rw [h.child_link hmem]
    dsimp only
    rw [if_pos ⟨hd, hdel, hmem⟩, hnp]
    unfold homeLink
    rw [hdp]
    exact if_neg fun hp' => absurd hp (Nat.not_lt.mpr hp'.1)
  · have hnot : ∀ d, t.nodes.size ≤ d → n ∉ (s.node d).children :=
      fun d hd hmem => hmoved ⟨d, hd, hmem⟩
    unfold homeLink
    rw [h.stayed hn hnot]
    cases (t.node n).link with
    | below d => exact if_neg fun hd => hnot d hd.1 hd.2.2
    | _ => rfl

/-- Without paint and classes, the coated tree is the tree. -/
theorem unclassed_erased : (s.erased t.nodes.size).unclassed = t.unclassed := by
  refine ext_node (by simp [erased, unclassed]) fun n => ?_
  rw [node_unclassed, node_unclassed]
  by_cases hn : n < t.nodes.size
  · obtain ⟨fuel, hfuel⟩ : ∃ fuel, s.nodes.size = fuel + 1 :=
      Nat.exists_eq_succ_of_ne_zero
        (Nat.ne_of_gt (Nat.lt_of_le_of_lt (Nat.zero_le n) (Nat.lt_of_lt_of_le hn h.size_le)))
    have hchildren :
        (s.node n).children.flatMap (s.peeled t.nodes.size (fuel + 2)) = (t.node n).children := by
      rw [← h.children hn]
      exact List.flatMap_congr fun c hc => h.peeled_eq hn hc fuel
    rw [node_erased hn, hfuel, hchildren, h.homeLink_eq hn]
    dsimp only
    rw [h.destroyed hn, h.content hn]
  · rw [node_of_size_le t n (Nat.not_lt.mp hn), node_of_size_le _ n (by simpa [erased] using hn)]

end

end Coated
end Tree
end Markup
end LiveSpec
