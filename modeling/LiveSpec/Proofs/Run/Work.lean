import LiveSpec.Proofs.Run.Onward

/-!
# Work at some elements

The calls of a row work at the cells of the row: `Works` is any number of deeds at elements of a
list, and of visits. From a sound tree the run goes on, no new elements come to be, outcomes are
reported at these elements only, and a branch that none of them lies in stays as it is
(`Works.untouched`).

A comparison of rows is more than that, since it adds rows. But where no row stands below the
elements it has no table to work on, and then the calls of a row do no more than work
(`runRow_works`).
-/

namespace LiveSpec

open Markup (NodeId Tree)

/-- A node that a text replaces the content of lists at most a text. -/
theorem Markup.Tree.lt_of_isElement_setText {t : Tree} {n x : NodeId} {s : String}
    (hn : n < t.nodes.size) (h : (t.setText n s).isElement x = true) : x < t.nodes.size := by
  have hlt := Tree.lt_size_of_isElement h
  unfold Tree.setText at h hlt
  dsimp only at h hlt
  split at h
  · next hs =>
    rw [if_pos hs, Tree.size_cutChildren] at hlt
    exact hlt
  · next hs =>
    rw [if_neg hs, Tree.appendText_eq, Tree.size_hang, Tree.size_add, Tree.size_cutChildren] at hlt
    refine Nat.lt_of_le_of_ne (Nat.le_of_lt_succ hlt) fun he => ?_
    unfold Tree.isElement at h
    rw [Tree.appendText_eq, Tree.node_hang_add _ _ (by simpa using hn), Tree.size_cutChildren,
      if_pos he] at h
    cases h

variable {φ : Type} {s s' s'' : RunState φ} {n : NodeId} {ns : List NodeId}

/-- A deed at one of some elements, or a visit that is noted. -/
inductive Work (ns : List NodeId) (s s' : RunState φ) : Prop
  | deed (n : NodeId) (mem : n ∈ ns) (h : Deed n s s')
  | visit (p : Phase) (o : Occurrence) (h : s' = { s with visits := s.visits ++ [(p, o)] })

/-- Any number of deeds at some elements, and of visits. -/
abbrev Works (ns : List NodeId) : RunState φ → RunState φ → Prop := Relation.ReflTransGen (Work ns)

theorem Works.of_deeds (hn : n ∈ ns) (h : Deeds n s s') : Works ns s s' := by
  induction h with
  | refl => exact .refl
  | tail _ hd ih => exact .tail ih (.deed n hn hd)

theorem Work.onward (h : Work ns s s') (hs : s.tree.Sound)
    (hns : ∀ n ∈ ns, s.tree.isElement n = true) :
    s.Onward s' := by
  cases h with
  | deed n hn hd => exact hd.onward hs (hns n hn)
  | visit p o h => exact h ▸ ⟨.refl, hs, List.prefix_append .., List.prefix_rfl⟩

theorem Works.onward (h : Works ns s s') (hs : s.tree.Sound)
    (hns : ∀ n ∈ ns, s.tree.isElement n = true) :
    s.Onward s' := by
  induction h with
  | refl => exact refl_of (Leads ns) s hs hns
  | tail _ hw ih => exact ih.trans (hw.onward ih.sound fun n hn => ih.tree.element (hns n hn))

/-! ## What comes to be -/

theorem Deed.old_element (h : Deed n s s') (hs : s.tree.Sound) (hn : s.tree.isElement n = true)
    {x : NodeId} (hx : s'.tree.isElement x = true) : s.tree.isElement x = true := by
  have hgo := (h.onward hs hn).tree
  have hlt : x < s.tree.nodes.size := by
    have hlt := Tree.lt_size_of_isElement hx
    cases h with
    | report r =>
      rw [r.tree] at hlt
      exact hlt
    | fill text h =>
      rw [h] at hx
      exact Tree.lt_of_isElement_setText (Tree.lt_size_of_isElement hn) hx
    | remove t ht h =>
      obtain ⟨-, hsize, -⟩ := Tree.remove_eq ht
      rw [h] at hlt
      exact hsize ▸ hlt
    | tidy held h =>
      have hr : s.tree.Released (s.tree.release held) := hs.released
      rw [h] at hlt
      exact hr.size ▸ hlt
  exact (hgo.isElement hlt).symm.trans hx

/-- All elements there are were there before. -/
theorem Works.old_element (h : Works ns s s') (hs : s.tree.Sound)
    (hns : ∀ n ∈ ns, s.tree.isElement n = true) {x : NodeId} (hx : s'.tree.isElement x = true) :
    s.tree.isElement x = true := by
  induction h with
  | refl => exact hx
  | @tail s₁ s₂ hworks hw ih =>
    have hgo : s.Onward s₁ := Works.onward hworks hs hns
    refine ih ?_
    cases hw with
    | deed n hn hd => exact hd.old_element hgo.sound (hgo.tree.element (hns n hn)) hx
    | visit p o h =>
      rw [h] at hx
      exact hx

/-- Outcomes are reported at the elements, and they are not about rows. -/
theorem Works.outcomes (h : Works ns s s') : ∃ xs : List Recorded,
    s'.record.outcomes = s.record.outcomes ++ xs ∧ ∀ x ∈ xs, x.element ∈ ns ∧
      x.outcome.isAboutRow = false := by
  induction h with
  | refl => exact ⟨[], by simp, by simp⟩
  | @tail s₁ s₂ _ hw ih =>
    obtain ⟨xs, hxs, hall⟩ := ih
    have hsame : s₂.record = s₁.record → ∃ xs : List Recorded,
        s₂.record.outcomes = s.record.outcomes ++ xs ∧ ∀ x ∈ xs, x.element ∈ ns ∧
          x.outcome.isAboutRow = false :=
      fun he => ⟨xs, he ▸ hxs, hall⟩
    cases hw with
    | visit p o h => exact hsame (by rw [h])
    | deed n hn hd =>
      cases hd with
      | report r =>
        obtain ⟨ys, hys, hy⟩ := r.outcomes
        refine ⟨xs ++ ys.map fun y => ⟨n, y⟩, by rw [hy, hxs, List.append_assoc], fun x hx => ?_⟩
        rcases List.mem_append.mp hx with hx | hx
        · exact hall x hx
        · obtain ⟨y, hymem, rfl⟩ := List.mem_map.mp hx
          exact ⟨hn, hys y hymem⟩
      | fill text h => exact hsame (by rw [h])
      | remove t ht h => exact hsame (by rw [h])
      | tidy held h => exact hsame (by rw [h])

/-! ## What stays -/

theorem Deed.untouched (h : Deed n s s') (hs : s.tree.Sound) (hn : s.tree.isElement n = true)
    {r : NodeId}
    (hr : s'.tree.Standing r) (hrs : r < s.tree.nodes.size) (hout : ¬ s.tree.Under r n) :
    s.tree.Untouched s'.tree r := by
  have hgo := (h.onward hs hn)
  have hr₀ := hgo.tree.standing hs.toCoherent hgo.sound.toCoherent hrs hr
  have hlt : ∀ {x}, s.tree.Under r x → x < s.tree.nodes.size :=
    fun hx => hs.standing_lt (hr₀.under hx)
  refine ⟨fun {x} hx => ?_, fun {x} hx => hgo.tree.content (hlt hx)⟩
  cases h with
  | report r => rw [r.tree]
  | fill text h =>
    rw [h]
    exact Tree.children_setText (Tree.lt_size_of_isElement hn) (hlt hx)
      (fun he => hout (he ▸ hx)) text
  | remove t ht h =>
    rw [h]
    exact Tree.children_remove ht fun hmem => hout (.child hx hmem)
  | tidy held h =>
    have hrel : s.tree.Released (s.tree.release held) := hs.released
    rw [h]
    dsimp only
    rw [hrel.node (hr₀.under hx)]

/-- A branch that none of the elements lies in stays as it is, if it stands. -/
theorem Works.untouched (h : Works ns s s') (hs : s.tree.Sound)
    (hns : ∀ n ∈ ns, s.tree.isElement n = true) {r : NodeId} (hr : s'.tree.Standing r)
    (hrs : r < s.tree.nodes.size) (hout : ∀ n ∈ ns, ¬ s.tree.Under r n) :
    s.tree.Untouched s'.tree r := by
  induction h with
  | refl => exact .refl
  | @tail s₁ s₂ hworks hw ih =>
    have hgo : s.Onward s₁ := Works.onward hworks hs hns
    have hrs₁ := Nat.lt_of_lt_of_le hrs hgo.tree.size_le
    have helement : ∀ n ∈ ns, s₁.tree.isElement n = true := fun n hn => hgo.tree.element (hns n hn)
    have hgo' := hw.onward hgo.sound helement
    have hr₁ := hgo'.tree.standing hgo.sound.toCoherent hgo'.sound.toCoherent hrs₁ hr
    refine (ih hr₁).trans ?_
    cases hw with
    | deed n hn hd =>
      refine hd.untouched hgo.sound (helement n hn) hr hrs₁ fun hu => hout n hn ?_
      exact hgo.tree.under hs.toCoherent hgo.sound.toCoherent
        (Tree.lt_size_of_isElement (hns n hn)) hu
    | visit p o h =>
      rw [h]
      exact .refl

/-! ## Elements without rows -/

/-- Elements that no row stands below. -/
structure Bare (ns : List NodeId) (s : RunState φ) : Prop where
  sound : s.tree.Sound
  element {n : NodeId} : n ∈ ns → s.tree.isElement n = true
  bare {n x : NodeId} : n ∈ ns → ¬ s.tree.Found n "tr" x

theorem Bare.works (hs : Bare ns s) (h : Works ns s s') : Bare ns s' := by
  have hns : ∀ n ∈ ns, s.tree.isElement n = true := fun n hn => hs.element hn
  have hgo := h.onward hs.sound hns
  refine ⟨hgo.sound, fun hn => hgo.tree.element (hns _ hn),
    fun {n x} hn hx => hs.bare (x := x) hn ?_⟩
  have hlt := Tree.lt_size_of_isElement (h.old_element hs.sound hns hx.element)
  exact hs.sound.found_of_onward hgo.sound.toCoherent hgo.tree hlt hx

/-- From a state without rows below some elements, work is done there. -/
def WorksBare (ns : List NodeId) (s s' : RunState φ) : Prop := Bare ns s → Works ns s s'

instance : IsPreorder (RunState φ) (WorksBare ns) where
  refl _ _ := .refl
  trans _ _ _ h h' hs := (h hs).trans (h' (hs.works (h hs)))

namespace Run

variable [Fixture φ] {env : Surroundings} {o : Occurrence} {p : Phase} {calls : List Occurrence}

/-- Where no row stands below an element, no rows of it are compared. -/
theorem verifyRows_reports {columns : List Occurrence}
    {runRow : List Occurrence → Run φ Unit → Run φ Unit} {u : Unit} (ho : o.element ∈ ns)
    (hs : Bare ns s) (h : (verifyRows env runRow o columns p).Yields s u s') :
    Reports o.element s s' := by
  cases p with
  | setup =>
    obtain ⟨-, rfl⟩ := yields_pure.mp h
    exact refl_of (Reports _) _
  | execute => exact produceItems_reports.keeps h
  | verify =>
    obtain ⟨v?, s₀, hkept, h₁⟩ := yields_bind.mp h
    obtain ⟨-, rfl⟩ := yields_kept?.mp hkept
    split at h₁
    · obtain ⟨a, s₁, hreconcile, -⟩ := yields_bind.mp h₁
      obtain ⟨l, s₂, hlayout, -⟩ := yields_bind.mp hreconcile
      obtain ⟨hl, -⟩ := yields_find.mp hlayout
      obtain ⟨-, -, hfound⟩ := hs.sound.layout_spec (Tree.lt_size_of_isElement (hs.element ho)) hl
      exact absurd (hfound l.header List.mem_cons_self) (hs.bare ho)
    · obtain ⟨-, rfl⟩ := yields_pure.mp h₁
      exact refl_of (Reports _) _

theorem part_works (ho : o.element ∈ ns) : Keeps (WorksBare ns) (part env o p : Run φ Unit) :=
  part_keeps (fun h _ => .of_deeds ho h) fun _ _ _ _ hy hs =>
    .of_deeds ho (.of_reports (verifyRows_reports ho hs hy))

omit [Fixture φ] in
theorem visit_works (s : RunState φ) (p : Phase) (o : Occurrence) :
    WorksBare ns s { s with visits := s.visits ++ [(p, o)] } := fun _ => .single (.visit p o rfl)

omit [Fixture φ] in
theorem worksBare_visits (hs : Bare ns s) (h : WorksBare ns s s') :
    Bare ns s' ∧ s.visits <+: s'.visits :=
  ⟨hs.works (h hs), ((h hs).onward hs.sound fun _ hn => hs.element hn).visits⟩

/-- **The calls of a row work at their elements**, if no row stands below these, and all of them are
visited in each phase. -/
theorem runRow_works (hcalls : ∀ c ∈ calls, c.element ∈ ns) (hs : Bare ns s) {u : Unit}
    (h : (runRow env calls (pure ())).Yields s u s') :
    Works ns s s' ∧ ∀ c ∈ calls, ∀ p, (p, c) ∈ s'.visits := by
  have hpart : ∀ c ∈ calls, ∀ p, Keeps (WorksBare ns) (part env c p : Run φ Unit) := fun c hc p =>
    part_works (hcalls c hc)
  have hkeep : Keeps (WorksBare ns) (runRow env calls (pure ()) : Run φ Unit) :=
    runRow_keeps visit_works hpart .pure
  exact ⟨hkeep h hs, visited_runRow worksBare_visits visit_works hpart .pure hs h⟩

end Run
end LiveSpec
