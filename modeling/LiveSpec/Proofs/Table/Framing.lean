import LiveSpec.Proofs.Run.Framed
import LiveSpec.Proofs.Table.Bystander

/-!
# Tables leave alone what is not theirs

A row that is added for an item changes the children of one element, and is one of them
(`MissingAdded.framed`). The calls of a row do what they do at cells of it, and an `execute` at the
row itself; so whatever a table does to its rows leaves all else alone (`executeTable_frames`,
`verifyRows_frames`). With the calls inside calls this goes for the phases of a whole graph
(`runGraph_frames`).
-/

namespace LiveSpec

open Markup (NodeId Tree)
open TableLayout (cellsOf)

variable {φ : Type} {s s₁ s' : RunState φ} {ns : List NodeId} {n row last : NodeId}
  {key name : String} {l : TableLayout}

namespace Run

/-! ## A comparison of rows -/

theorem MissingAdded.framed (hs : s.tree.Sound) (h : MissingAdded last row key s s') :
    Framed s s' := by
  obtain ⟨p, -, -, hchildren⟩ := h.tree.placed
  have hrecorded : (⟨row, .missingRow key⟩ : Recorded) ∈ s'.record.outcomes := by
    rw [h.outcomes]; simp
  refine ⟨h.onward, ⟨_, h.outcomes, fun r hr => ?_⟩, fun hx _ => h.tree.standing hs hx,
    fun {x} hx _ => ?_⟩
  · rw [List.mem_singleton.mp hr]
    exact h.tree.isElement
  · have hnow := hchildren x (hs.standing_lt hx)
    split at hnow
    · next he =>
      refine .inr ⟨row, key, hrecorded, ?_⟩
      rw [hnow]
      exact (Markup.Tree.perm_putAfter ..).mem_iff.mpr List.mem_cons_self
    · exact .inl hnow

theorem Evaluated.framed {α : Type} {v? : Option α} (hs : s.tree.Sound)
    (hn : s.tree.isElement n = true) (h : Evaluated n v? s s') : Framed s s' :=
  .of_notes hs h.notes (h.adds.mono fun r hr => by rw [hr, h.tree]; exact hn)

section Compared

variable [Fixture φ] {env : Surroundings} {o : Occurrence} {columns : List Occurrence}
  {key? : Option (Nat × Occurrence)} {items : List Value} {free left : List NodeId}
  {fates : List Fate} {runs : List Occurrence → Run φ Unit}

/-- Whatever calls do that were moved to a row, all that is no target of an `echo` is left alone. -/
def RowFrames (l : TableLayout) (columns : List Occurrence)
    (runs : List Occurrence → Run φ Unit) : Prop :=
  ∀ {row calls} {s s₁ s' : RunState φ}, s.tree.Sound → s.tree.isElement row = true →
    (retarget l columns row).Yields s calls s₁ →
    (holding (calls.map Occurrence.element) (runs calls)).Yields s₁ () s' → Framed s s'

theorem Matching.framed (hruns : RowFrames l columns runs)
    (h : Matching env runs o columns name l key? items s free last fates left s')
    (hs : s.tree.Sound) (ho : s.tree.isElement o.element = true)
    (hfree : ∀ r ∈ free, s.tree.isElement r = true) (hlast : last < s.tree.nodes.size) :
    Framed s s' := by
  induction h with
  | done => exact .refl hs
  | keyless hasked _ ih =>
    have h₁ := (askKey_spec hasked).framed hs ho
    have hgo := h₁.onward.tree
    exact h₁.trans hs (ih h₁.onward.sound (hgo.element ho) (fun r hr => hgo.element (hfree r hr))
      (Nat.lt_of_lt_of_le hlast hgo.size_le))
  | @shown _ _ s s₁ _ s₃ _ _ _ _ _ _ _ _ _ hasked htaken hmoved hran _ ih =>
    have h₁ : Framed s s₁ := (askKey_spec hasked).framed hs ho
    obtain ⟨hperm, hsub, -⟩ := htaken.some
    have hrow := hfree _ (hperm.mem_iff.mpr List.mem_cons_self)
    have h₂ : Framed s₁ s₃ := hruns h₁.onward.sound (h₁.onward.tree.element hrow) hmoved hran
    have hboth := h₁.trans hs h₂
    have hgo := hboth.onward.tree
    exact hboth.trans hs (ih hboth.onward.sound (hgo.element ho) (fun r hr =>
      hgo.element (hfree r (hsub.subset hr)))
      (Nat.lt_of_lt_of_le hlast hgo.size_le))
  | missing hasked _ hadded _ ih =>
    have h₁ := (askKey_spec hasked).framed hs ho
    have hmissing :=
      addMissingRow_spec h₁.onward.sound (Nat.lt_of_lt_of_le hlast h₁.onward.tree.size_le) hadded
    have hboth := h₁.trans hs (hmissing.framed h₁.onward.sound)
    have hgo := hboth.onward.tree
    exact hboth.trans hs (ih hboth.onward.sound (hgo.element ho) (fun r hr =>
      hgo.element (hfree r hr)) hmissing.row_lt)

theorem reconcile_frames (hruns : ∀ l, RowFrames l columns runs) (ho : o.element ∈ ns) :
    Keeps (Frames ns) (reconcile env runs o columns name items : Run φ _) :=
  fun s a s' h hs hns => by
  obtain ⟨key?, s₁, s₂, s₃, hlayout, -, -, hquiet, hmatching, hsurplus, htidied⟩ := reconcile_spec h
  have helement := hns _ ho
  obtain ⟨-, -, hfound⟩ := hs.layout_spec (Tree.lt_size_of_isElement helement) hlayout
  have hlast :=
    hs.standing_lt
      (hfound _ (List.getLastD_mem_cons (l := a.layout.rows) (a := a.layout.header))).standing
  have hrows : ∀ r ∈ a.layout.rows, s.tree.isElement r = true :=
    fun r hr => (hfound r (List.mem_cons_of_mem _ hr)).element
  have htree : s₁.tree = s.tree := hquiet.tree
  have h₁ : Framed s s₁ := Frames.of_quiet hquiet hs hns
  have h₂ : Framed s₁ s₂ :=
    hmatching.framed (hruns _) (htree ▸ hs) (htree ▸ helement) (htree ▸ hrows) (htree ▸ hlast)
  have hboth := h₁.trans hs h₂
  have h₃ : Framed s₂ s₃ := by
    have hnotes := recordSurplus_notes hsurplus
    refine .of_notes hboth.onward.sound hnotes ((recordSurplus_adds hsurplus).mono fun r hr => ?_)
    rw [hnotes.tree]
    exact hboth.onward.tree.element (hrows _ (hmatching.left_subset hr))
  have hmost := hboth.trans hs h₃
  exact hmost.trans hs ((Frames.of_tidied htidied : Frames [] _ _) hmost.onward.sound nofun)

theorem verifyRows_frames {runRow : List Occurrence → Run φ Unit → Run φ Unit} {p : Phase}
    (hruns : ∀ l, RowFrames l columns fun calls => runRow calls (pure ())) (ho : o.element ∈ ns) :
    Keeps (Frames ns) (verifyRows env runRow o columns p) := by
  cases p with
  | setup => exact .pure
  | execute => exact produceItems_reports.keeps.mono (.of_reports ho)
  | verify =>
    intro s _ s' hy
    rcases compareRows_spec hy with ⟨rfl, -⟩ | ⟨items, name, sequence, a, -, -, hreconcile⟩
    · exact refl_of (Frames ns) s'
    · exact reconcile_frames hruns ho hreconcile

end Compared

/-! ## The calls of a row -/

section Rows

variable [Fixture φ] {env : Surroundings} {o : Occurrence} {columns calls : List Occurrence}
  {p : Phase} {between : Run φ Unit}

theorem stepAlone_frames (hbuiltIn : o.command.isBuiltIn = true) (ho : o.element ∈ ns) :
    Keeps (Frames ns) (stepAlone env p o : Run φ Unit) := by
  rw [stepAlone_eq]
  by_cases hrows : o.command = .verifyRows
  · -- nothing runs on the rows that are compared within a cell
    have hidle : ∀ l, RowFrames l [] fun _ =>
        (pure () : Run φ Unit) := fun l row calls s s₁ s' hs _ hmoved hran => by
      obtain ⟨s₂, s₃, hquiet, hrun, htidied⟩ := holding_spec hran
      obtain ⟨-, rfl⟩ := yields_pure.mp hrun
      have hall := trans_of (Frames []) (.of_quiet (trans_of Quiet (retarget_quiet hmoved) hquiet))
        (.of_tidied htidied)
      exact hall hs nofun
    have hpart :
        (part env o p : Run φ Unit) = verifyRows env (fun _ between => between) o [] p := by
      unfold part
      rw [hrows]
    rw [hpart]
    exact visit_keeps (fun s p => .visited s p o) (verifyRows_frames hidle ho)
  · exact part_frames hbuiltIn hrows ho

theorem runRow_frames (hcalls : ∀ c ∈ calls, c.command.isBuiltIn = true ∧ c.element ∈ ns)
    (hbetween : Keeps (Frames ns) between) : Keeps (Frames ns) (runRow env calls between) :=
  runRow_keeps_of_steps (fun c hc _ => stepAlone_frames (hcalls c hc).1 (hcalls c hc).2) hbetween

/-- The commands of the header run on a row. -/
theorem row_framed (hbuiltIn : ∀ c ∈ columns, c.command.isBuiltIn = true) (hs : s.tree.Sound)
    (hrow : s.tree.isElement row = true) (hbetween : Keeps (Frames [row]) between)
    (hmoved : (retarget l columns row).Yields s calls s₁)
    (hran : (holding (calls.map Occurrence.element) (runRow env calls between)).Yields s₁ () s') :
    Framed s s' := by
  obtain ⟨hq, placed, hplaced, hmove⟩ := retarget_spec hmoved
  obtain ⟨s₂, s₃, hq', hrun, htidied⟩ := holding_spec hran
  have hcells : ∀ m ∈ row :: calls.map Occurrence.element,
      s.tree.isElement m = true := fun m hm => by
    rcases List.mem_cons.mp hm with rfl | hm
    · exact hrow
    · obtain ⟨c, hc, rfl⟩ := List.mem_map.mp hm
      exact (TableLayout.mem_cellsOf.mp (cell_of_moved hplaced hmove hc)).2.1
  have hcalls : ∀ c ∈ calls, c.command.isBuiltIn = true ∧
      c.element ∈ row :: calls.map Occurrence.element := fun c hc => by
    obtain ⟨x, hx, hmoves⟩ := exists_left_of_mem hmove hc
    refine ⟨?_, List.mem_cons_of_mem _ (List.mem_map_of_mem hc)⟩
    rw [show c = { x.1 with element := x.2, slot := c.slot } from hmoves]
    exact hbuiltIn x.1 ((Tree.mem_inRow hplaced).mp hx).1
  have hwide : Keeps (Frames (row :: calls.map Occurrence.element)) between :=
    hbetween.mono fun h hs hns => h hs fun n hn => hns n
      (List.mem_singleton.mp hn ▸ List.mem_cons_self)
  have hran : Frames (row :: calls.map Occurrence.element) s₂ s₃ := runRow_frames hcalls hwide hrun
  exact trans_of (Frames _) (.of_quiet (trans_of Quiet hq hq'))
    (trans_of (Frames _) hran (.of_tidied htidied)) hs hcells

theorem executeRows_framed {rows : List NodeId} {u : Unit}
    (hbuiltIn : ∀ c ∈ columns, c.command.isBuiltIn = true)
    (h : (executeRows env (runRow env) o columns l rows).Yields s u s') (hs : s.tree.Sound)
    (hrows : ∀ r ∈ rows, s.tree.isElement r = true) : Framed s s' := by
  induction rows generalizing s with
  | nil =>
    obtain ⟨-, rfl⟩ := yields_pure.mp h
    exact .refl hs
  | cons row rows ih =>
    obtain ⟨calls, s₁, hmoved, h₁⟩ := yields_bind.mp h
    obtain ⟨_, s₂, hran, hrest⟩ := yields_bind.mp h₁
    have hrow := row_framed hbuiltIn hs (hrows row List.mem_cons_self)
      (executeAt_reports.keeps.mono (.of_reports List.mem_cons_self)) hmoved hran
    exact hrow.trans hs (ih hrest hrow.onward.sound fun r hr =>
      hrow.onward.tree.element (hrows r (List.mem_cons_of_mem row hr)))

theorem executeTable_frames (hbuiltIn : ∀ c ∈ columns, c.command.isBuiltIn = true)
    (ho : o.element ∈ ns) :
    Keeps (Frames ns) (executeTable env (runRow env) o columns : Run φ Unit) :=
  fun s _ s' h hs hns => by
  obtain ⟨l, s₀, hlayout, h₁⟩ := yields_bind.mp h
  obtain ⟨hl, rfl⟩ := yields_find.mp hlayout
  obtain ⟨s₁, s₂, hquiet, hrows, htidied⟩ := holding_spec h₁
  obtain ⟨-, -, hfound⟩ := hs.layout_spec (Tree.lt_size_of_isElement (hns _ ho)) hl
  have h₁ : Framed s₀ s₁ := Frames.of_quiet hquiet hs hns
  have h₂ : Framed s₁ s₂ := executeRows_framed hbuiltIn hrows h₁.onward.sound fun r hr =>
    h₁.onward.tree.element (hfound r (List.mem_cons_of_mem _ hr)).element
  have hboth := h₁.trans hs h₂
  exact hboth.trans hs ((Frames.of_tidied htidied : Frames [] _ _) hboth.onward.sound nofun)

/-! ## The phases -/

/-- A phase of a call with the calls inside it. -/
theorem step_frames {inside : Inside φ} (hbuiltIn : o.command.isBuiltIn = true)
    (ho : o.element ∈ ns) (hcolumns : ∀ c ∈ columns, c.command.isBuiltIn = true)
    (hphase : ∀ p, Keeps (Frames ns) (inside.phase p))
    (hbinding : ∀ b, Keeps (Frames ns) (inside.binding b)) :
    Keeps (Frames ns) (step env (runRow env) o columns inside p) :=
  step_keeps_builtIn hbuiltIn (fun s p => .visited s p o)
    (fun hrows _ => part_frames hbuiltIn hrows ho) hphase hbinding
    (executeTable_frames hcolumns ho)
      (verifyRows_frames (fun _ _ _ _ _ _ hs hrow => row_framed hcolumns hs hrow .pure) ho)

/-- **What the phases of a graph leave alone**: all but the targets of an `echo`, and rows that are
added. -/
theorem runGraph_frames {g : CallGraph} (hbuiltIn : ∀ o ∈ g.walk, o.command.isBuiltIn = true)
    (hns : ∀ o ∈ g.walk, o.element ∈ ns) : Keeps (Frames ns) (runGraph env g : Run φ Unit) := by
  have hcalls : ∀ p, Keeps (Frames ns) (runCalls env p g.roots : Run φ Unit) := fun p =>
    runCalls_keeps (P := fun o => o.command.isBuiltIn = true ∧ o.element ∈ ns)
      (fun ho hcolumns hphase hbinding => step_frames ho.1 ho.2 (fun c hc => (hcolumns c hc).1)
        hphase hbinding) p g.roots
      fun o ho => ⟨hbuiltIn o ho, hns o ho⟩
  exact .bind (hcalls .setup) fun _ => .bind (hcalls .execute) fun _ => hcalls .verify

end Rows

end Run
end LiveSpec
