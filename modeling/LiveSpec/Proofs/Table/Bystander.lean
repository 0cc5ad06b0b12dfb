import LiveSpec.Proofs.Table.Sparing
import LiveSpec.Proofs.Tree.Staying

/-!
# What the calls of a row pass by

The calls of a row stand at its cells. An element that is none of these cells and no row either is a
bystander: nothing is recorded at it (`runRow_passes`). If besides none of the cells lies in its
branch or above it, then its branch stays as it is, rows that are added in the cells included. So
the cells of a row are bystanders of each other, and a cell is a bystander of all other rows
(`Matching.passes`).
-/

namespace LiveSpec

open Markup (NodeId Tree)
open TableLayout (cellsOf)

variable {φ : Type} {s s' s'' : RunState φ} {ns : List NodeId} {m n row last : NodeId}
  {sheltered : Prop}

/-- An element that calls at others pass by: it is none of theirs, and no row. If it is sheltered,
it stands, and none of them lies in its branch or above it. -/
structure Bystander (sheltered : Prop) (ns : List NodeId) (n : NodeId) (t : Tree) : Prop where
  sound : t.Sound
  element {m : NodeId} : m ∈ ns → t.isElement m = true
  lt : n < t.nodes.size
  notRow : t.isNamed n "tr" = false
  notMem : n ∉ ns
  standing : sheltered → t.Standing n
  apart {m : NodeId} : sheltered → m ∈ ns → ¬ t.Under n m ∧ ¬ t.Under m n

/-- What is done elsewhere: nothing is recorded at the element, and its branch stays if it is
sheltered. -/
structure PassedBy (sheltered : Prop) (n : NodeId) (s s' : RunState φ) : Prop where
  onward : s.Onward s'
  elsewhere : Adds (fun x => x.element ≠ n) s s'
  stays : sheltered → ∀ x, s.tree.Under n x → s.tree.Stays s'.tree x

/-- A sheltered element that is passed by is untouched. -/
theorem PassedBy.untouched (h : PassedBy sheltered n s s') (hq : sheltered) :
    s.tree.Untouched s'.tree n :=
  .of_stays (h.stays hq)

/-- What is passed by twice is passed by. -/
theorem PassedBy.trans (h : PassedBy sheltered n s s') (h' : PassedBy sheltered n s' s'') :
    PassedBy sheltered n s s'' :=
  ⟨h.onward.trans h'.onward, trans_of (Adds _) h.elsewhere h'.elsewhere, fun hq x hx =>
    (h.stays hq x hx).trans (h'.stays hq x ((h.untouched hq).under hx))⟩

/-- A bystander that was passed by is one still. -/
theorem Bystander.next (hby : Bystander sheltered ns n s.tree) (h : PassedBy sheltered n s s') :
    Bystander sheltered ns n s'.tree := by
  have hunder {a x : NodeId} (hx : x < s.tree.nodes.size) (hu : s'.tree.Under a x) :
      s.tree.Under a x :=
    h.onward.tree.under hby.sound.toCoherent h.onward.sound.toCoherent hx hu
  refine ⟨h.onward.sound, fun hm => h.onward.tree.element (hby.element hm),
    Nat.lt_of_lt_of_le hby.lt h.onward.tree.size_le,
    (h.onward.tree.isNamed hby.lt "tr").trans hby.notRow, hby.notMem,
    fun hq => (h.stays hq n .self).standing,
    fun {m} hq hm => ⟨fun hu => (hby.apart hq hm).1 ?_,
      fun hu => (hby.apart hq hm).2 (hunder hby.lt hu)⟩⟩
  exact hunder (Tree.lt_size_of_isElement (hby.element hm)) hu

/-- What lies in a sheltered branch lies below none of the elements. -/
theorem Bystander.not_under {t : Tree} (hby : Bystander sheltered ns n t) (hq : sheltered)
    (hm : m ∈ ns) {x : NodeId} (hx : t.Under n x) : ¬ t.Under m x := fun hu =>
  (hby.sound.under_total ((hby.standing hq).under hx) hx hu).elim (hby.apart hq hm).1
    (hby.apart hq hm).2

/-- Wherever an element is a bystander of some others, it is passed by. -/
def PassesBy (sheltered : Prop) (ns : List NodeId) (n : NodeId) (s s' : RunState φ) : Prop :=
  Bystander sheltered ns n s.tree → PassedBy sheltered n s s'

/-- Something is noted, but not at the element. -/
theorem PassedBy.of_notes (hby : Bystander sheltered ns n s.tree) (h : Notes s s')
    (hadds : Adds (fun x => x.element ≠ n) s s') : PassedBy sheltered n s s' :=
  ⟨h.onward hby.sound, hadds, fun hq _ hx => .of_eq h.tree ((hby.standing hq).under hx)⟩

instance : IsPreorder (RunState φ) (PassesBy sheltered ns n) where
  refl s hby := .of_notes hby (refl_of Notes s) (refl_of (Adds _) s)
  trans _ _ _ h h' hby := (h hby).trans (h' (hby.next (h hby)))

namespace PassesBy

/-- What is quiet passes everything by. -/
theorem of_quiet (h : Quiet s s') : PassesBy sheltered ns n s s' :=
  fun hby => .of_notes hby (.of_quiet h) (.none h.record)

/-- So does what tidies up. -/
theorem of_tidied (h : Tidied s s') : PassesBy sheltered ns n s s' := fun hby =>
  ⟨h.onward hby.sound, .none h.record,
    fun hq _ hx => (h.released hby.sound).stays ((hby.standing hq).under hx)⟩

/-- A deed at one of the elements. -/
theorem of_deed (hm : m ∈ ns) (h : Deed m s s') : PassesBy sheltered ns n s s' := fun hby => by
  have helement := hby.element hm
  have hlt := Tree.lt_size_of_isElement helement
  have hne : m ≠ n := fun he => hby.notMem (he ▸ hm)
  refine ⟨h.onward hby.sound helement, (Adds.of_deeds (.single h)).mono fun x hx => hx ▸ hne,
    fun hq x hx => ?_⟩
  have hstanding := (hby.standing hq).under hx
  have hout := hby.not_under hq hm hx
  cases h with
  | report r => exact .of_eq r.tree hstanding
  | fill text h =>
    rw [h]
    exact hby.sound.stays_setText hlt hstanding hout text
  | remove t ht h =>
    rw [h]
    exact hby.sound.stays_remove ht helement hstanding hout fun hmem =>
      (hby.apart hq hm).1 (.child hx hmem)
  | tidy held h =>
    have hreleased : s.tree.Released (s.tree.release held) := hby.sound.released
    rw [h]
    exact hreleased.stays hstanding

/-- Deeds at one of the elements pass a bystander by. -/
theorem of_deeds (hm : m ∈ ns) (h : Deeds m s s') : PassesBy sheltered ns n s s' := by
  induction h with
  | refl => exact refl_of (PassesBy sheltered ns n) s
  | tail _ hd ih => exact trans_of (PassesBy sheltered ns n) ih (of_deed hm hd)

end PassesBy

namespace Run

variable {l : TableLayout} {key name : String} {columns calls : List Occurrence} {o : Occurrence}
  {items : List Value} {key? : Option (Nat × Occurrence)} {a : Reconciliation}
  {free left : List NodeId} {fates : List Fate}

/-- An evaluation records at its own element only. -/
theorem Evaluated.adds {α : Type} {v? : Option α} (h : Evaluated m v? s s') :
    Adds (fun x => x.element = m) s s' := by
  obtain ⟨xs, hxs, hkind⟩ := h.outcomes
  refine ⟨xs, hxs, fun x hx => ?_⟩
  cases v? with
  | some _ =>
    rw [hkind] at hx
    cases hx
  | none =>
    obtain ⟨expression, error, rfl⟩ := hkind
    rw [List.mem_singleton.mp hx]

/-- So it passes bystanders by. -/
theorem Evaluated.passes {α : Type} {v? : Option α} (hm : m ∈ ns) (h : Evaluated m v? s s') :
    PassesBy sheltered ns n s s' := fun hby =>
  .of_notes hby h.notes (h.adds.mono fun _ hx he => hby.notMem (he ▸ hx ▸ hm))

/-! ## A comparison within a cell -/

/-- A place for the next missing row that is not in the branch of a sheltered element. -/
structure Outside (sheltered : Prop) (ns : List NodeId) (n last : NodeId) (t : Tree) : Prop
    extends Bystander sheltered ns n t where
  last_lt : last < t.nodes.size
  outside : sheltered → ¬ t.Under n last

/-- The place stays outside when the element is passed by. -/
theorem Outside.next (hout : Outside sheltered ns n last s.tree) (h : PassedBy sheltered n s s') :
    Outside sheltered ns n last s'.tree :=
  ⟨hout.toBystander.next h, Nat.lt_of_lt_of_le hout.last_lt h.onward.tree.size_le, fun hq hu =>
    hout.outside hq (h.onward.tree.under hout.sound.toCoherent h.onward.sound.toCoherent
      hout.last_lt hu)⟩

/-- A missing row is put in elsewhere. -/
theorem MissingAdded.passed (hout : Outside sheltered ns n last s.tree)
    (h : MissingAdded last row key s s') :
    PassedBy sheltered n s s' := by
  obtain ⟨p, -, hmem, hchildren⟩ := h.tree.placed
  have hne : row ≠ n := h.tree.row_eq ▸ Nat.ne_of_gt hout.lt
  refine ⟨h.onward, ⟨_, h.outcomes, fun x hx => List.mem_singleton.mp hx ▸ hne⟩, fun hq x hx => ?_⟩
  have hstanding := (hout.standing hq).under hx
  refine ⟨h.tree.standing hout.sound hstanding,
    h.tree.onward.content (hout.sound.standing_lt hstanding), ?_⟩
  have hxp : x ≠ p := by
    rintro rfl
    exact hout.outside hq (.child hx hmem)
  rw [hchildren x (hout.sound.standing_lt hstanding), if_neg hxp]

/-- The new row is outside too, and is the place for the next. -/
theorem MissingAdded.outside (hout : Outside sheltered ns n last s.tree)
    (h : MissingAdded last row key s s') :
    Outside sheltered ns n row s'.tree := by
  have hpassed := h.passed hout
  refine ⟨hout.toBystander.next hpassed, h.row_lt, fun hq hu => ?_⟩
  obtain ⟨p, hp, hmem, hchildren⟩ := h.tree.placed
  have hplt := hout.sound.standing_lt hp
  have hrow : row ∈ (s'.tree.node p).children := by
    rw [hchildren p hplt, if_pos rfl]
    exact (Markup.Tree.perm_putAfter ..).mem_iff.mpr List.mem_cons_self
  rcases h.tree.sound.under_child hu hrow with he | hup
  · exact Nat.ne_of_lt hout.lt (he.trans h.tree.row_eq)
  · exact hout.outside hq
      (.child (h.onward.tree.under hout.sound.toCoherent h.tree.sound.toCoherent hplt hup) hmem)

section Within

variable [Fixture φ] {env : Surroundings} {p : Phase} {runs : List Occurrence → Run φ Unit}

/-- A comparison of rows passes by who is outside of its table, all fates and appended rows
included. -/
theorem Matching.passes_within (ho : o.element ∈ ns)
    (h : Matching env (fun _ => pure ()) o columns name l key? items s free last fates left s')
    (hout : Outside sheltered ns n last s.tree) : PassesBy sheltered ns n s s' :=
  h.keeps (P := fun last s => Outside sheltered ns n last s.tree)
    (fun hout => ⟨hout.sound, hout.last_lt⟩)
    (fun hout h => hout.next (h hout.toBystander)) (fun h => h.passes ho) .of_tidied
    (fun hout h => ⟨fun _ => h.passed hout, h.outside hout⟩) hout

omit [Fixture φ] in
/-- Rows that are left over are recorded as such, each at itself. -/
theorem recordSurplus_adds {column : Nat} {rows : List NodeId} :
    Keeps (Adds fun x => x.element ∈ rows)
    (recordSurplus env column rows : Run φ Unit) := fun _ _ _ h => by
  obtain ⟨-, -, keys, -, houtcomes⟩ := recordSurplus_spec h
  refine ⟨_, houtcomes, fun x hx => ?_⟩
  obtain ⟨y, hy, rfl⟩ := List.mem_map.mp hx
  exact (List.of_mem_zip hy).1

/-- So does the whole comparison, from the search for the key column on. -/
theorem reconcile_passes (ho : o.element ∈ ns) :
    Keeps (PassesBy sheltered ns n)
    (reconcile env (fun _ => pure ()) o columns name items : Run φ _) :=
    fun s a s' h hby => by
  obtain ⟨key?, s₁, s₂, s₃, hlayout, -, -, hquiet, hmatching, hsurplus, htidied⟩ := reconcile_spec h
  obtain ⟨-, -, hfound⟩ :=
    hby.sound.layout_spec (Tree.lt_size_of_isElement (hby.element ho)) hlayout
  have hlast := hfound _ (List.getLastD_mem_cons (l := a.layout.rows) (a := a.layout.header))
  have hout : Outside sheltered ns n (a.layout.rows.getLastD a.layout.header) s₁.tree := by
    rw [hquiet.tree]
    exact ⟨hby, hby.sound.standing_lt hlast.standing,
      fun hq hu => hby.not_under hq ho hu hlast.under⟩
  have hpassed : PassedBy sheltered n s s₂ :=
    trans_of (PassesBy sheltered ns n) (.of_quiet hquiet) (hmatching.passes_within ho hout) hby
  have hby₂ := hby.next hpassed
  -- the element is no row of the table, whether or not it lies in the table
  have hnot : n ∉ a.surplus := fun hmem => by
    have hrow := (hfound n (List.mem_cons_of_mem _ (hmatching.left_subset hmem))).isRow
    rw [hby.notRow] at hrow
    cases hrow
  have hnotes : PassedBy sheltered n s₂ s₃ := .of_notes hby₂ (recordSurplus_notes hsurplus)
    ((recordSurplus_adds hsurplus).mono fun x hx he => hnot (he ▸ hx))
  exact hpassed.trans (hnotes.trans (PassesBy.of_tidied htidied (hby₂.next hnotes)))

/-- And so does the command that makes it. -/
theorem verifyRows_passes (ho : o.element ∈ ns) :
    Keeps (PassesBy sheltered ns n)
    (verifyRows env (fun _ between => between) o [] p : Run φ Unit) := by
  cases p with
  | setup => exact .pure
  | execute => exact produceItems_reports.keeps.mono fun r => .of_deeds ho (.of_reports r)
  | verify =>
    intro s _ s' hy
    rcases compareRows_spec hy with ⟨rfl, -⟩ | ⟨items, name, sequence, a, -, -, hreconcile⟩
    · exact refl_of (PassesBy sheltered ns n) s'
    · exact reconcile_passes ho hreconcile

end Within

/-! ## The calls of a row -/

section Calls

variable [Fixture φ] {env : Surroundings} {p : Phase}

/-- What a call does alone passes bystanders by, whichever its command. -/
theorem part_passes (ho : o.element ∈ ns) :
    Keeps (PassesBy sheltered ns n) (part env o p : Run φ Unit) :=
  part_keeps (.of_deeds ho) fun _ => verifyRows_passes ho

omit [Fixture φ] in
/-- Noting a visit does nothing at the element. -/
theorem visit_passes (s : RunState φ) (p : Phase) (o : Occurrence) :
    PassesBy sheltered ns n s { s with visits := s.visits ++ [(p, o)] } := fun hby =>
  .of_notes hby ⟨rfl, List.prefix_append .., List.prefix_rfl⟩ (.none rfl)

/-- So a call on its own passes bystanders by. -/
theorem stepAlone_passes (ho : o.element ∈ ns) :
    Keeps (PassesBy sheltered ns n) (stepAlone env p o : Run φ Unit) :=
  stepAlone_keeps visit_passes (part_passes ho)

/-- **The calls of a row pass by** whatever is none of their elements. -/
theorem runRow_passes (hcalls : ∀ c ∈ calls, c.element ∈ ns) :
    Keeps (PassesBy sheltered ns n) (runRow env calls (pure ()) : Run φ Unit) :=
  runRow_keeps visit_passes (fun c hc _ => part_passes (hcalls c hc)) .pure

/-- The calls are moved to the cells of a row and run there, and the element is no cell of it. -/
theorem row_passes {s₁ : RunState φ} (hs : s.tree.Sound) (hn : n < s.tree.nodes.size)
    (hnot : s.tree.isNamed n "tr" = false) (hcell : n ∉ (s.tree.node row).children)
    (hmoved : (retarget l columns row).Yields s calls s₁)
    (hran : (holding (calls.map Occurrence.element) (runRow env calls (pure ()))).Yields s₁ () s') :
    PassedBy False n s s' := by
  obtain ⟨hq, placed, hplaced, hmove⟩ := retarget_spec hmoved
  obtain ⟨s₂, s₃, hq', hrun, htidied⟩ := holding_spec hran
  have hcells : ∀ m ∈ calls.map Occurrence.element, m ∈ cellsOf s.tree row := fun m hm => by
    obtain ⟨c, hc, rfl⟩ := List.mem_map.mp hm
    exact cell_of_moved hplaced hmove hc
  have hby : Bystander False (calls.map Occurrence.element) n s.tree :=
    ⟨hs, fun hm => (TableLayout.mem_cellsOf.mp (hcells _ hm)).2.1, hn, hnot,
      fun hm => hcell (TableLayout.mem_cellsOf.mp (hcells n hm)).1, False.elim, False.elim⟩
  have hrow : PassesBy False (calls.map Occurrence.element) n _ _ := runRow_passes
    (fun c hc => List.mem_map_of_mem hc) hrun
  exact trans_of (PassesBy False _ n) (.of_quiet (trans_of Quiet hq hq'))
    (trans_of (PassesBy False _ n) hrow (.of_tidied htidied)) hby

end Calls

/-! ## Other rows -/

/-- An element that is neither one of some rows nor a cell of one. -/
structure OffRows (n : NodeId) (free : List NodeId) (last : NodeId) (t : Tree) : Prop where
  sound : t.Sound
  lt : n < t.nodes.size
  notRow : t.isNamed n "tr" = false
  free_lt {r : NodeId} : r ∈ free → r < t.nodes.size
  notCell {r : NodeId} : r ∈ free → n ∉ (t.node r).children
  last_lt : last < t.nodes.size

/-- An element off the rows stays off those that are left. -/
theorem OffRows.next {t t' : Tree} {free' : List NodeId} {last' : NodeId}
    (h : OffRows n free last t) (hgo : t.Onward t') (ht' : t'.Sound) (hsub : free' ⊆ free)
    (hlast : last' < t'.nodes.size) : OffRows n free' last' t' :=
  ⟨ht', Nat.lt_of_lt_of_le h.lt hgo.size_le, (hgo.isNamed h.lt "tr").trans h.notRow,
    fun hr => Nat.lt_of_lt_of_le (h.free_lt (hsub hr)) hgo.size_le,
    fun hr hmem => h.notCell (hsub hr) (hgo.children (h.free_lt (hsub hr)) h.lt hmem), hlast⟩

/-- It is outside of the table's last row. -/
theorem OffRows.outside {t : Tree} (h : OffRows n free last t) : Outside False [] n last t :=
  ⟨⟨h.sound, nofun, h.lt, h.notRow, List.not_mem_nil, False.elim, False.elim⟩,
    h.last_lt, False.elim⟩

/-- A cell of a row is off the other rows, whatever has been done since. -/
theorem offRows_cell {t t' : Tree} {cell : NodeId} (ht : t.Sound) (hgo : t.Onward t')
    (ht' : t'.Sound) (hcell : cell ∈ cellsOf t row) (hfree : ∀ r ∈ free, r < t.nodes.size)
    (hnot : row ∉ free) (hlast : last < t'.nodes.size) : OffRows cell free last t' := by
  obtain ⟨hchild, -, hkind⟩ := TableLayout.mem_cellsOf.mp hcell
  have hlt := ht.child_lt hchild
  refine ⟨ht', Nat.lt_of_lt_of_le hlt hgo.size_le,
    (hgo.isNamed hlt "tr").trans (TableLayout.not_row_of_isCell hkind),
    fun hr => Nat.lt_of_lt_of_le (hfree _ hr) hgo.size_le, fun {r} hr hmem => hnot ?_, hlast⟩
  exact ht.parent_unique (hgo.children (hfree r hr) hlt hmem) hchild ▸ hr

/-- **The rows of a table pass by** what is no cell of those that are taken. -/
theorem Matching.passes [Fixture φ] {env : Surroundings}
    (h : Matching env (fun calls => runRow env calls (pure ())) o columns name l key? items s free
      last fates left s')
    (ho : o.element ≠ n) (hoff : OffRows n (fates.filterMap Fate.taken?) last s.tree) :
    PassedBy False n s s' := by
  have hasked {k? : Option String} {s s' : RunState φ} (hs : s.tree.Sound)
      (h : Evaluated o.element k? s s') :
      PassedBy False n s s' :=
    ⟨h.notes.onward hs, h.adds.mono fun x hx he => ho (hx.symm.trans he), False.elim⟩
  induction h with
  | @done s _ _ => exact ⟨(refl_of Notes s).onward hoff.sound, refl_of (Adds _) s, False.elim⟩
  | keyless hask _ ih =>
    have h₁ := hasked hoff.sound (askKey_spec hask)
    have hoff₁ := hoff.next h₁.onward.tree h₁.onward.sound (List.Subset.refl _)
      (Nat.lt_of_lt_of_le hoff.last_lt h₁.onward.tree.size_le)
    exact h₁.trans (ih hoff₁)
  | shown hask _ hmoved hran _ ih =>
    have h₁ := hasked hoff.sound (askKey_spec hask)
    have hoff₁ := hoff.next h₁.onward.tree h₁.onward.sound (List.Subset.refl _)
      (Nat.lt_of_lt_of_le hoff.last_lt h₁.onward.tree.size_le)
    have hcell := hoff₁.notCell List.mem_cons_self
    have h₂ := row_passes hoff₁.sound hoff₁.lt hoff₁.notRow hcell hmoved hran
    have hoff₂ := hoff₁.next h₂.onward.tree h₂.onward.sound (List.subset_cons_self ..)
      (Nat.lt_of_lt_of_le hoff₁.last_lt h₂.onward.tree.size_le)
    exact h₁.trans (h₂.trans (ih hoff₂))
  | missing hask _ hadded _ ih =>
    have h₁ := hasked hoff.sound (askKey_spec hask)
    have hoff₁ := hoff.next h₁.onward.tree h₁.onward.sound (List.Subset.refl _)
      (Nat.lt_of_lt_of_le hoff.last_lt h₁.onward.tree.size_le)
    have hmissing := addMissingRow_spec hoff₁.sound hoff₁.last_lt hadded
    have h₂ := hmissing.passed hoff₁.outside
    exact h₁.trans (h₂.trans (ih (hoff₁.next h₂.onward.tree h₂.onward.sound (List.Subset.refl _)
      hmissing.row_lt)))

end Run
end LiveSpec
