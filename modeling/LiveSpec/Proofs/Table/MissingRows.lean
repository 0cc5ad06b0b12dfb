import LiveSpec.Proofs.Table.Appending

/-!
# Where missing rows are placed

An item without row gets one at the end of the table. Each such row goes directly after the one that
was added before it, and the first one directly after the last row that there was, so that the rows
stand in the order of their items whatever comes between: matches, items without key, and what the
commands of the header do to the cells of matched rows (`Matching.appending`). They are none of the
rows that items are compared with, since these are set down before the first row is added.
-/

namespace LiveSpec

open Markup (NodeId Tree)
open TableLayout (cellsOf keyOf)

/-- A row that was added for an item, with the key of the item. -/
def Fate.added? : Fate → Option (NodeId × String)
  | .missing key row => some (row, key)
  | _ => none

variable {t₀ t : Tree} {table p last last₀ row : NodeId} {pre post : List NodeId}
  {count column : Nat} {key : String} {added : List (NodeId × String)}

/-- Each row that can be found stands in a list. -/
theorem Markup.Tree.Sound.lastRow (ht : t.Sound) (hflat : t.Flat table)
    (hlast : t.Found table "tr" last) :
    ∃ p pre post, LastRow t table p last pre post := by
  cases hu : hlast.under with
  | self => exact absurd rfl (ht.found_ne hlast)
  | @child p _ _ hmem =>
    obtain ⟨pre, post, hlist⟩ := List.append_of_mem hmem
    exact ⟨p, pre, post, ht, hflat, hlast, hlist⟩

/-- The last row of a layout is the last one of the table. -/
theorem TableLayout.exists_descendants {l : TableLayout} {first : Option NodeId}
    (h : TableLayout.of t table first = .ok l) :
    ∃ front, t.descendants table "tr" = .ok (front ++ [l.rows.getLastD l.header]) := by
  unfold TableLayout.of at h
  obtain ⟨all, hall, h⟩ := Except.bind_eq_ok.mp h
  dsimp only at h
  split at h
  · next header rows hdrop =>
    cases h
    obtain ⟨init, hinit⟩ := exists_append_getLastD header rows
    obtain ⟨front, hfront⟩ : header :: rows <:+ all := hdrop ▸ List.drop_suffix ..
    exact ⟨front ++ init, by rw [hall, ← hfront, List.append_assoc, ← hinit]⟩
  · cases h

namespace Run

variable {φ : Type} {s s' s₁ s₂ : RunState φ} {l : TableLayout} {o : Occurrence}
  {columns calls : List Occurrence} {name : String} {key? : Option (Nat × Occurrence)}
  {items : List Value} {free left : List NodeId} {fates : List Fate}

/-! ## The steps of the loop -/

/-- To let go of what nobody holds changes nothing that stands. -/
theorem Tidied.appending (h : Appending table p last₀ pre post count column added t₀ s.tree)
    (hlast : LastRow t₀ table p last₀ pre post) (ht : Tidied s s') :
    Appending table p last₀ pre post count column added t₀ s'.tree := by
  have hreleased := ht.released h.sound
  refine h.next hlast hreleased.onward (hreleased.sound h.sound)
    (fun x hx _ => hreleased.stays hx) fun x hx => ?_
  have hlt := Markup.Tree.lt_size_of_isElement (Markup.Tree.isElement_of_isNamed hx (by cbv))
  rw [hreleased.size] at hlt
  rwa [hreleased.onward.isNamed hlt] at hx

/-- **The calls of a matched row** leave the rows where they are. -/
theorem appending_matched [Fixture φ] {env : Surroundings}
    (h : Appending table p last₀ pre post count column added t₀ s.tree)
    (hlast : LastRow t₀ table p last₀ pre post) (hrow : t₀.Found table "tr" row)
    (hbuiltIn : ∀ c ∈ columns, c.command.isBuiltIn = true)
    (moved : (retarget l columns row).Yields s calls s₁)
    (ran : (holding (calls.map Occurrence.element) (runRow env calls (pure ()))).Yields s₁ () s₂) :
    Appending table p last₀ pre post count column added t₀ s₂.tree := by
  obtain ⟨hq, placed, hplaced, hmove⟩ := retarget_spec moved
  obtain ⟨s₃, s₄, hq', hrun, htidied⟩ := holding_spec ran
  have hquiet : Quiet s s₃ := trans_of Quiet hq hq'
  have hcell : ∀ n ∈ calls.map Occurrence.element, n ∈ cellsOf s.tree row := fun n hn => by
    obtain ⟨c, hc, rfl⟩ := List.mem_map.mp hn
    exact cell_of_moved hplaced hmove hc
  have hchild : ∀ n ∈ calls.map Occurrence.element, n ∈ (t₀.node row).children := fun n hn => by
    have hstays := h.stays hrow.standing (hlast.row_ne hrow) (hlast.off_above hrow .self)
    rw [← hstays.children]
    exact (TableLayout.mem_cellsOf.mp (hcell n hn)).1
  -- no row lies in a cell: neither one that there was, nor one that was added
  have hbare : Bare (calls.map Occurrence.element) s := by
    refine ⟨h.sound, fun hn => (TableLayout.mem_cellsOf.mp (hcell _ hn)).2.1, fun {n x} hn hx => ?_⟩
    by_cases hnew : x ∈ added.map Prod.fst
    · exact h.off_new hlast hnew .self row n hrow (hchild n hn) hx.under
    · have hx₀ := h.found_before hlast hx hnew
      exact hlast.flat row x hrow ⟨hx₀.standing, hx₀.element,
        ⟨n, hchild n hn, hx₀.under⟩, hx₀.named⟩
  have hcalls : ∀ c ∈ calls, c.command.isBuiltIn = true ∧ c.element ∈ calls.map Occurrence.element ∧
      (c.command = .echo → c.element ∈ calls.map Occurrence.element) := fun c hc => by
    obtain ⟨x, hx, hmoves⟩ := exists_left_of_mem hmove hc
    refine ⟨?_, List.mem_map_of_mem hc, fun _ => List.mem_map_of_mem hc⟩
    rw [show c = { x.1 with element := x.2, slot := c.slot } from hmoves]
    exact hbuiltIn x.1 ((Tree.mem_inRow hplaced).mp hx).1
  have htree : s₃.tree = s.tree := hquiet.tree
  have hbare₃ : Bare (calls.map Occurrence.element) s₃ :=
    ⟨htree ▸ hbare.sound, fun hn => htree ▸ hbare.element hn, fun hn => htree ▸ hbare.bare hn⟩
  obtain ⟨hworks, hstays⟩ := runRow_confined .pure hcalls hrun hbare₃
  have helement : ∀ n ∈ calls.map Occurrence.element, s₃.tree.isElement n = true :=
    fun n hn => hbare₃.element hn
  have hgo := hworks.onward hbare₃.sound helement
  rw [← htree] at h
  refine Tidied.appending (h.next hlast hgo.tree hgo.sound (fun x hx hout => ?_) fun x hx => ?_)
    hlast htidied
  · exact hstays x hx fun n hn => hout row n hrow (hchild n hn)
  · have hold :=
      hworks.old_element hbare₃.sound helement (Markup.Tree.isElement_of_isNamed hx (by cbv))
    rwa [hgo.tree.isNamed (Markup.Tree.lt_size_of_isElement hold)] at hx

/-- **The loop adds a row for each item without one**, in the order of the items. -/
theorem Matching.appending [Fixture φ] {env : Surroundings}
    (h : Matching env (fun calls => runRow env calls (pure ())) o columns name l key? items s free
      last fates left s')
    (hlast : LastRow t₀ o.element p last₀ pre post)
    (hbuiltIn : ∀ c ∈ columns, c.command.isBuiltIn = true)
    (hheader : t₀.Found o.element "tr" l.header) (hfree : ∀ r ∈ free, t₀.Found o.element "tr" r)
    (hl : last = (added.map Prod.fst).getLastD last₀)
    (hinv : Appending o.element p last₀ pre post (cellsOf t₀ l.header).length
      ((key?.map Prod.fst).getD 0) added t₀ s.tree) :
    Appending o.element p last₀ pre post (cellsOf t₀ l.header).length ((key?.map Prod.fst).getD 0)
      (added ++ fates.filterMap Fate.added?) t₀ s'.tree := by
  induction h generalizing added with
  | done =>
    rw [List.filterMap_nil, List.append_nil]
    exact hinv
  | keyless hasked _ ih => exact ih hfree hl ((askKey_spec hasked).tree ▸ hinv)
  | shown hasked htaken hmoved hran _ ih =>
    obtain ⟨hperm, hsub, -⟩ := htaken.some
    rw [← (askKey_spec hasked).tree] at hinv
    have hrow := hfree _ (hperm.mem_iff.mpr List.mem_cons_self)
    exact ih (fun r hr => hfree r (hsub.subset hr)) hl
      (appending_matched hinv hlast hrow hbuiltIn hmoved hran)
  | @missing _ _ s s₁ s₂ _ _ _ last row key fates hasked _ hadded _ ih =>
    have hask := askKey_spec hasked
    rw [← hask.tree] at hinv
    subst hl
    have hlt : (added.map Prod.fst).getLastD last₀ < s₁.tree.nodes.size := by
      refine hinv.sound.child_lt (hinv.mem_place ?_)
      exact List.mem_cons.mp List.getLastD_mem_cons
    -- the header has the cells that it had at the start
    have hstays :=
      hinv.stays hheader.standing (hlast.row_ne hheader) (hlast.off_above hheader .self)
    obtain ⟨hfresh, honly⟩ :=
      addMissingRow_fresh hinv.sound hlt (hinv.sound.standing_lt hstays.standing) hadded
    rw [cellsOf_of_onward hlast.sound.toCoherent hinv.onward hstays.children] at hfresh
    have hnext :=
      hinv.rowAppended hlast (addMissingRow_spec hinv.sound hlt hadded).tree hfresh honly
    have hall := ih hfree (by simp) hnext
    rwa [List.append_assoc] at hall

/-! ## The comparison -/

/-- A comparison after which the missing rows stand at the end of the table. The account `a` of it
says for each item what became of it, and which row was added for it. -/
structure MissingPlaced [Fixture φ] (env : Surroundings) (o : Occurrence)
    (columns : List Occurrence) (name : String) (items : List Value) (a : Reconciliation)
    (s s' : RunState φ) : Prop where
  reconciled :
    (reconcile env (fun calls => runRow env calls (pure ())) o columns name items).Yields s a s'
  layout : TableLayout.of s.tree o.element (columns.head?.map Occurrence.element) = .ok a.layout
  length : a.fates.length = items.length
  /-- Each item is asked for its key where the items before it lead to, by the command of the column
  of the keys if there is one, and its fate says what came of it. -/
  asked : ∃ key?, a.layout.keyColumn? s.tree columns = .ok key? ∧
    a.column = (key?.map Prod.fst).getD 0 ∧
    ∀ (i : Nat) fate, a.fates[i]? = some fate → ∃ item s₁ s₂, items[i]? = some item ∧
      ComesTo env (fun calls => runRow env calls (pure ())) o columns name items a s i s₁ ∧
      (askKey env o.element name key? item : Run φ _).Yields s₁ fate.key? s₂
  /-- A row is added where no row is left that shows the key. -/
  dealt : Dealt (keyOf s.tree a.column) a.layout.rows a.fates a.surplus
  /-- All rows of the table: those that there were, and then those that were added, directly after
  the last one. -/
  rows : ∃ front last p pre post, s.tree.descendants o.element "tr" = .ok (front ++ [last]) ∧
    s'.tree.descendants o.element "tr" = .ok
      (front ++ [last] ++ (a.fates.filterMap Fate.added?).map Prod.fst) ∧
    (s.tree.node p).children = pre ++ last :: post ∧
    (s'.tree.node p).children = pre ++ last ::
      ((a.fates.filterMap Fate.added?).map Prod.fst ++ post)
  /-- What is in the rows that were added. -/
  fresh {row : NodeId} {key : String} : (row, key) ∈ a.fates.filterMap Fate.added? →
    s.tree.nodes.size ≤ row ∧
    FreshRow s'.tree (cellsOf s.tree a.layout.header).length a.column key row

theorem reconcile_places [Fixture φ] {env : Surroundings} {a : Reconciliation} (hs : s.tree.Sound)
    (ho : s.tree.isElement o.element = true)
    (hcolumns : ∀ c ∈ columns, s.tree.isElement c.element = true ∧ c.command.isBuiltIn = true)
    (hflat : s.tree.Flat o.element)
    (h : (reconcile env (fun calls => runRow env calls (pure ())) o columns name
      items).Yields s a s') :
    MissingPlaced env o columns name items a s s' := by
  obtain ⟨key?, s₂, s₃, hlayout, hkey, hcolumn, hmatching, hsurplus, htidy⟩ := reconcile_parts h
  have htidied := tidied_of_tidy htidy
  obtain ⟨-, hnodup, hfound⟩ := hs.layout_spec (Tree.lt_size_of_isElement ho) hlayout
  have hlast : s.tree.Found o.element "tr" (a.layout.rows.getLastD a.layout.header) :=
    hfound _ List.getLastD_mem_cons
  have hcomparing : Comparing o.element (a.layout.header :: a.layout.rows)
      (a.layout.rows.getLastD a.layout.header) s.tree s.tree := .start hs hflat hlast
  have hcompared := hmatching.compared hs hflat
    (fun c hc => Tree.lt_size_of_isElement (hcolumns c hc).1) hfound hnodup
    hcomparing
  obtain ⟨p, pre, post, hplace⟩ := hs.lastRow hflat hlast
  have hstart : Appending o.element p (a.layout.rows.getLastD a.layout.header) pre post
      (cellsOf s.tree a.layout.header).length ((key?.map Prod.fst).getD 0) [] s.tree s.tree :=
    .start hplace
  have hall := hmatching.appending hplace (fun c hc => (hcolumns c hc).2)
    (hfound _ List.mem_cons_self)
    (fun r hr => hfound r (List.mem_cons_of_mem _ hr)) rfl hstart
  rw [List.nil_append, ← hcolumn, ← (recordSurplus_spec hsurplus).1] at hall
  have hend := Tidied.appending hall hplace htidied
  obtain ⟨front, hbefore⟩ := TableLayout.exists_descendants hlayout
  refine ⟨h, hlayout, hmatching.length_fates, ⟨key?, hkey, hcolumn, fun i fate hat => ?_⟩,
    hcolumn ▸ hcompared.dealt,
    ?_, fun hmem => ?_⟩
  · obtain ⟨item, free₁, s₁, s₄, hitem, hfirst, hasked⟩ := hmatching.asked_at hat
    exact ⟨item, s₁, s₄, hitem, ⟨key?, free₁, hkey, hfirst.yields⟩, hasked⟩
  · exact ⟨front, _, p, pre, post, hbefore, hend.descendants_eq hplace hbefore, hplace.children,
      hend.children⟩
  · exact ⟨hend.new (List.mem_map_of_mem (f := Prod.fst) hmem), hend.fresh hmem⟩

/-- **Where missing rows are placed.** When the comparing phase of a `verifyRows` on a flat table
with built-in commands ends, the rows of the table are those that there were, in their order, and
then one for each item with a key that no row was left for, in the order of the items. The new rows
are siblings, directly after the last row that there was; each has one cell for each cell of the
header, and shows the key of its item in the column of the keys and nothing else. Without a sequence
to compare the table is as it was. -/
theorem missing_rows_placed [Fixture φ] {env : Surroundings} {inside : List Call}
    (hs : s.tree.Sound) (ho : s.tree.isElement o.element = true)
    (hinside : ∀ c ∈ inside, s.tree.isElement c.head.element = true ∧
      c.head.command.isBuiltIn = true)
    (hflat : s.tree.Flat o.element) (hcommand : o.command = .verifyRows)
    (h : (runCall env .verify (.mk o inside)).Yields s () s') :
    (∃ name sequence items a, s.kept.lookup o.slot = some (.array items) ∧
      splitBinding o.expression = .ok (name, sequence) ∧
      MissingPlaced env o (inside.map Call.head) name items a
        { s with visits := s.visits ++ [(.verify, o)] } s') ∨
    s'.tree = s.tree ∧ ∀ items name sequence, s.kept.lookup o.slot = some (.array items) →
      splitBinding o.expression ≠ .ok (name, sequence) := by
  have hcolumns : ∀ c ∈ inside.map Call.head, s.tree.isElement c.element = true ∧
      c.command.isBuiltIn = true :=
    fun c hc => by
      obtain ⟨c', hc', rfl⟩ := List.mem_map.mp hc
      exact hinside c' hc'
  unfold runCall step act at h
  simp only [hcommand, Command.owns, if_true] at h
  rw [yields_visit] at h
  rcases compareRows_spec h with ⟨rfl, hno⟩ | ⟨items, name, sequence, a, hkept,
    hbinding, hreconcile⟩
  · exact .inr ⟨rfl, hno⟩
  · have hplaced := reconcile_places (s := { s with visits := s.visits ++ [(.verify, o)] }) hs ho
      hcolumns hflat hreconcile
    exact .inl ⟨name, sequence, items, a, hkept, hbinding, hplaced⟩

/-- The item `b` has no row: one is added after the row `c`. -/
theorem missing_rows_placed_names : Sample.names.Sound ∧ Sample.names.Flat 1 ∧
    ∃ s', (runCall Sample.surroundings .verify (.mk Sample.listing [.mk Sample.naming []])).Yields
      Sample.listed () s' ∧
      ∃ name a, MissingPlaced Sample.surroundings Sample.listing [Sample.naming] name
        [.string "a", .string "b"] a
        { Sample.listed with visits := [(.verify, Sample.listing)] } s' := by
  have hends :
      ((runCall Sample.surroundings .verify (.mk Sample.listing [.mk Sample.naming []])).result
      Sample.listed).1 = .ok () := by decide +kernel
  have hyields := yields_result hends
  have hinside : ∀ c ∈ [Call.mk Sample.naming []],
      Sample.names.isElement c.head.element = true ∧ c.head.command.isBuiltIn = true := by
    intro c hc
    rw [List.mem_singleton.mp hc]
    exact ⟨rfl, rfl⟩
  have hkept : Sample.listed.kept.lookup Sample.listing.slot = some
      (.array [.string "a", .string "b"]) := rfl
  have hok : (splitBinding "#x : xs").isOk = true := by decide +kernel
  refine ⟨Sample.names_sound, Sample.names_flat, _, hyields, ?_⟩
  rcases missing_rows_placed (s := Sample.listed)
    (o := Sample.listing) Sample.names_sound rfl hinside Sample.names_flat rfl
    hyields with ⟨name, sequence, items, a, hitems, -, hplaced⟩ | ⟨-, hno⟩
  · cases hkept.symm.trans hitems
    exact ⟨name, a, hplaced⟩
  · cases hb : splitBinding "#x : xs" with
    | ok binding =>
      obtain ⟨name, sequence⟩ := binding
      exact absurd hb (hno [.string "a", .string "b"] name sequence hkept)
    | error e =>
      rw [hb] at hok
      cases hok

end Run
end LiveSpec
