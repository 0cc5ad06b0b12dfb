import LiveSpec.Proofs.Run.Work
import LiveSpec.Proofs.Table.Dealing
import LiveSpec.Proofs.Table.Matching

/-!
# Rows are compared exactly

While the loop goes over the items, rows are added and the calls of matched rows change the table.
What carries the comparison through is `Comparing`: the branches of the header and of the rows that
are still free are as they were at the start, and the next missing row goes beside the rows and not
into one. So a free row shows all through what it showed at the start, and the trace of the loop is
a dealing of rows to items in the sense of `Dealt`.

This needs a table without rows below rows: else the calls of one row could change the text of
another one.
-/

namespace LiveSpec

open Markup (NodeId Tree)
open TableLayout (keyOf keyText cellsOf)

/-- A table without tables in it: no row of the table lies below another one. -/
def Markup.Tree.Flat (t : Tree) (table : NodeId) : Prop :=
  ∀ r x, t.Found table "tr" r → ¬ t.Found r "tr" x

/-- The tree while the rows of a table are compared: what became of the tree at the start. -/
structure Comparing (table : NodeId) (spared : List NodeId) (last : NodeId)
    (t₀ t : Tree) : Prop where
  onward : t₀.Onward t
  sound : t.Sound
  /-- The header and the free rows are as they were. -/
  untouched {r : NodeId} : r ∈ spared → t.Standing r → t₀.Untouched t r
  last_lt : last < t.nodes.size
  /-- The place for the next missing row is in no row. -/
  beside {r p : NodeId} : t₀.Found table "tr" r → last ∈ (t.node p).children → ¬ t₀.Under r p

variable {t₀ t t' : Tree} {table row last r : NodeId} {spared spared' : List NodeId}
  {l : TableLayout} {column : Nat}

/-- Nothing lies below two rows of a flat table. -/
theorem Markup.Tree.Flat.eq_of_under (hflat : t₀.Flat table) (ht : t₀.Coherent) {a b x : NodeId}
    (ha : t₀.Found table "tr" a) (hb : t₀.Found table "tr" b) (hx : t₀.Standing x)
    (hax : t₀.Under a x) (hbx : t₀.Under b x) : a = b := by
  -- one of two rows above a node lies under the other, and in a flat table that is the same row
  have hsame : ∀ {a b : NodeId}, t₀.Found table "tr" a → t₀.Found table "tr" b →
      t₀.Under a b → a = b := by
    intro a b ha hb hu
    refine Decidable.byContradiction fun hne => hflat a b ha ?_
    exact ⟨hb.standing, hb.element, hu.eq_or_below.resolve_left (Ne.symm hne), hb.named⟩
  rcases ht.under_total hx hax hbx with h | h
  · exact hsame ha hb h
  · exact (hsame hb ha h).symm

/-- Rows that all hang below one node make a flat table. -/
theorem Markup.Tree.Coherent.flat_of_siblings {p : NodeId} (ht : t.Coherent)
    (h : ∀ x < t.nodes.size, t.isNamed x "tr" = true → (t.node x).link = .below p) :
    t.Flat table := by
  intro r x hr hx
  have hlisted : ∀ {y n : NodeId}, t.Found n "tr" y → y ∈ (t.node p).children := fun {y n} hy => by
    have hl := h y (ht.standing_lt hy.standing) hy.isRow
    rcases hy.standing.isTop_or_listed with htop | ⟨q, -, hmem⟩
    · exact absurd (htop.link.symm.trans hl) (by simp)
    · have : q = p := Markup.Link.below.inj ((ht.child_link hmem).symm.trans hl)
      exact this ▸ hmem
  rcases ht.under_child hx.under (hlisted hx) with he | hu
  · exact ht.found_ne hx he.symm
  · exact ht.not_under_child (ht.standing_parent hr.standing (hlisted hr)) (hlisted hr) hu

/-- The same, by a look at each node. -/
theorem Markup.Tree.Coherent.flat_of_all {p : NodeId} (ht : t.Coherent)
    (h : (List.range t.nodes.size).all (fun x => !t.isNamed x "tr" || (t.node x).link == .below p) =
      true) : t.Flat table := by
  refine ht.flat_of_siblings (p := p) fun x hx hrow => ?_
  have := List.all_eq_true.mp h x (List.mem_range.mpr hx)
  simpa [hrow] using this

namespace Comparing

theorem start (ht : t₀.Sound) (hflat : t₀.Flat table) (hlast : t₀.Found table "tr" last) :
    Comparing table spared last t₀ t₀ := by
  refine ⟨.refl, ht, fun _ _ => .refl, ht.standing_lt hlast.standing, fun {r p} hr hmem hu => ?_⟩
  have hulast := Tree.Under.child hu hmem
  have : r = last := hflat.eq_of_under ht.toCoherent hr hlast hlast.standing hulast .self
  subst this
  exact ht.not_under_child (ht.standing_parent hlast.standing hmem) hmem hu

/-- A free row that can be read shows what it showed. -/
theorem keyOf_eq (h : Comparing table spared last t₀ t) (ht : t₀.Coherent) (hr₀ : t₀.Standing r)
    (hmem : r ∈ spared) {k : String} (hk : keyText t column r = .ok k) : k = keyOf t₀ column r := by
  obtain ⟨hlive, rfl⟩ := TableLayout.keyText_eq_ok.mp hk
  have hlt := Nat.lt_of_lt_of_le (ht.standing_lt hr₀) h.onward.size_le
  have hr := (h.sound.isLive_iff hlt).mp hlive
  exact ht.keyOf_eq h.onward.size_le hr₀ (h.untouched hmem hr)

theorem sub (h : Comparing table spared last t₀ t) (hsub : ∀ r ∈ spared', r ∈ spared) :
    Comparing table spared' last t₀ t :=
  { h with untouched := fun hr => h.untouched (hsub _ hr) }

/-- The comparison goes on over a change that leaves the spared rows as they are. -/
theorem next (h : Comparing table spared last t₀ t) (ht : t₀.Coherent) (hgo : t.Onward t')
    (ht' : t'.Sound) (hspared : ∀ r ∈ spared, t'.Standing r → t.Standing r → t.Untouched t' r)
    (hold : ∀ r ∈ spared, t₀.Standing r) :
    Comparing table spared last t₀ t' := by
  refine ⟨h.onward.trans hgo, ht', fun {r} hr hstanding => ?_,
    Nat.lt_of_lt_of_le h.last_lt hgo.size_le,
    fun {r p} hr hmem => ?_⟩
  · have hlt := Nat.lt_of_lt_of_le (ht.standing_lt (hold r hr)) h.onward.size_le
    have hbefore := hgo.standing h.sound.toCoherent ht'.toCoherent hlt hstanding
    exact (h.untouched hr hbefore).trans (hspared r hr hstanding hbefore)
  · exact h.beside hr (hgo.listed h.sound.toCoherent ht'.toCoherent h.last_lt hmem).2

/-- A row is added beside the others. -/
theorem rowAdded (h : Comparing table spared last t₀ t) (ht : t₀.Coherent)
    (hadd : TableLayout.RowAdded last row t t') (hold : ∀ r ∈ spared, t₀.Found table "tr" r) :
    Comparing table spared row t₀ t' := by
  obtain ⟨p, hp, hmem, hchildren⟩ := hadd.placed
  have hplt := h.sound.standing_lt hp
  have hspared : ∀ r ∈ spared, t'.Standing r → t.Standing r → t.Untouched t' r := by
    intro r hr _ hbefore
    have hlt : ∀ {x}, t.Under r x → x < t.nodes.size :=
      fun hx => h.sound.standing_lt (hbefore.under hx)
    refine ⟨fun {x} hx => ?_, fun {x} hx => hadd.onward.content (hlt hx)⟩
    have hne : x ≠ p := by
      rintro rfl
      exact h.beside (hold r hr) hmem ((h.untouched hr hbefore).of_under hx)
    rw [hchildren x (hlt hx), if_neg hne]
  have hnext := h.next ht hadd.onward hadd.sound hspared fun r hr => (hold r hr).standing
  have hrow : row ∈ (t'.node p).children := by
    rw [hchildren p hplt, if_pos rfl]
    exact (Markup.Tree.perm_putAfter ..).mem_iff.mpr List.mem_cons_self
  refine { hnext with last_lt := hadd.sound.child_lt hrow, beside := fun {r q} hr hq => ?_ }
  rw [hadd.sound.parent_unique hq hrow]
  exact h.beside hr hmem

end Comparing

/-! ## What is recorded -/

namespace Recorded

/-- The key of an item that is recorded as missing a row. -/
def missed? (r : Recorded) : Option String :=
  match r.outcome with
  | .missingRow key => some key
  | _ => none

/-- The text of a row that is recorded as left over. -/
def leftOver? (r : Recorded) : Option String :=
  match r.outcome with
  | .surplusRow text => some text
  | _ => none

/-- Says whether an exception is recorded at an element. -/
def isExceptionAt (n : NodeId) (r : Recorded) : Bool :=
  match r.outcome with
  | .exception _ _ => r.element == n
  | _ => false

end Recorded

/-- What is recorded for items and for rows that are left over: each item without row as missing,
each item without key as an exception at the table, each row that is left with its text, and else
nothing of this kind. -/
structure Tally (table : NodeId) (fates : List Fate) (texts : List String)
    (xs : List Recorded) : Prop where
  missing : xs.filterMap Recorded.missed? = fates.filterMap Fate.missed?
  leftOver : xs.filterMap Recorded.leftOver? = texts
  exceptions : xs.countP (Recorded.isExceptionAt table) = fates.count .keyless

namespace Tally

variable {fates fates' : List Fate} {texts texts' : List String} {xs ys : List Recorded}

theorem nil : Tally table [] [] [] := ⟨rfl, rfl, rfl⟩

theorem append (h : Tally table fates texts xs) (h' : Tally table fates' texts' ys) :
    Tally table (fates ++ fates') (texts ++ texts') (xs ++ ys) := by
  refine ⟨?_, ?_, ?_⟩
  · rw [List.filterMap_append, List.filterMap_append, h.missing, h'.missing]
  · rw [List.filterMap_append, h.leftOver, h'.leftOver]
  · rw [List.countP_append, List.count_append, h.exceptions, h'.exceptions]

theorem keyless {expression : String} {error : EvaluationError} :
    Tally table [.keyless] [] [⟨table, .exception expression error⟩] := by
  refine ⟨rfl, rfl, ?_⟩
  simp [Recorded.isExceptionAt]

theorem missingRow {key : String} : Tally table [.missing key row] [] [⟨row, .missingRow key⟩] := by
  refine ⟨rfl, rfl, ?_⟩
  rw [List.count_singleton]
  rfl

/-- Outcomes that are neither about rows nor at the table make no difference. -/
theorem shown {key : String} {calls : List Occurrence}
    (h : ∀ x ∈ xs, x.element ≠ table ∧ x.outcome.isAboutRow = false) :
    Tally table [.shown key row calls] [] xs := by
  have hmissing : xs.filterMap Recorded.missed? = [] := by
    refine List.filterMap_eq_nil_iff.mpr fun x hx => ?_
    have := (h x hx).2
    unfold Recorded.missed?
    cases ho : x.outcome with
    | missingRow _ => rw [ho] at this; cases this
    | _ => rfl
  have hleft : xs.filterMap Recorded.leftOver? = [] := by
    refine List.filterMap_eq_nil_iff.mpr fun x hx => ?_
    have := (h x hx).2
    unfold Recorded.leftOver?
    cases ho : x.outcome with
    | surplusRow _ => rw [ho] at this; cases this
    | _ => rfl
  have hexceptions : xs.countP (Recorded.isExceptionAt table) = 0 := by
    refine List.countP_eq_zero.mpr fun x hx => ?_
    have := (h x hx).1
    unfold Recorded.isExceptionAt
    cases ho : x.outcome with
    | exception _ _ => simpa using this
    | _ => simp
  refine ⟨hmissing, hleft, ?_⟩
  rw [hexceptions, List.count_singleton]
  rfl

theorem surplus {rows : List NodeId} (h : rows.length = texts.length) :
    Tally table [] texts ((rows.zip texts).map fun x => ⟨x.1, .surplusRow x.2⟩) := by
  refine ⟨?_, ?_, ?_⟩
  · rw [List.filterMap_map]
    exact List.filterMap_eq_nil_iff.mpr fun _ _ => rfl
  · rw [List.filterMap_map]
    have hsnd :
        (Recorded.leftOver? ∘ fun x : NodeId × String => (⟨x.1, .surplusRow x.2⟩ : Recorded)) =
        fun x => some x.2 := rfl
    rw [hsnd, List.filterMap_eq_map', List.map_snd_zip (Nat.le_of_eq h.symm)]
  · rw [List.countP_map]
    exact List.countP_eq_zero.mpr fun _ _ => by simp [Recorded.isExceptionAt]

end Tally

/-! ## A matched row -/

/-- What running the calls of a row leaves behind: the calls are those of the header that have a
cell in the row, all of them passed through all phases, and what they report is neither about rows
nor at the table. -/
structure MatchedRun {φ : Type} (table row : NodeId) (l : TableLayout)
    (columns calls : List Occurrence) (t₀ : Tree) (s s' : RunState φ) : Prop where
  moved : ∃ placed, l.inRow t₀ columns row = .ok placed ∧
    List.Forall₂ (fun x c => Run.Moved x.1 x.2 c) placed calls
  visits : s.visits <+: s'.visits
  visited : ∀ c ∈ calls, ∀ p, (p, c) ∈ s'.visits
  outcomes : ∃ xs : List Recorded, s'.record.outcomes = s.record.outcomes ++ xs ∧
    ∀ x ∈ xs, x.element ≠ table ∧ x.outcome.isAboutRow = false

namespace Run

variable {φ : Type} {columns calls : List Occurrence} {s s₁ s₂ : RunState φ}

/-- The cells of a free row of a flat table are bare of rows. -/
theorem bare_cells {ns : List NodeId} (h : Comparing table spared last t₀ s.tree) (ht : t₀.Sound)
    (hflat : t₀.Flat table) (hfound : t₀.Found table "tr" row) (hmem : row ∈ spared)
    (hrow : s.tree.Standing row) (hns : ∀ n ∈ ns, n ∈ cellsOf s.tree row) : Bare ns s := by
  refine ⟨h.sound, fun hn => (TableLayout.mem_cellsOf.mp (hns _ hn)).2.1, fun {n x} hn hx => ?_⟩
  have hchild := (TableLayout.mem_cellsOf.mp (hns n hn)).1
  have hu := (h.untouched hmem hrow).of_under ((Tree.Under.of_mem_children hchild).trans hx.under)
  have hlt := ht.standing_lt (hfound.standing.under hu)
  have hx₀ := ht.found_of_onward h.sound.toCoherent h.onward hlt hx
  have hchild₀ : n ∈ (t₀.node row).children := (h.untouched hmem hrow).children .self ▸ hchild
  exact hflat row x hfound ⟨hx₀.standing, hx₀.element, ⟨n, hchild₀, hx₀.under⟩, hx₀.named⟩

/-- **The calls of a matched row** leave the header and the other free rows as they are. -/
theorem comparing_matched [Fixture φ] {env : Surroundings}
    (h : Comparing table spared last t₀ s.tree) (ht : t₀.Sound) (hflat : t₀.Flat table)
    (hfound : ∀ r ∈ spared, t₀.Found table "tr" r) (hmem : row ∈ spared)
    (hheader : l.header ∈ spared) (hcolumns : ∀ o ∈ columns, o.element < t₀.nodes.size)
    (hsub : ∀ r ∈ spared', r ∈ spared) (hnot : row ∉ spared')
    (moved : (retarget l columns row).Yields s calls s₁)
    (ran : (holding (calls.map Occurrence.element) (runRow env calls (pure ()))).Yields s₁ () s₂) :
    Comparing table spared' last t₀ s₂.tree ∧ MatchedRun table row l columns calls t₀ s s₂ := by
  obtain ⟨hq, placed, hplaced, hmoved⟩ := retarget_spec moved
  obtain ⟨s₃, s₄, hq', hrun, htidied⟩ := holding_spec ran
  have hquiet : Quiet s s₃ := trans_of Quiet hq hq'
  have hcell : ∀ n ∈ calls.map Occurrence.element, n ∈ cellsOf s.tree row := fun n hn => by
    obtain ⟨c, hc, rfl⟩ := List.mem_map.mp hn
    exact cell_of_moved hplaced hmoved hc
  -- the row stands, so it is as it was, and its cells are bare of rows
  have hlive := (Tree.inRow_eq_ok.mp hplaced).1
  have hrlt := Nat.lt_of_lt_of_le (ht.standing_lt (hfound row hmem).standing) h.onward.size_le
  have hrow := (h.sound.isLive_iff hrlt).mp hlive
  have hbare : Bare (calls.map Occurrence.element) s :=
    bare_cells h ht hflat (hfound row hmem) hmem hrow hcell
  have hbare₃ : Bare (calls.map Occurrence.element) s₃ :=
    ⟨hquiet.tree ▸ hbare.sound, fun hn => hquiet.tree ▸ hbare.element hn,
      fun hn => hquiet.tree ▸ hbare.bare hn⟩
  obtain ⟨hworks, hvisited⟩ := runRow_works (fun c hc => List.mem_map_of_mem hc) hbare₃ hrun
  have helement : ∀ n ∈ calls.map Occurrence.element, s₃.tree.isElement n = true :=
    fun n hn => hbare₃.element hn
  have hgo := hworks.onward hbare₃.sound helement
  have hgo₂ := htidied.onward hgo.sound
  refine ⟨?_, ⟨placed, ?_, hmoved⟩, ?_, fun c hc p => ?_, ?_⟩
  · refine (h.sub hsub).next ht.toCoherent (hquiet.tree ▸ (hgo.trans hgo₂).tree) hgo₂.sound
      (fun r hr hr₂ hbefore => ?_)
      fun r hr => (hfound r (hsub r hr)).standing
    have hlt := h.sound.standing_lt hbefore
    have hr₄ := hgo₂.tree.standing hgo.sound.toCoherent hgo₂.sound.toCoherent
      (Nat.lt_of_lt_of_le (hquiet.tree ▸ hlt) hgo.tree.size_le) hr₂
    -- no cell of the row lies below another row
    have hout : ∀ n ∈ calls.map Occurrence.element, ¬ s₃.tree.Under r n := fun n hn hu => by
      rw [hquiet.tree] at hu
      have hu₀ := (h.untouched (hsub r hr) hbefore).of_under hu
      have hchild := (TableLayout.mem_cellsOf.mp (hcell n hn)).1
      have hn₀ := (h.untouched hmem hrow).of_under (Tree.Under.of_mem_children hchild)
      have := hflat.eq_of_under ht.toCoherent (hfound r (hsub r hr)) (hfound row hmem)
        ((hfound row hmem).standing.under hn₀) hu₀ hn₀
      exact hnot (this ▸ hr)
    have huntouched := hworks.untouched hbare₃.sound helement hr₄ (hquiet.tree ▸ hlt) hout
    rw [hquiet.tree] at huntouched
    have hrel := htidied.released hgo.sound
    refine huntouched.trans ⟨fun {x} hx => ?_, fun {x} hx => ?_⟩
    · rw [hrel.node (hr₄.under hx)]
    · rw [hrel.node (hr₄.under hx)]
  · have hcells : ∀ r ∈ spared, ∀ cs, TableLayout.cells s.tree r = .ok cs →
      TableLayout.cells t₀ r = .ok cs := by
      intro r hr cs hcs
      obtain ⟨hrlive, rfl⟩ := TableLayout.cells_eq_ok.mp hcs
      have hrlt := Nat.lt_of_lt_of_le (ht.standing_lt (hfound r hr).standing) h.onward.size_le
      have huntouched := h.untouched hr ((h.sound.isLive_iff hrlt).mp hrlive)
      refine TableLayout.cells_eq_ok.mpr ⟨ht.isLive_of_standing (hfound r hr).standing, ?_⟩
      exact TableLayout.cellsOf_congr (huntouched.children .self) fun c hc =>
        huntouched.content (.of_mem_children hc)
    exact ht.inRow_of_onward h.sound.toCoherent h.onward (hcells _ hheader)
      (hcells _ hmem) hcolumns hplaced
  · rw [← hquiet.visits]
    exact (hgo.trans hgo₂).visits
  · rw [htidied.visits]
    exact hvisited c hc p
  · obtain ⟨xs, hxs, hall⟩ := hworks.outcomes
    refine ⟨xs, by rw [htidied.record, hxs, hquiet.record],
      fun x hx => ⟨fun he => ?_, (hall x hx).2⟩⟩
    -- a cell lies below the table
    have hchild := (TableLayout.mem_cellsOf.mp (hcell _ (hall x hx).1)).1
    rw [he] at hchild
    have hchild₀ : table ∈ (t₀.node row).children := (h.untouched hmem hrow).children .self ▸ hchild
    exact ht.not_under_child (hfound row hmem).standing hchild₀ (hfound row hmem).under

/-! ## The loop -/

/-- What the loop over the items comes to. -/
structure Compared (table : NodeId) (l : TableLayout) (columns : List Occurrence) (column : Nat)
    (t₀ : Tree) (s : RunState φ) (free : List NodeId) (fates : List Fate) (left : List NodeId)
    (s' : RunState φ) : Prop where
  dealt : Dealt (keyOf t₀ column) free fates left
  comparing : ∃ last, Comparing table (l.header :: left) last t₀ s'.tree
  visits : s.visits <+: s'.visits
  shown {key : String} {row : NodeId} {calls : List Occurrence} : .shown key row calls ∈ fates →
    (∃ placed, l.inRow t₀ columns row = .ok placed ∧
      List.Forall₂ (fun x c => Moved x.1 x.2 c) placed calls) ∧
    ∀ c ∈ calls, ∀ p, (p, c) ∈ s'.visits
  outcomes : ∃ xs, s'.record.outcomes = s.record.outcomes ++ xs ∧ Tally table fates [] xs

theorem Matching.compared [Fixture φ] {env : Surroundings} {o : Occurrence} {name : String}
    {key? : Option (Nat × Occurrence)} {items : List Value} {free left : List NodeId}
    {fates : List Fate} {s' : RunState φ}
    (h : Matching env (fun calls => runRow env calls (pure ())) o columns name l key? items s free
      last fates left s')
    (ht : t₀.Sound) (hflat : t₀.Flat o.element)
    (hcolumns : ∀ o ∈ columns, o.element < t₀.nodes.size)
    (hfound : ∀ r ∈ l.header :: free, t₀.Found o.element "tr" r) (hnodup : (l.header :: free).Nodup)
    (hcomparing : Comparing o.element (l.header :: free) last t₀ s.tree) :
    Compared o.element l columns ((key?.map Prod.fst).getD 0) t₀ s free fates left s' := by
  induction h with
  | done => exact ⟨.done, ⟨_, hcomparing⟩, List.prefix_rfl, fun h => (by cases h),
    [], by simp, .nil⟩
  | @keyless item items s s₁ s' free left last fates hasked _ ih =>
    have hask := askKey_spec hasked
    have hrest := ih hfound hnodup (hask.tree ▸ hcomparing)
    obtain ⟨xs, hxs, htally⟩ := hrest.outcomes
    obtain ⟨ys, hys, expression, error, rfl⟩ := hask.outcomes
    have hall :
        Tally o.element (.keyless :: fates) [] ([⟨o.element, .exception expression error⟩] ++ xs) :=
      Tally.keyless.append htally
    refine ⟨.keyless hrest.dealt, hrest.comparing, hask.visits ▸ hrest.visits, fun h => ?_,
      _, ?_, hall⟩
    · exact hrest.shown ((List.mem_cons.mp h).resolve_left (by simp))
    · rw [hxs, hys, List.append_assoc]
  | @shown item items s s₁ s₂ s₃ s' free others left last row key calls fates hasked htaken hmoved
    hran _ ih =>
    have hask := askKey_spec hasked
    obtain ⟨hperm, hsub, hkey⟩ := htaken.some
    have hcomparing₁ : Comparing o.element (l.header :: free) last t₀ s₁.tree :=
      hask.tree ▸ hcomparing
    have hmem : row ∈ free := hperm.mem_iff.mpr List.mem_cons_self
    have hmem' := List.mem_cons_of_mem l.header hmem
    have hnodup' : (row :: l.header :: others).Nodup :=
      ((hperm.cons l.header).trans (.swap ..)).nodup_iff.mp hnodup
    have hspared : ∀ r ∈ l.header :: others, r ∈ l.header :: free :=
      (hsub.cons_cons l.header).subset
    obtain ⟨hnext, hrun⟩ :=
      comparing_matched hcomparing₁ ht hflat hfound hmem' List.mem_cons_self hcolumns hspared
      (List.nodup_cons.mp hnodup').1 hmoved hran
    have hrest := ih (fun r hr => hfound r (hspared r hr)) (List.nodup_cons.mp hnodup').2 hnext
    have hsame : keyOf t₀ ((key?.map Prod.fst).getD 0) row = key :=
      (hcomparing₁.keyOf_eq ht.toCoherent (hfound row hmem').standing hmem' hkey).symm
    obtain ⟨xs, hxs, htally⟩ := hrest.outcomes
    obtain ⟨ys, hys, hall⟩ := hrun.outcomes
    obtain ⟨zs, hzs, rfl⟩ := hask.outcomes
    have hmore : Tally o.element (.shown key row calls :: fates) [] (ys ++ xs) :=
      (Tally.shown hall).append htally
    refine ⟨.shown hperm hsame hrest.dealt, hrest.comparing,
      hask.visits ▸ hrun.visits.trans hrest.visits, fun h => ?_,
      _, ?_, hmore⟩
    · rcases List.mem_cons.mp h with he | h
      · cases he
        exact ⟨hrun.moved, fun c hc p => hrest.visits.subset (hrun.visited c hc p)⟩
      · exact hrest.shown h
    · rw [hxs, hys, hzs, List.append_nil, List.append_assoc]
  | @missing item items s s₁ s₂ s' free left last row key fates hasked htaken hadded _ ih =>
    have hask := askKey_spec hasked
    rw [← hask.tree] at hcomparing
    have hadd := addMissingRow_spec hcomparing.sound hcomparing.last_lt hadded
    have hrest := ih hfound hnodup (hcomparing.rowAdded ht.toCoherent hadd.tree hfound)
    obtain ⟨xs, hxs, htally⟩ := hrest.outcomes
    obtain ⟨zs, hzs, rfl⟩ := hask.outcomes
    have hall : Tally o.element (.missing key row :: fates) [] ([⟨row, .missingRow key⟩] ++ xs) :=
      Tally.missingRow.append htally
    refine ⟨.missing (fun r hr => ?_) hrest.dealt, hrest.comparing, ?_, fun h => ?_, _, ?_, hall⟩
    · obtain ⟨k, hk, hne⟩ := htaken.none_of.2 r hr
      have hr' := List.mem_cons_of_mem l.header hr
      rw [← hcomparing.keyOf_eq ht.toCoherent (hfound r hr').standing hr' hk]
      exact hne
    · rw [← hask.visits, ← hadd.visits]
      exact hrest.visits
    · exact hrest.shown ((List.mem_cons.mp h).resolve_left (by simp))
    · rw [hxs, hadd.outcomes, hzs, List.append_nil, List.append_assoc]

theorem Matching.length_fates [Fixture φ] {env : Surroundings}
    {runRow : List Occurrence → Run φ Unit} {o : Occurrence} {name : String}
    {key? : Option (Nat × Occurrence)} {items : List Value} {free left : List NodeId}
    {fates : List Fate} {s' : RunState φ}
    (h : Matching env runRow o columns name l key? items s free last fates left s') :
    fates.length = items.length := by
  induction h with
  | done => rfl
  | keyless _ _ ih => rw [List.length_cons, List.length_cons, ih]
  | shown _ _ _ _ _ ih => rw [List.length_cons, List.length_cons, ih]
  | missing _ _ _ _ ih => rw [List.length_cons, List.length_cons, ih]

/-! ## The comparison -/

/-- An exact comparison: the account `a` of it, the texts of the rows at the start, and the outcomes
`xs` that were recorded. How many items have a key and how many rows show it alone decides how many
rows are matched, how many items miss one and how many rows are left. -/
structure Exact (table : NodeId) (columns : List Occurrence) (items : List Value)
    (a : Reconciliation) (texts : List String) (xs : List Recorded) (s s' : RunState φ) : Prop where
  layout : TableLayout.of s.tree table (columns.head?.map Occurrence.element) = .ok a.layout
  /-- The rows are known by the texts that they show at the start. -/
  shows : a.layout.rows.mapM (keyText s.tree a.column) = .ok texts
  items : a.fates.length = items.length
  outcomes : s'.record.outcomes = s.record.outcomes ++ xs
  /-- Of the rows that show a key, as many are matched as there are items for it. -/
  matched (k : String) :
    (a.fates.filterMap Fate.taken?).countP (keyText s.tree a.column · == .ok k) =
    min ((a.fates.filterMap Fate.key?).count k) (texts.count k)
  /-- No row is matched twice. -/
  once : (a.fates.filterMap Fate.taken?).Nodup
  /-- A matched row is one of the table and shows the key; the commands of the header that have a
  cell in it were moved there and went through all phases. -/
  ran {key : String} {row : NodeId} {calls : List Occurrence} : .shown key row calls ∈ a.fates →
    row ∈ a.layout.rows ∧ keyText s.tree a.column row = .ok key ∧
    (∃ placed, a.layout.inRow s.tree columns row = .ok placed ∧
      List.Forall₂ (fun x c => Moved x.1 x.2 c) placed calls) ∧ ∀ c ∈ calls, ∀ p, (p, c) ∈ s'.visits
  missing (k : String) :
    (xs.filterMap Recorded.missed?).count k = (a.fates.filterMap Fate.key?).count k -
    min ((a.fates.filterMap Fate.key?).count k) (texts.count k)
  surplus (k : String) : (xs.filterMap Recorded.leftOver?).count k = texts.count k -
    min ((a.fates.filterMap Fate.key?).count k) (texts.count k)
  /-- Each item without key is one exception at the table. -/
  keyless : xs.countP (Recorded.isExceptionAt table) = a.fates.count .keyless

/-- What the run records for the rows that are left over. -/
theorem leftOver_texts {left : List NodeId} {keys : List String} (ht : t₀.Sound)
    (hcomparing : Comparing table (l.header :: left) last t₀ t)
    (hfound : ∀ r ∈ left, t₀.Found table "tr" r)
    (hkeys : List.Forall₂ (fun r k => keyText t column r = .ok k) left keys) :
    keys = left.map (keyOf t₀ column) := by
  induction hkeys with
  | nil => rfl
  | @cons r k left keys hk _ ih =>
    rw [List.map_cons, ← hcomparing.keyOf_eq ht.toCoherent (hfound r List.mem_cons_self).standing
      (List.mem_cons_of_mem _ List.mem_cons_self) hk]
    have hsub : ∀ x ∈ l.header :: left, x ∈ l.header :: r :: left :=
      ((List.sublist_cons_self r left).cons_cons l.header).subset
    rw [← ih (hcomparing.sub hsub) fun x hx => hfound x (List.mem_cons_of_mem r hx)]

theorem reconcile_exact [Fixture φ] {env : Surroundings} {o : Occurrence} {name : String}
    {items : List Value} {a : Reconciliation} {s' : RunState φ} (hs : s.tree.Sound)
    (ho : s.tree.isElement o.element = true)
    (hcolumns : ∀ c ∈ columns, s.tree.isElement c.element = true) (hflat : s.tree.Flat o.element)
    (h : (reconcile env (fun calls => runRow env calls (pure ())) o columns name
      items).Yields s a s') :
    ∃ texts xs, Exact o.element columns items a texts xs s s' := by
  obtain ⟨key?, s₁, s₂, s₃, hlayout, -, hcolumn, hquiet, hmatching, hsurplus, htidied⟩ :=
    reconcile_spec h
  obtain ⟨-, hnodup, hfound⟩ := hs.layout_spec (Tree.lt_size_of_isElement ho) hlayout
  have hlast : s.tree.Found o.element "tr" (a.layout.rows.getLastD a.layout.header) :=
    hfound _ List.getLastD_mem_cons
  have hstart : Comparing o.element (a.layout.header :: a.layout.rows)
      (a.layout.rows.getLastD a.layout.header) s.tree
      s₁.tree := by
    rw [hquiet.tree]
    exact .start hs hflat hlast
  have hcompared := hmatching.compared hs hflat
    (fun c hc => Tree.lt_size_of_isElement (hcolumns c hc)) hfound hnodup
    hstart
  rw [← hcolumn] at hcompared
  -- each row can be read at the start, and shows what the loop goes by
  have hread : ∀ r ∈ a.layout.rows, keyText s.tree a.column r = .ok
      (keyOf s.tree a.column r) := fun r hr =>
    TableLayout.keyText_eq_ok.mpr
      ⟨hs.isLive_of_standing (hfound r (List.mem_cons_of_mem _ hr)).standing, rfl⟩
  have htexts : a.layout.rows.mapM (keyText s.tree a.column) = .ok
      (a.layout.rows.map (keyOf s.tree a.column)) := by
    refine Except.mapM_eq_ok.mpr (List.forall₂_map_right_iff.mpr (List.forall₂_same.mpr hread))
  have hperm := hcompared.dealt.perm
  have htaken : ∀ r ∈ a.fates.filterMap Fate.taken?, r ∈ a.layout.rows := fun r hr =>
    hperm.mem_iff.mpr (List.mem_append_left _ hr)
  obtain ⟨last, hlater⟩ := hcompared.comparing
  obtain ⟨htree, hvisits, keys, hkeys, houtcomes⟩ := recordSurplus_spec hsurplus
  have hleft := leftOver_texts hs hlater (fun r hr => hfound r (List.mem_cons_of_mem _
    (hperm.mem_iff.mpr (List.mem_append_right _ hr)))) hkeys
  obtain ⟨xs, hxs, htally⟩ := hcompared.outcomes
  have hall := htally.append (Tally.surplus hkeys.length_eq)
  rw [List.append_nil, List.nil_append] at hall
  have hcounts := hcompared.dealt.counts
  refine ⟨_, _, hlayout, htexts, hmatching.length_fates, ?_, fun k => ?_, ?_,
    fun {key row calls} hmem => ?_, fun k => ?_,
    fun k => ?_, hall.exceptions⟩
  · rw [htidied.record, houtcomes, hxs, hquiet.record, List.append_assoc]
  · rw [← (hcounts k).1, List.count, List.countP_map]
    refine List.countP_congr fun r hr => ?_
    rw [hread r (htaken r hr)]
    simp
  · exact (List.nodup_append.mp (hperm.nodup_iff.mp (List.nodup_cons.mp hnodup).2)).1
  · have hrow : row ∈ a.fates.filterMap Fate.taken? := List.mem_filterMap.mpr ⟨_, hmem, rfl⟩
    obtain ⟨hmoved, hvisited⟩ := hcompared.shown hmem
    refine ⟨htaken row hrow, ?_, hmoved, fun c hc p => ?_⟩
    · rw [hread row (htaken row hrow), hcompared.dealt.shows_eq hmem]
    · rw [htidied.visits, hvisits]
      exact hvisited c hc p
  · rw [hall.missing, (hcounts k).2.1]
    omega
  · rw [hall.leftOver, hleft, (hcounts k).2.2]
    omega

/-- **Rows are compared exactly.** When the comparing phase of a `verifyRows` on a flat table ends,
whatever the sequence and the rows are: for each text as many rows are matched and run as both items
and rows have it for a key, and the items and rows beyond are recorded as missing and left over,
each once. So what is recorded depends on how often each key occurs, and not on the order of items
or rows. -/
theorem rows_compared_exactly [Fixture φ] {env : Surroundings} {o : Occurrence} {inside : List Call}
    {name sequence : String} {items : List Value} {s' : RunState φ} (hs : s.tree.Sound)
    (ho : s.tree.isElement o.element = true)
    (hinside : ∀ c ∈ inside, s.tree.isElement c.head.element = true) (hflat : s.tree.Flat o.element)
    (hcommand : o.command = .verifyRows) (hkept : s.kept.lookup o.slot = some (.array items))
    (hbinding : splitBinding o.expression = .ok (name, sequence))
    (h : (runCall env .verify (.mk o inside)).Yields s () s') :
    ∃ a texts xs,
      (reconcile env (fun calls => runRow env calls (pure ())) o (inside.map Call.head) name
        items).Yields { s with visits := s.visits ++ [(.verify, o)] } a s' ∧
      Exact o.element (inside.map Call.head) items a texts xs s s' := by
  obtain ⟨a, hreconcile⟩ := reconcile_of_runCall hcommand hkept hbinding h
  have hcolumns : ∀ c ∈ inside.map Call.head, s.tree.isElement c.element = true := fun c hc => by
    obtain ⟨c', hc', rfl⟩ := List.mem_map.mp hc
    exact hinside c' hc'
  obtain ⟨texts, xs, hexact⟩ :=
    reconcile_exact (s := { s with visits := s.visits ++ [(.verify, o)] }) hs ho hcolumns
    hflat hreconcile
  exact ⟨a, texts, xs, hreconcile, { hexact with }⟩

end Run

namespace Sample

/-- A table with the header `Name` and the rows `a` and `c`. -/
def names : Tree :=
  ⟨#[⟨.document, [1], .top, false⟩, ⟨.element "table" [], [2, 5, 8], .below 0, false⟩,
  ⟨.element "tr" [], [3], .below 1, false⟩, ⟨.element "th" [], [4], .below 2, false⟩,
  ⟨.text "Name", [], .below 3, false⟩,
  ⟨.element "tr" [], [6], .below 1, false⟩, ⟨.element "td" [], [7], .below 5, false⟩,
  ⟨.text "a", [], .below 6, false⟩,
  ⟨.element "tr" [], [9], .below 1, false⟩, ⟨.element "td" [], [10], .below 8, false⟩,
  ⟨.text "c", [], .below 9, false⟩]⟩

theorem names_sound : names.Sound := Tree.sound_of_agrees rfl ⟨by decide, rfl⟩ (by decide)

theorem names_flat : names.Flat 1 := names_sound.toCoherent.flat_of_all (p := 1) (by cbv)

/-- The call of the table. -/
def listing : Occurrence := ⟨0, 0, 1, .verifyRows, ⟨builtInNamespace, "verifyrows"⟩, "#x : xs"⟩

/-- The assertion in the header. -/
def naming : Occurrence := ⟨1, 1, 3, .assertEquals, ⟨builtInNamespace, "assertequals"⟩, "#x"⟩

/-- The state in which `a` and `b` are to be compared with the rows. -/
def listed : RunState StockFixture :=
  { start names with kept := [(0, .array [.string "a", .string "b"])] }

end Sample

/-- The item `a` takes the row `a`; the item `b` has no row, and the row `c` is left over. -/
theorem Run.rows_compared_exactly_names : Sample.names.Sound ∧ Sample.names.Flat 1 ∧
    ∃ s', (runCall Sample.surroundings .verify (.mk Sample.listing [.mk Sample.naming []])).Yields
      Sample.listed () s' ∧
      ∃ a texts xs, Exact 1 [Sample.naming]
      [.string "a", .string "b"] a texts xs Sample.listed s' := by
  have hok : (splitBinding "#x : xs").isOk = true := by cbv
  obtain ⟨⟨name, sequence⟩, hbinding⟩ : ∃ binding, splitBinding "#x : xs" = .ok binding := by
    cases hb : splitBinding "#x : xs" with
    | ok binding => exact ⟨binding, rfl⟩
    | error e =>
      rw [hb] at hok
      cases hok
  have hends :
      ((runCall Sample.surroundings .verify (.mk Sample.listing [.mk Sample.naming []])).result
      Sample.listed).1 = .ok () := by decide +kernel
  have hyields := yields_result hends
  have hinside :
      ∀ c ∈ [Call.mk Sample.naming []], Sample.names.isElement c.head.element = true := by
    intro c hc
    rw [List.mem_singleton.mp hc]
    rfl
  have hkept : Sample.listed.kept.lookup Sample.listing.slot = some
      (.array [.string "a", .string "b"]) := rfl
  obtain ⟨a, texts, xs, -, hexact⟩ :=
    rows_compared_exactly (s := Sample.listed) (o := Sample.listing) Sample.names_sound
    rfl hinside Sample.names_flat rfl hkept hbinding hyields
  exact ⟨Sample.names_sound, Sample.names_flat, _, hyields, a, texts, xs, hexact⟩

end LiveSpec
