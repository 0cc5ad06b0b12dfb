import LiveSpec.Proofs.Run.Confined
import LiveSpec.Proofs.Table.Exact
import LiveSpec.Proofs.Table.FreshRow
import LiveSpec.Proofs.Tree.History
import LiveSpec.Proofs.Tree.Search

/-!
# Missing rows go to the end

While items are compared with the rows of a flat table, the table changes in two ways: the calls of
a matched row work within its cells, and a missing row goes directly after the last one. `Appending`
says what is left as it was: all that lies in no cell, apart from the list of children in which the
rows that were added follow the last row that there was. No step takes a row away or puts one
elsewhere, since rows lie in no cell, and the rows that were added lie in none either
(`Appending.off_new`).

So a search for the rows of the table finds those that there were, in their order, and then those
that were added (`Appending.descendants_eq`).
-/

namespace LiveSpec

open Markup (NodeId Tree)
open TableLayout (cellsOf)

variable {t₀ t t' : Tree} {table p last last₀ x a r n row : NodeId} {pre post : List NodeId}
  {count column : Nat} {key : String} {added : List (NodeId × String)}

theorem exists_append_getLastD (a : NodeId) (l : List NodeId) :
    ∃ init, a :: l = init ++ [l.getLastD a] := by
  rcases List.eq_nil_or_concat l with rfl | ⟨rest, b, rfl⟩
  · exact ⟨[], rfl⟩
  · exact ⟨a :: rest, by simp⟩

/-- A node that lies in no cell, and in nothing else that is in a row of the table. -/
def OffRows (t : Tree) (table x : NodeId) : Prop :=
  ∀ r c, t.Found table "tr" r → c ∈ (t.node r).children → ¬ t.Under c x

/-- The last row of a flat table, with the list of children that it stands in. -/
structure LastRow (t : Tree) (table p last : NodeId) (pre post : List NodeId) : Prop where
  sound : t.Sound
  flat : t.Flat table
  found : t.Found table "tr" last
  children : (t.node p).children = pre ++ last :: post

/-- The tree while missing rows are added to a table: the rows that were added so far, each with the
key of its item, follow the last row that there was. -/
structure Appending (table p last₀ : NodeId) (pre post : List NodeId) (count column : Nat)
    (added : List (NodeId × String)) (t₀ t : Tree) : Prop where
  onward : t₀.Onward t
  sound : t.Sound
  /-- What lies in no cell stays, apart from the list that rows are added to. -/
  stays {x : NodeId} : t₀.Standing x → x ≠ p → OffRows t₀ table x → t₀.Stays t x
  standing : t.Standing p
  children : (t.node p).children = pre ++ last₀ :: (added.map Prod.fst ++ post)
  new {row : NodeId} : row ∈ added.map Prod.fst → t₀.nodes.size ≤ row
  fresh {row : NodeId} {key : String} : (row, key) ∈ added → FreshRow t count column key row
  /-- No other rows came to be. -/
  only {x : NodeId} : t.isNamed x "tr" = true → x < t₀.nodes.size ∨ x ∈ added.map Prod.fst

namespace LastRow

variable (h : LastRow t₀ table p last₀ pre post)
include h

theorem mem : last₀ ∈ (t₀.node p).children := by
  rw [h.children]
  simp

/-- What lies above a row lies in no cell. -/
theorem off_above (hr : t₀.Found table "tr" r) (hx : t₀.Under x r) :
    OffRows t₀ table x := fun q _ hq hc hu =>
  h.flat q r hq ⟨hr.standing, hr.element, ⟨_, hc, hu.trans hx⟩, hr.named⟩

theorem off_place : OffRows t₀ table p := h.off_above h.found (.of_mem_children h.mem)

theorem standing : t₀.Standing p := h.sound.standing_parent h.found.standing h.mem

theorem row_ne (hr : t₀.Found table "tr" r) : r ≠ p := by
  rintro rfl
  exact h.flat r last₀ hr ⟨h.found.standing, h.found.element, ⟨last₀, h.mem, .self⟩, h.found.named⟩

end LastRow

namespace Appending

theorem start (hlast : LastRow t₀ table p last₀ pre post) :
    Appending table p last₀ pre post count column [] t₀ t₀ :=
  ⟨.refl, hlast.sound, fun hx _ _ => .of_eq rfl hx, hlast.standing, hlast.children, nofun,
    nofun, fun hx =>
    .inl (Markup.Tree.lt_size_of_isElement (Markup.Tree.isElement_of_isNamed hx (by cbv)))⟩

section

variable (h : Appending table p last₀ pre post count column added t₀ t)
  (hlast : LastRow t₀ table p last₀ pre post)
include h

theorem mem_place (ha : a = last₀ ∨ a ∈ added.map Prod.fst) : a ∈ (t.node p).children := by
  rw [h.children]
  rcases ha with rfl | ha
  · simp
  · exact List.mem_append_right _ (List.mem_cons_of_mem _ (List.mem_append_left _ ha))

/-- The list that rows are added to, without these. -/
theorem sublist_place : (pre ++ last₀ :: post).Sublist (t.node p).children := by
  rw [h.children]
  exact (List.Sublist.refl pre).append ((List.sublist_append_right ..).cons_cons last₀)

theorem standing_new (ha : a ∈ added.map Prod.fst) : t.Standing a :=
  h.standing.child (h.mem_place (.inr ha))

include hlast

/-- A row that is found later lay in the table before, or was added. -/
theorem found_before (hx : t.Found n "tr" x) (hnew : x ∉ added.map Prod.fst) : t₀.Found n "tr" x :=
  hlast.sound.found_of_onward h.sound.toCoherent h.onward ((h.only hx.isRow).resolve_right hnew) hx

/-- What lies in no cell lies in none later. -/
theorem off_later (hx : t₀.Standing x) (hoff : OffRows t₀ table x) :
    ∀ r c, t₀.Found table "tr" r → c ∈ (t₀.node r).children → ¬ t.Under c x := fun r c hr hc hu =>
  hoff r c hr hc (h.onward.under hlast.sound.toCoherent h.sound.toCoherent
    (hlast.sound.standing_lt hx) hu)

/-- **A row that was added lies in no cell of the rows that there were.** -/
theorem off_new (ha : a ∈ added.map Prod.fst) (hx : t.Under a x) :
    ∀ r c, t₀.Found table "tr" r → c ∈ (t₀.node r).children →
      ¬ t.Under c x := fun r c hr hc hu => by
  have hclt : c < t₀.nodes.size := hlast.sound.child_lt hc
  have hne : c ≠ a := by
    rintro rfl
    exact Nat.not_lt_of_le (h.new ha) hclt
  rcases h.sound.under_total ((h.standing_new ha).under hx) hu hx with hca | hac
  · have hcp := (h.sound.under_child hca (h.mem_place (.inr ha))).resolve_left hne
    exact h.off_later hlast hlast.standing hlast.off_place r c hr hc hcp
  · -- nothing that was there lay below a node that was not
    have hac₀ := h.onward.under hlast.sound.toCoherent h.sound.toCoherent hclt hac
    obtain ⟨d, hd, -⟩ := hac₀.eq_or_below.resolve_left hne
    exact Nat.not_lt_of_le (h.new ha) (Markup.Tree.lt_size_of_mem_children hd)

/-! ## The order of the rows -/

/-- The way down to a row is kept, and so is the order of the branches beside it. -/
theorem sublist_children (hr : t₀.Found table "tr" r) (hn : t₀.Under n r) :
    (t₀.node n).children.Sublist (t.node n).children := by
  by_cases hp : n = p
  · rw [hp, hlast.children]
    exact h.sublist_place
  · rw [(h.stays (hlast.sound.standing_of_under hn hr.standing) hp
      (hlast.off_above hr hn)).children]

theorem under_row (hr : t₀.Found table "tr" r) (hn : t₀.Under n r) : t.Under n r :=
  hn.of_edges fun hc hmem =>
    (h.sublist_children hlast hr ((Tree.Under.of_mem_children hmem).trans hc)).subset hmem

theorem standing_row (hr : t₀.Found table "tr" r) : t.Standing r :=
  (h.stays hr.standing (hlast.row_ne hr) (hlast.off_above hr .self)).standing

theorem precedes_row {r' : NodeId} (hr : t₀.Found table "tr" r) (hr' : t₀.Found table "tr" r')
    (hprec : t₀.Precedes r r') : t.Precedes r r' := by
  cases hprec with
  | below hc hu => exact absurd ⟨hr'.standing, hr'.element,
    ⟨_, hc, hu⟩, hr'.named⟩ (hlast.flat r r' hr)
  | beside hs hc hd =>
    have hq := (Tree.Under.of_mem_children (hs.subset List.mem_cons_self)).trans hc
    exact .beside (hs.trans (h.sublist_children hlast hr hq)) (h.under_row hlast hr hc)
      (h.under_row hlast hr' hd)

/-- The rows that were added come after all that there were. -/
theorem precedes_new (hr : t₀.Found table "tr" r) (hprec : r = last₀ ∨ t₀.Precedes r last₀)
    (ha : a ∈ added.map Prod.fst) :
    t.Precedes r a := by
  have hafter : a ∈ last₀ :: (added.map Prod.fst ++ post) :=
    List.mem_cons_of_mem _ (List.mem_append_left _ ha)
  rcases hprec with rfl | hprec
  · refine .beside (p := p) ?_ .self .self
    rw [h.children]
    exact ((List.singleton_sublist.mpr (List.mem_append_left _ ha)).cons_cons r).trans
      (List.sublist_append_right ..)
  cases hprec with
  | below hc hu =>
    exact absurd ⟨hlast.found.standing, hlast.found.element, ⟨_, hc, hu⟩, hlast.found.named⟩
      (hlast.flat r last₀ hr)
  | @beside q c d _ _ hs hc hd =>
    by_cases hdlast : d = last₀
    · -- the branch of the row is in the same list, before the last row
      subst hdlast
      obtain rfl : q = p := hlast.sound.parent_unique (hs.subset (by simp)) hlast.mem
      have hnodup := hlast.sound.nodup q
      have hmem := hs.subset List.mem_cons_self
      rw [hlast.children] at hs hnodup hmem
      have hpre : c ∈ pre := by
        rcases List.mem_append.mp hmem with hpre | hrest
        · exact hpre
        · have hswap : ∀ {l : List NodeId}, c ∈ l → [d, c].Sublist (pre ++ d :: l) := fun hl =>
            ((List.singleton_sublist.mpr hl).cons_cons d).trans (List.sublist_append_right ..)
          rcases List.mem_cons.mp hrest with rfl | hpost
          · have := hnodup.sublist hs
            simp at this
          · exact absurd (hswap hpost) (Markup.Tree.not_sublist_swap hnodup hs)
      refine .beside (p := q) ?_ (h.under_row hlast hr hc) .self
      rw [h.children]
      exact (List.singleton_sublist.mpr hpre).append (List.singleton_sublist.mpr hafter)
    · have hq := (Tree.Under.of_mem_children (hs.subset List.mem_cons_self)).trans hc
      have hdp :=
        (h.sound.under_child (h.under_row hlast hlast.found hd)
          (h.mem_place (.inl rfl))).resolve_left hdlast
      exact .beside (hs.trans (h.sublist_children hlast hr hq)) (h.under_row hlast hr hc)
        (.child hdp (h.mem_place (.inr ha)))

/-- **The rows of the table** are those that there were, in their order, and then those that were
added. -/
theorem descendants_eq {front : List NodeId}
    (hbefore : t₀.descendants table "tr" = .ok (front ++ [last₀])) :
    t.descendants table "tr" = .ok (front ++ [last₀] ++ added.map Prod.fst) := by
  have ht₀ := hlast.sound.toCoherent
  have htable : table < t₀.nodes.size := by
    obtain ⟨c, hc, -⟩ := hlast.found.below
    exact Markup.Tree.lt_size_of_mem_children hc
  obtain ⟨-, hsorted, hall⟩ := (ht₀.descendants_iff htable).mp hbefore
  have hfound : ∀ r ∈ front ++ [last₀], t₀.Found table "tr" r := fun r hr => (hall r).mp hr
  refine (h.sound.descendants_iff (Nat.lt_of_lt_of_le htable h.onward.size_le)).mpr
    ⟨?_, ?_, fun x => ?_⟩
  · exact h.sound.standing_of_under (h.under_row hlast hlast.found hlast.found.under)
      (h.standing_row hlast hlast.found)
  · refine List.pairwise_append.mpr ⟨?_, ?_, fun r hr a ha => ?_⟩
    · exact hsorted.imp_of_mem fun hr hr' => h.precedes_row hlast (hfound _ hr) (hfound _ hr')
    · refine List.pairwise_iff_forall_sublist.mpr fun hs => .beside (p := p) ?_ .self .self
      rw [h.children]
      exact ((hs.trans (List.sublist_append_left ..)).cons last₀).trans
        (List.sublist_append_right ..)
    · refine h.precedes_new hlast (hfound r hr) ?_ ha
      rcases List.mem_append.mp hr with hr | hr
      · exact .inr ((List.pairwise_append.mp hsorted).2.2 r hr last₀ (List.mem_singleton.mpr rfl))
      · exact .inl (List.mem_singleton.mp hr)
  · rw [List.mem_append, hall]
    constructor
    · rintro (hx | hx)
      · have hlt := ht₀.standing_lt hx.standing
        have hbelow := (h.under_row hlast hx hx.under).eq_or_below.resolve_left (ht₀.found_ne hx)
        refine ⟨h.standing_row hlast hx, (h.onward.isElement hlt).trans hx.element, hbelow,
          fun hne => ?_⟩
        rw [h.onward.isNamed hlt]
        exact hx.named hne
      · obtain ⟨⟨row, key⟩, hmem, rfl⟩ := List.mem_map.mp hx
        have hnamed := (h.fresh hmem).named
        have hplace : t.Under table p :=
          (h.sound.under_child (h.under_row hlast hlast.found hlast.found.under)
          (h.mem_place (.inl rfl))).resolve_left (ht₀.found_ne hlast.found).symm
        have hne : row ≠ table := by
          rintro rfl
          exact Nat.not_lt_of_le (h.new hx) htable
        refine ⟨h.standing_new hx, Markup.Tree.isElement_of_isNamed hnamed (by cbv),
          (hplace.child (h.mem_place (.inr hx))).eq_or_below.resolve_left hne, fun _ => ?_⟩
        rw [show Text.asciiLower "tr" = "tr" by cbv]
        exact hnamed
    · intro hx
      by_cases hnew : x ∈ added.map Prod.fst
      · exact .inr hnew
      · exact .inl (h.found_before hlast hx hnew)

/-! ## What happens to the table -/

/-- Work within the cells of the rows makes no difference. -/
theorem next (hgo : t.Onward t') (ht' : t'.Sound)
    (hstays : ∀ x, t.Standing x → (∀ r c, t₀.Found table "tr" r → c ∈ (t₀.node r).children →
      ¬ t.Under c x) → t.Stays t' x)
    (hrows : ∀ x, t'.isNamed x "tr" = true → t.isNamed x "tr" = true) :
    Appending table p last₀ pre post count column added t₀ t' := by
  have hplace := hstays p h.standing (h.off_later hlast hlast.standing hlast.off_place)
  refine ⟨h.onward.trans hgo, ht', fun hx hne hoff => ?_, hplace.standing,
    hplace.children.trans h.children, h.new,
    fun {row key} hmem => ?_, fun hx => h.only (hrows _ hx)⟩
  · have hfirst := h.stays hx hne hoff
    exact hfirst.trans (hstays _ hfirst.standing (h.off_later hlast hx hoff))
  · have hnew := List.mem_map_of_mem (f := Prod.fst) hmem
    have hrow := h.standing_new hnew
    exact (h.fresh hmem).of_untouched h.sound.toCoherent hgo.size_le hrow
      (.of_stays fun x hx => hstays x (hrow.under hx) (h.off_new hlast hnew hx))

/-- One more row is added, after the last one of those that were added, or after the last one that
there was. -/
theorem rowAppended (hadd : TableLayout.RowAdded ((added.map Prod.fst).getLastD last₀) row t t')
    (hfresh : FreshRow t' count column key row) (honly : ∀ x, t'.isNamed x "tr" = true →
      x < t.nodes.size ∨ x = row) :
    Appending table p last₀ pre post count column (added ++ [(row, key)]) t₀ t' := by
  obtain ⟨q, -, hq, hchildren⟩ := hadd.placed
  obtain ⟨init, hinit⟩ := exists_append_getLastD last₀ (added.map Prod.fst)
  have hlist :
      (t.node p).children = (pre ++ init) ++ (added.map Prod.fst).getLastD last₀ :: post := by
    rw [h.children, ← List.cons_append, hinit]
    simp
  obtain rfl : q = p := h.sound.parent_unique hq (by rw [hlist]; simp)
  have hlt := h.sound.standing_lt h.standing
  have hnow :
      (t'.node q).children = pre ++ last₀ :: ((added ++ [(row, key)]).map Prod.fst ++ post) := by
    have hnodup := h.sound.nodup q
    rw [hlist] at hnodup
    have hfirst : (added.map Prod.fst).getLastD last₀ ∉ pre ++ init := fun hmem =>
      (List.nodup_cons.mp (List.nodup_middle.mp hnodup)).1 (List.mem_append_left _ hmem)
    rw [hchildren q hlt, if_pos rfl, hlist, Tree.Linked.putAfter_append hfirst, List.map_append,
      ← List.cons_append,
      ← List.cons_append, hinit]
    simp
  have hstays : ∀ x, t.Standing x → x ≠ q → t.Stays t' x := fun x hx hne =>
    ⟨hadd.standing h.sound hx, hadd.onward.content (h.sound.standing_lt hx), by
      rw [hchildren x (h.sound.standing_lt hx), if_neg hne]⟩
  refine ⟨h.onward.trans hadd.onward, hadd.sound, fun hx hne hoff => ?_,
    hadd.standing h.sound h.standing, hnow,
    fun {r} hr => ?_, fun {r k} hmem => ?_, fun {x} hx => ?_⟩
  · have hfirst := h.stays hx hne hoff
    exact hfirst.trans (hstays _ hfirst.standing hne)
  · rw [List.map_append] at hr
    rcases List.mem_append.mp hr with hr | hr
    · exact h.new hr
    · rw [List.mem_singleton.mp hr, hadd.row_eq]
      exact h.onward.size_le
  · rcases List.mem_append.mp hmem with hmem | hmem
    · -- the place of the rows lies below none of them
      have hnew := List.mem_map_of_mem (f := Prod.fst) hmem
      have hrow := h.standing_new hnew
      refine (h.fresh hmem).of_untouched h.sound.toCoherent hadd.onward.size_le hrow
        (.of_stays fun x hx => hstays x (hrow.under hx) ?_)
      rintro rfl
      exact h.sound.not_under_child h.standing (h.mem_place (.inr hnew)) hx
    · cases List.mem_singleton.mp hmem
      exact hfresh
  · rw [List.map_append, List.mem_append]
    rcases honly x hx with hold | rfl
    · rw [hadd.onward.isNamed hold] at hx
      exact (h.only hx).imp_right .inl
    · exact .inr (.inr (List.mem_singleton.mpr rfl))

end

end Appending

end LiveSpec
