import LiveSpec.Proofs.Tree.Forest
import LiveSpec.Proofs.Tree.Marks

/-!
# Walks that are taken to their end

A walk keeps a list of the nodes that are still to be visited; to visit one is to put its children
in its place. What one call for the next element answers is said by `Walk.Next`, and what all of
them answer up to the last one by `Walk.Runs`. Neither has a limit: that there is an answer means
that the walk comes to it.

The invariant is on the whole list: its branches have no node in common (`Spread`), and what is left
of the walk are these branches, listed by recursion one after the other (`Forest.runs_of_spread`).
So a walk over the elements below an element lists them as recursion would, wherever it was
interrupted or copied (`Searched`).
-/

namespace LiveSpec.Markup.Tree

variable {t : Tree} {n x y : NodeId} {xs ys rest : List NodeId} {name : String} {f : Nat}

namespace Walk

variable {w w' : Walk} {r r' : Option (NodeId × Walk)}

/-- The answer to a call for the next element, however many nodes are passed on the way to it. -/
inductive Next (t : Tree) : Walk → Option (NodeId × Walk) → Prop
  | finished {name : Option String} : Next t ⟨[], name⟩ none
  | stop {n : NodeId} {rest : List NodeId} {name : Option String}
    (stops : stopsAt ⟨n :: rest, name⟩ t n = true) :
    Next t ⟨n :: rest, name⟩ (some (n, ⟨(t.node n).children ++ rest, name⟩))
  | pass {n : NodeId} {rest : List NodeId} {name : Option String} {r : Option (NodeId × Walk)}
    (passes : stopsAt ⟨n :: rest, name⟩ t n = false)
      (onward : Next t ⟨(t.node n).children ++ rest, name⟩ r) :
    Next t ⟨n :: rest, name⟩ r

/-- The answers to the calls for the next element until there is none. -/
inductive Runs (t : Tree) : Walk → List NodeId → Prop
  | done {w : Walk} (next : Next t w none) : Runs t w []
  | more {w w' : Walk} {x : NodeId} {xs : List NodeId} (next : Next t w (some (x, w')))
    (rest : Runs t w' xs) :
    Runs t w (x :: xs)

/-- The answers to some calls for the next element, and the walk that is left then. -/
inductive Takes (t : Tree) : Walk → List NodeId → Walk → Prop
  | none {w : Walk} : Takes t w [] w
  | more {w w₁ w' : Walk} {x : NodeId} {xs : List NodeId} (next : Next t w (some (x, w₁)))
    (rest : Takes t w₁ xs w') :
    Takes t w (x :: xs) w'

/-- What comes next on a walk is determined. -/
theorem Next.unique (h : Next t w r) (h' : Next t w r') : r = r' := by
  induction h with
  | finished =>
    cases h'
    rfl
  | stop hstop =>
    cases h' with
    | stop => rfl
    | pass hpass _ =>
      rw [hstop] at hpass
      cases hpass
  | pass hpass _ ih =>
    cases h' with
    | stop hstop =>
      rw [hstop] at hpass
      cases hpass
    | pass _ h' => exact ih h'

/-- So is the whole walk. -/
theorem Runs.unique (h : Runs t w xs) (h' : Runs t w ys) : xs = ys := by
  induction h generalizing ys with
  | done hnext =>
    cases h' with
    | done => rfl
    | more hnext' _ => cases hnext.unique hnext'
  | more hnext _ ih =>
    cases h' with
    | done hnext' => cases hnext.unique hnext'
    | more hnext' hrest =>
      cases hnext.unique hnext'
      exact congrArg _ (ih hrest)

/-- **What is left of a walk**, after some of its elements were taken, are the others. -/
theorem Takes.runs (h : Takes t w ys w') (hw : Runs t w xs) : ∃ zs, xs = ys ++ zs ∧
    Runs t w' zs := by
  induction h generalizing xs with
  | none => exact ⟨xs, rfl, hw⟩
  | more hnext _ ih =>
    cases hw with
    | done hnext' => cases hnext.unique hnext'
    | more hnext' hrest =>
      cases hnext.unique hnext'
      obtain ⟨zs, rfl, hzs⟩ := ih hrest
      exact ⟨zs, rfl, hzs⟩

/-- To pass the first node changes nothing for the elements to come. -/
theorem Runs.pass {name : Option String} (hpass : stopsAt ⟨n :: rest, name⟩ t n = false)
    (h : Runs t ⟨(t.node n).children ++ rest, name⟩ xs) : Runs t ⟨n :: rest, name⟩ xs := by
  cases h with
  | done hnext => exact .done (.pass hpass hnext)
  | more hnext hrest => exact .more (.pass hpass hnext) hrest

end Walk

/-! ## The nodes still to be visited -/

/-- Nodes whose branches have nothing in common. -/
structure Spread (t : Tree) (ns : List NodeId) : Prop where
  lt {n : NodeId} : n ∈ ns → n < t.nodes.size
  apart : ns.Pairwise fun a b => ∀ x, t.Under a x → ¬ t.Under b x

namespace Forest

variable (ht : t.Forest)
include ht

/-- The children of a node spread out. -/
theorem spread_children (n : NodeId) : t.Spread (t.node n).children :=
  ⟨ht.child_lt, (ht.nodup n).imp_of_mem fun ha hb hne _ hax hbx =>
    hne (ht.branch_unique ha hb hax hbx)⟩

/-- A node that is entered is replaced by its children. -/
theorem spread_unfold (h : t.Spread (n :: rest)) : t.Spread ((t.node n).children ++ rest) := by
  obtain ⟨hfirst, hrest⟩ := List.pairwise_cons.mp h.apart
  refine ⟨fun {y} hy => ?_, List.pairwise_append.mpr ⟨(ht.spread_children n).apart, hrest,
    fun c hc b hb x hcx => ?_⟩⟩
  · rcases List.mem_append.mp hy with hy | hy
    · exact ht.child_lt hy
    · exact h.lt (List.mem_cons_of_mem n hy)
  · exact hfirst b hb x ((Under.of_mem_children hc).trans hcx)

open Classical in
/-- A node that is visited is not visited again. -/
theorem card_unfold (h : t.Spread (n :: rest)) :
    (t.branchNodes ((t.node n).children ++ rest)).card < (t.branchNodes (n :: rest)).card := by
  refine Finset.card_lt_card ⟨fun x hx => ?_, fun hsub => ?_⟩
  · obtain ⟨hlt, hx⟩ := mem_branchNodes.mp hx
    exact mem_branchNodes.mpr ⟨hlt, within_unfold.mpr (.inr hx)⟩
  · obtain ⟨-, a, ha, hu⟩ :=
      mem_branchNodes.mp (hsub (mem_branchNodes.mpr ⟨h.lt List.mem_cons_self, n,
        List.mem_cons_self, .self⟩))
    rcases List.mem_append.mp ha with ha | ha
    · exact ht.acyclic ha hu
    · exact (List.pairwise_cons.mp h.apart).1 a ha n .self hu

/-! ## Walking is listing by recursion -/

open Classical in
/-- **A walk comes to its end, and its elements are those that recursion lists**: of each branch
that is still to be visited, the nodes to stop at. -/
theorem runs_of_spread (w : Walk) (h : t.Spread w.pending) :
    Walk.Runs t w ((w.pending.flatMap fun c => c :: t.preorder c).filter (w.stopsAt t)) := by
  induction hk : (t.branchNodes w.pending).card using Nat.strongRecOn generalizing w with
  | _ k ih =>
    obtain ⟨pending, name⟩ := w
    cases pending with
    | nil => exact .done .finished
    | cons n rest =>
      have honward :=
        ih _ (hk ▸ ht.card_unfold h) ⟨(t.node n).children ++ rest, name⟩ (ht.spread_unfold h) rfl
      have hlist : ((n :: rest).flatMap fun c => c :: t.preorder c) =
          n :: ((t.node n).children ++ rest).flatMap fun c => c :: t.preorder c := by
        rw [List.flatMap_cons, List.flatMap_append, ← ht.preorder_eq]
        rfl
      show Walk.Runs t ⟨n :: rest, name⟩
          (List.filter _ ((n :: rest).flatMap fun c => c :: t.preorder c))
      rw [hlist, List.filter_cons]
      split
      · next hstop => exact .more (.stop hstop) honward
      · next hpass => exact .pass (Bool.eq_false_of_not_eq_true hpass) honward

/-! ## The fuel -/

open Classical in
/-- Each stop leaves less to walk. -/
theorem spread_next {w w' : Walk} (hs : t.Spread w.pending) (h : Walk.Next t w (some (x, w'))) :
    t.Spread w'.pending ∧ (t.branchNodes w'.pending).card < (t.branchNodes w.pending).card := by
  generalize hr : some (x, w') = r at h
  induction h with
  | finished => cases hr
  | stop =>
    cases hr
    exact ⟨ht.spread_unfold hs, ht.card_unfold hs⟩
  | pass _ _ ih =>
    obtain ⟨hspread, hfewer⟩ := ih (ht.spread_unfold hs) hr
    exact ⟨hspread, hfewer.trans (ht.card_unfold hs)⟩

open Classical in
/-- With rounds enough, the next stop is found. -/
theorem next?_of_next {w : Walk} {r : Option (NodeId × Walk)} (hs : t.Spread w.pending)
    (h : Walk.Next t w r) (hf : (t.branchNodes w.pending).card < f) : Walk.next? t f w = r := by
  induction h generalizing f with
  | finished => cases f <;> rfl
  | stop hstop =>
    obtain ⟨f, rfl⟩ := Nat.exists_eq_succ_of_ne_zero (Nat.ne_zero_of_lt hf)
    exact if_pos hstop
  | pass hpass _ ih =>
    obtain ⟨f, rfl⟩ := Nat.exists_eq_succ_of_ne_zero (Nat.ne_zero_of_lt hf)
    refine (if_neg (by simp [hpass])).trans (ih (ht.spread_unfold hs) ?_)
    exact Nat.lt_of_lt_of_le (ht.card_unfold hs) (Nat.le_of_lt_succ hf)

open Classical in
/-- The search that counts its steps finds what the walk comes to. -/
theorem elements_of_runs {w : Walk} (hs : t.Spread w.pending) (h : Walk.Runs t w xs)
    (hf : (t.branchNodes w.pending).card < f) : Walk.elements t f w = xs := by
  induction h generalizing f with
  | done hnext =>
    obtain ⟨f, rfl⟩ := Nat.exists_eq_succ_of_ne_zero (Nat.ne_zero_of_lt hf)
    unfold Walk.elements
    rw [ht.next?_of_next hs hnext (Nat.lt_succ_of_le card_branchNodes_le)]
  | more hnext _ ih =>
    obtain ⟨f, rfl⟩ := Nat.exists_eq_succ_of_ne_zero (Nat.ne_zero_of_lt hf)
    obtain ⟨hspread, hfewer⟩ := ht.spread_next hs hnext
    unfold Walk.elements
    rw [ht.next?_of_next hs hnext (Nat.lt_succ_of_le card_branchNodes_le)]
    exact congrArg _ (ih hspread (by omega))

/-- So is the list of all stops. -/
theorem elements_eq {w : Walk} (hs : t.Spread w.pending) (h : Walk.Runs t w xs) :
    w.elements t (t.nodes.size + 1) = xs :=
  ht.elements_of_runs hs h (Nat.lt_succ_of_le card_branchNodes_le)

/-- After any stops, what is left to walk is spread out still. -/
theorem spread_takes {w w' : Walk} (hs : t.Spread w.pending) (h : Walk.Takes t w ys w') :
    t.Spread w'.pending := by
  induction h with
  | none => exact hs
  | more hnext _ ih => exact ih (ht.spread_next hs hnext).1

end Forest

/-! ## The elements below an element -/

/-- A walk over the elements of a name below an element, and what it finds: each of them, in
document order. Wherever it was interrupted, it finds the others. -/
structure Searched (t : Tree) (n : NodeId) (name : String) (w : Walk)
    (xs : List NodeId) : Prop where
  walk : t.walk n name = .ok w
  runs : Walk.Runs t w xs
  found : t.descendants n name = .ok xs
  mem_iff (x : NodeId) : x ∈ xs ↔ t.isElement x = true ∧ (t.Under n x ∧ x ≠ n) ∧
    (name = "*" ∨ Text.asciiLower (t.localName x) = Text.asciiLower name)
  nodup : xs.Nodup
  sorted : xs.Pairwise t.Precedes
  listed : xs = (t.preorder n).filter (w.stopsAt t)
  resumes {ys : List NodeId} {w' : Walk} : Walk.Takes t w ys w' → ∃ zs, xs = ys ++ zs ∧
    (∀ rest, Walk.Runs t w' rest ↔ rest = zs) ∧ w'.elements t (t.nodes.size + 1) = zs

/-- The text of a node comes by the nodes below it that elements lead to, in document order, and by
all that is in an element at one go. Where elements alone have children, it comes by all nodes. -/
structure ReadInOrder (t : Tree) (n : NodeId) : Prop where
  text : t.text n = String.join ((t.reading n).map t.ownText)
  mem_iff (x : NodeId) : x ∈ t.reading n ↔ ∃ p, t.Reaches n p ∧ x ∈ (t.node p).children
  sorted : (t.preorder n).Pairwise t.Precedes
  part : (t.reading n).Sublist (t.preorder n)
  piece {x : NodeId} : t.isElement x = true → x ∈ t.reading n → x :: t.reading x <:+: t.reading n
  whole : (∀ x ∈ t.preorder n, t.isElement x = false → (t.node x).children = []) →
    t.reading n = t.preorder n

/-- The walk over the elements of a name below an element, before its first step. -/
def walkBelow (t : Tree) (n : NodeId) (name : String) : Walk :=
  ⟨(t.node n).children, if name = "*" then none else some (Text.asciiLower name)⟩

/-- A walk from a live node begins with its children. -/
theorem walk_eq (hn : t.isLive n = true) : t.walk n name = .ok (t.walkBelow n name) :=
  ensureLive_bind_of_isLive hn

/-- A walk stops at elements of the name that is looked for. -/
theorem stopsAt_walkBelow : (t.walkBelow n name).stopsAt t x = true ↔ t.isElement x = true ∧
    (name = "*" ∨ Text.asciiLower (t.localName x) = Text.asciiLower name) := by
  unfold Walk.stopsAt walkBelow
  rw [Bool.and_eq_true]
  refine and_congr_right fun _ => ?_
  by_cases hname : name = "*"
  · simp [hname]
  · simp [hname, isNamed, Text.sameName_iff, Text.asciiLower_asciiLower]

namespace Forest

variable (ht : t.Forest)
include ht

/-- A walk stops at what lies below in document order, as far as it is looked for. -/
theorem runs_walkBelow (n : NodeId) (name : String) :
    Walk.Runs t (t.walkBelow n name) ((t.preorder n).filter ((t.walkBelow n name).stopsAt t)) := by
  rw [ht.preorder_eq]
  exact ht.runs_of_spread (t.walkBelow n name) (ht.spread_children n)

/-- The whole walk is the search. -/
theorem searched (hn : t.isLive n = true) (name : String) :
    ∃ xs, t.Searched n name (t.walkBelow n name) xs := by
  have hspread : t.Spread (t.walkBelow n name).pending := ht.spread_children n
  have hruns := ht.runs_walkBelow n name
  refine ⟨_, walk_eq hn, hruns, ?found, fun x => ?mem, (ht.preorder_nodup n).filter _,
    (ht.preorder_sorted n).filter _,
    rfl, fun htakes => ?resumes⟩
  case found =>
    unfold descendants
    rw [walk_eq hn]
    exact congrArg Except.ok (ht.elements_eq hspread hruns)
  case mem =>
    rw [List.mem_filter, ht.mem_preorder_iff, stopsAt_walkBelow]
    exact and_left_comm
  case resumes =>
    obtain ⟨zs, hzs, hrest⟩ := htakes.runs hruns
    refine ⟨zs, hzs, fun rest => ⟨fun h => h.unique hrest, ?_⟩,
      ht.elements_eq (ht.spread_takes hspread htakes) hrest⟩
    rintro rfl
    exact hrest

/-- A text is read in document order. -/
theorem readInOrder (n : NodeId) : t.ReadInOrder n where
  text := t.text_eq n
  mem_iff _ := ht.mem_reading
  sorted := ht.preorder_sorted n
  part := reading_sublist t n
  piece := ht.reading_infix
  whole := ht.reading_eq_preorder

end Forest

/-- **To walk below an element is to list what is below it.** Each tree without cycles that a
document came to is a forest. In a forest, the walk over the elements of a name below a live element
comes to its end and finds each of them once, in document order, in which the text of the element
comes by them too. Two copies of a walk find the same. -/
theorem walk_lists_descendants :
    (∀ {html : String} {cs : List (Tree × Event)} {t : Tree}, Course (Tree.read html) cs t →
      t.Acyclic → t.Forest) ∧
    ∀ {t : Tree}, t.Forest → ∀ {n : NodeId}, t.isLive n = true →
      t.ReadInOrder n ∧ ∀ name, ∃ w xs, t.Searched n name w xs :=
  ⟨Course.forest, fun ht n hn => ⟨ht.readInOrder n, fun name => ⟨_, ht.searched hn name⟩⟩⟩

open LiveSpec.Markup.Tree.Sample in
/-- A walk over the body of a document, and a copy of it after its first element. -/
theorem walk_lists_descendants_paragraph :
    Course (Tree.read "<p>x<b>y") [] paragraph ∧ paragraph.Acyclic ∧ paragraph.isLive 3 = true ∧
      paragraph.ReadInOrder 3 ∧ ∃ w, paragraph.Searched 3 "*" w [4, 6] ∧
        ∃ w', Walk.Takes paragraph w [4] w' ∧ Walk.Runs paragraph w' [6] := by
  have hcourse : Course (Tree.read "<p>x<b>y") [] paragraph := .start
  have hacyclic : paragraph.Acyclic :=
    acyclic_of_lt (parsed_read _).wired.parent_lt (by decide +kernel)
  have hlive : paragraph.isLive 3 = true := by decide +kernel
  have hfound : paragraph.descendants 3 "*" = .ok [4, 6] := by decide +kernel
  obtain ⟨hforest, hwalks⟩ := walk_lists_descendants
  obtain ⟨hread, hwalk⟩ := hwalks (hforest hcourse hacyclic) hlive
  obtain ⟨w, xs, hsearched⟩ := hwalk "*"
  obtain rfl : xs = [4, 6] := Except.ok.inj (hsearched.found.symm.trans hfound)
  refine ⟨hcourse, hacyclic, hlive, hread, w, hsearched, ?_⟩
  cases hsearched.runs with
  | more hnext hrest => exact ⟨_, .more hnext .none, hrest⟩

end LiveSpec.Markup.Tree
