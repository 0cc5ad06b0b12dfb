import LiveSpec.Proofs.Outcome.Repainting
import LiveSpec.Proofs.Tree.History

/-!
# Edits, write by write

An edit of the structure of a tree is several writes, to the links and the lists of children of
several nodes. `Painting.perform` makes them one by one, in order, and what was written before an
edit fails stays written. All the same a failing edit changes nothing (`carries_perform`): whatever
can fail is asked before the first write.
-/

namespace LiveSpec

open Markup (NodeId Tree TreeError)

namespace Markup.Tree

variable {t : Tree} {c p : NodeId}

/-! ## Writes that do not meet -/

theorem modifyChildren_setLink (f : List NodeId → List NodeId) (l : Link) :
    (t.modifyChildren p f).setLink c l = (t.setLink c l).modifyChildren p f := by
  refine ext_node (by simp) fun m => ?_
  rw [node_setLink, node_modifyChildren, node_modifyChildren, node_setLink, size_modifyChildren,
    size_setLink]
  split <;> split <;> rfl

theorem modifyChildren_setLinks (f : List NodeId → List NodeId) (cs : List NodeId) (l : Link) :
    (t.modifyChildren p f).setLinks cs l = (t.setLinks cs l).modifyChildren p f := by
  induction cs generalizing t with
  | nil => rfl
  | cons c cs ih =>
    show ((t.modifyChildren p f).setLink c l).setLinks cs l =
        ((t.setLink c l).setLinks cs l).modifyChildren p f
    rw [modifyChildren_setLink, ih]

theorem modifyChildren_modifyChildren (f g : List NodeId → List NodeId) :
    (t.modifyChildren p f).modifyChildren p g = t.modifyChildren p (g ∘ f) := by
  refine ext_node (by simp) fun m => ?_
  rw [node_modifyChildren, node_modifyChildren, node_modifyChildren, size_modifyChildren]
  split <;> rfl

theorem modifyChildren_id : t.modifyChildren p id = t := by
  refine ext_node (by simp) fun m => ?_
  rw [node_modifyChildren]
  split <;> rfl

/-- Nodes that are hung in at the end one after the other: their links turn, and they stand there in
order. -/
theorem foldl_hang (cs : List NodeId) :
    cs.foldl (fun t c => t.hang c p (· ++ [c])) t = (t.setLinks cs (.below p)).modifyChildren p
      (· ++ cs) := by
  induction cs generalizing t with
  | nil =>
    have hid : (· ++ [] : List NodeId → List NodeId) = id := funext fun _ => List.append_nil _
    rw [hid, modifyChildren_id]
    rfl
  | cons c cs ih =>
    have happend : (· ++ cs) ∘ (· ++ [c]) = (· ++ (c :: cs) : List NodeId → List NodeId) :=
      funext fun _ => List.append_assoc ..
    rw [List.foldl_cons, ih, hang, modifyChildren_setLinks, modifyChildren_modifyChildren, happend]
    rfl

end Markup.Tree

namespace Painting

variable {t : Tree} {n : NodeId}

/-! ## The writes of each edit -/

/-- Takes a node out of the list of the one above it, if there is one, and leaves it at the top. -/
def detach (n : NodeId) : Edit Unit := do
  match (← get).above n with
  | .parent p => edit fun t => t.modifyChildren p fun cs => cs.filter (· != n)
  | _ => pure ()
  edit fun t => t.setLink n .top

/-- Hangs a detached node below another. -/
def hang (n p : NodeId) (put : List NodeId → List NodeId) : Edit Unit := do
  edit fun t => t.setLink n (.below p)
  edit fun t => t.modifyChildren p put

/-- Adds text at the end of an element. -/
def appendText (n : NodeId) (s : String) : Edit Unit := do
  let c ← make fun t => t.add (.text s)
  hang c n (· ++ [c])

/-- An edit of the structure as the writes that it is made of. -/
def perform : Tree.Edit → Edit Unit
  | .newElement name => do
    let _ ← make fun t => t.newElement name
  | .newElementWithText name s => do
    let n ← make fun t => t.newElement name
    appendText n s
  | .appendText n s => appendText n s
  | .setText n s => do
    let children := ((← get).node n).children
    forM children fun c => edit fun t => t.setLink c .cut
    edit fun t => t.modifyChildren n fun _ => []
    unless s = "" do appendText n s
  | .appendChild p c => do
    ensureLive p
    detach c
    hang c p (· ++ [c])
  | .prependChild p c => do
    ensureLive p
    detach c
    hang c p (c :: ·)
  | .insertAfter n c => do
    ensureLive n
    match (← get).above n with
    | .parent p =>
      detach c
      hang c p (Tree.putAfter n c)
    | _ => throw (.missing "parent")
  | .remove n => do
    ensureLive n
    detach n
    edit fun t => t.setLink n .cut
  | .moveChildren n p => do
    ensureLive n
    ensureLive p
    let children := ((← get).node n).children
    edit fun t => t.modifyChildren n fun _ => []
    forM children fun c => hang c p (· ++ [c])

/-! ## What the writes come to -/

/-- Steps that come to the result of an edit: its tree, or its refusal and the tree that was there
before. -/
def Carries (m : Edit Unit) (t : Tree) (result : Except TreeError Tree) : Prop :=
  m.run t =
    match result with
    | .ok t' => (.ok (), t')
    | .error err => (.error err, t)

theorem carries_ensureLive {m : Edit Unit} {result : Except TreeError Tree}
    (h : Carries m t result) :
    Carries (ensureLive n >>= fun _ => m) t (t.ensureLive n >>= fun _ => result) := by
  unfold Carries ensureLive
  rw [run_bind, run_get_bind]
  cases t.ensureLive n with
  | error err => rfl
  | ok _ => exact h

theorem carries_detach {m : Edit Unit} {t' : Tree} (h : Carries m (t.detach n) (.ok t')) :
    Carries (detach n >>= fun _ => m) t (.ok t') := by
  have hrun : (detach n).run t = (.ok (), t.detach n) := by
    unfold detach Tree.detach
    rw [run_get_bind]
    cases t.above n <;> rfl
  unfold Carries
  rw [run_bind, hrun]
  exact h

/-- A loop of writes is a fold. -/
theorem run_forM {g : NodeId → Edit Unit} {f : Tree → NodeId → Tree}
    (h : ∀ c t, (g c).run t = (.ok (), f t c)) (cs : List NodeId) (t : Tree) :
    (forM cs g).run t = (.ok (), cs.foldl f t) := by
  induction cs generalizing t with
  | nil => rfl
  | cons c cs ih =>
    rw [List.forM_cons, run_bind, h]
    exact ih (f t c)

theorem carries_setText (n : NodeId) (s : String) :
    Carries (perform (.setText n s)) t (.ok (t.setText n s)) := by
  have hcut : ∀ c t, (edit fun t => t.setLink c .cut).run t = (.ok (), t.setLink c .cut) :=
    fun _ _ => rfl
  unfold Carries perform Tree.setText
  rw [run_get_bind, run_bind, run_forM hcut]
  by_cases hs : s = ""
  · rw [if_pos hs, if_pos hs]
    rfl
  · rw [if_neg hs, if_neg hs]
    rfl

theorem carries_insertAfter (n c : NodeId) :
    Carries (perform (.insertAfter n c)) t (t.insertAfter n c) := by
  unfold perform Tree.insertAfter
  refine carries_ensureLive ?_
  unfold Carries
  rw [run_get_bind]
  cases t.above n with
  | parent p => exact carries_detach rfl
  | top => rfl
  | lost => rfl

/-- The children are handed over one by one, each to the end of the list that it goes to. -/
theorem carries_moveChildren (n p : NodeId) :
    Carries (perform (.moveChildren n p)) t (t.moveChildren n p) := by
  have hhang : ∀ c t, (hang c p (· ++ [c])).run t = (.ok (), t.hang c p (· ++ [c])) :=
    fun _ _ => rfl
  unfold perform Tree.moveChildren
  refine carries_ensureLive (carries_ensureLive ?_)
  unfold Carries
  show (forM (t.node n).children fun c => hang c p (· ++ [c])).run
      (t.modifyChildren n fun _ => []) = _
  rw [run_forM hhang, Tree.foldl_hang]
  rfl

/-- **Write by write, an edit does what it does as a whole, or is refused and leaves the tree as it
was.** -/
theorem carries_perform (e : Tree.Edit) (t : Tree) : Carries (perform e) t (e.apply t) := by
  cases e with
  | newElement name => rfl
  | newElementWithText name s => rfl
  | appendText n s => rfl
  | setText n s => exact carries_setText n s
  | appendChild p c => exact carries_ensureLive (carries_detach rfl)
  | prependChild p c => exact carries_ensureLive (carries_detach rfl)
  | insertAfter n c => exact carries_insertAfter n c
  | remove n => exact carries_ensureLive (carries_detach rfl)
  | moveChildren n p => exact carries_moveChildren n p

end Painting
end LiveSpec
