import LiveSpec.Proofs.Outcome.Accounting
import LiveSpec.Proofs.Outcome.Strokes
import LiveSpec.Proofs.Tree.Parsed

/-!
# The tree in which calls are collected

Before the calls of a document are collected, listeners of parsing may add to its attributes and
remove elements, and its head is completed. The tree that was read is sound, and so it stays while
it is shown to the listeners (`Run.tell_sound`). What the head is completed with is made first and
hung in then, so that nothing is left hanging loose (`Engine.installHead_sound`). So the calls are
collected in a sound tree, whatever the document and whatever the listeners do
(`Engine.prepare_sound`).
-/

namespace LiveSpec

open Markup (NodeId Tree TreeError)
open Markup.Tree

variable {t t' : Tree} {n p : NodeId}

/-! ## Listeners of parsing -/

namespace Run

theorem removeAll_sound {ns : List NodeId} (ht : t.Sound) (hns : ∀ n ∈ ns, t.isElement n = true)
    (h : removeAll t ns = .ok t') : t'.Sound := by
  induction ns generalizing t with
  | nil => exact Except.ok.inj h ▸ ht
  | cons n ns ih =>
    obtain ⟨t₁, hremove, hrest⟩ := Except.bind_eq_ok.mp h
    have hpruned := ht.pruned_remove (hns n List.mem_cons_self) hremove
    refine ih (hpruned.sound ht) (fun m hm => ?_) hrest
    exact (isElement_congr (hpruned.content m)).trans (hns m (List.mem_cons_of_mem n hm))

/-- What a listener of parsing removes. -/
def sweep (spy : Spy) (t : Tree) : Except TreeError Tree :=
  match spy.retouch.remove with
  | some name => do
    let root ← t.root
    removeAll t (← t.descendants root name)
  | none => return t

theorem sweep_sound {spy : Spy} (ht : t.Sound) (h : sweep spy t = .ok t') : t'.Sound := by
  unfold sweep at h
  split at h
  · obtain ⟨root, hroot, h⟩ := Except.bind_eq_ok.mp h
    obtain ⟨ns, hns, hremove⟩ := Except.bind_eq_ok.mp h
    have hlt := lt_size_of_isElement (mem_elementsOf.mp (mem_elementsOf_of_root hroot)).2
    obtain ⟨-, -, hfound⟩ := ht.descendants_spec hlt hns
    exact removeAll_sound ht (fun n hn => (hfound n hn).element) hremove
  · exact Except.ok.inj h ▸ ht

/-- What a listener of parsing does to a sound tree leaves it sound. -/
theorem retouch_sound {spy : Spy} (ht : t.Sound) (h : retouch t spy = .ok t') : t'.Sound := by
  unfold retouch at h
  dsimp only at h
  split at h
  · obtain ⟨body, -, h⟩ := Except.bind_eq_ok.mp h
    exact sweep_sound ((modifyAttributes_sameShape _).sound ht) h
  · exact sweep_sound ht h

variable {φ : Type} {s s' : RunState φ}

/-- After a state with a sound tree, the tree is sound. -/
def StaysSound (s s' : RunState φ) : Prop := s.tree.Sound → s'.tree.Sound

instance : IsPreorder (RunState φ) StaysSound where
  refl _ := id
  trans _ _ _ h h' := h' ∘ h

theorem reshape_sound {spy : Spy} {e : Event} : Keeps StaysSound (reshape spy e : Run φ Unit) := by
  unfold reshape
  split
  · intro s _ s' h
    obtain ⟨_, _, hget, hrest⟩ := yields_bind.mp h
    obtain ⟨rfl, rfl⟩ := yields_get.mp hget
    split at hrest
    · next t hretouch =>
      intro ht
      rw [yields_change.mp hrest]
      exact retouch_sound ht hretouch
    · exact absurd hrest not_yields_throw
  · exact .pure

/-- Whatever listeners are told of, the tree stays sound. -/
theorem tell_sound {bus : Bus} {e : Event} : Keeps StaysSound (tell bus e : Run φ Unit) := by
  refine .forM fun listener _ => ?_
  obtain ⟨place, l⟩ := listener
  cases l with
  | silent => exact .pure
  | spy spy =>
    show Keeps _ (hear place (.spy spy) e)
    rw [hear_spy]
    refine .bind reshape_sound fun _ => ?_
    -- to take note of an event is nothing to the tree
    refine .bind (Always.keeps (.modify fun _ ht => ht)) fun _ => .bind .get fun s => ?_
    split
    · exact .throw
    · exact .pure

end Run

/-! ## The head -/

namespace Markup.Tree

/-- A node that was made beside a tree and hangs loose, alone of all that was made. -/
structure Made (t : Tree) (n : NodeId) (t' : Tree) : Prop where
  beyond : t.Beyond t'
  new : t.nodes.size ≤ n
  loose : t'.Loose n
  only {m : NodeId} : t'.IsTop m → t.IsTop m ∨ m = n

theorem Sprout.made (h : Sprout t n t') : Made t n t' := ⟨h.beyond, h.new, h.loose, h.only⟩

theorem Made.setAttribute (h : Made t n t') (name value : String) :
    Made t n (t'.setAttribute n name value) where
  beyond := h.beyond.modifyAttributes h.new _
  new := h.new
  loose := ⟨(modifyAttributes_sameShape _).isTop_iff.mpr h.loose.toIsTop, h.loose.ne_document⟩
  only hm := h.only ((modifyAttributes_sameShape _).isTop_iff.mp hm)

/-- A loose node that is put somewhere below another is hung in there. -/
theorem Coherent.attach {put : List NodeId → List NodeId} (ht : t.Coherent) (hn : t.Loose n)
    (hp : p < t.nodes.size) (hput : (put (t.node p).children).Perm (n :: (t.node p).children))
    (h : (do t.ensureLive p; return (t.detach n).hang n p put) = Except.ok t') :
    t'.Coherent ∧ t'.nodes.size = t.nodes.size ∧ ∀ {m}, t'.IsTop m ↔ t.IsTop m ∧ m ≠ n := by
  obtain ⟨-, -, h⟩ := Except.bind_eq_ok.mp h
  rw [detach_of_isTop hn.toIsTop] at h
  cases h
  exact ⟨ht.hang hn hp hput, size_hang put, isTop_hang_iff put hn.lt⟩

/-- The head of a coherent tree, made if it is missing. What hung loose does so yet, and nothing
else. -/
theorem Coherent.head (ht : t.Coherent) (h : t.head = .ok (p, t')) :
    t'.Coherent ∧ p < t'.nodes.size ∧ ∀ {m}, t'.IsTop m ↔ t.IsTop m := by
  unfold Tree.head at h
  obtain ⟨root, hroot, h⟩ := Except.bind_eq_ok.mp h
  obtain ⟨found, hfound, h⟩ := Except.bind_eq_ok.mp h
  split at h
  · next head =>
    cases h
    obtain ⟨children, hchildren, hhead⟩ := Except.bind_eq_ok.mp hfound
    obtain ⟨-, -, hchildren⟩ := Except.bind_eq_ok.mp hchildren
    cases hchildren
    have hmem := List.mem_of_find?_eq_some (Except.ok.inj hhead)
    exact ⟨ht, ht.child_lt (mem_elementsOf.mp hmem).1, .rfl⟩
  · obtain ⟨u, hprepend, h⟩ := Except.bind_eq_ok.mp h
    cases h
    have hmade := sprout_newElement ht "head"
    have hrootElement := (mem_elementsOf.mp (mem_elementsOf_of_root hroot)).2
    have hlt := Nat.lt_of_lt_of_le (lt_size_of_isElement hrootElement) hmade.beyond.size_le
    obtain ⟨hu, hsize, htops⟩ := hmade.beyond.coherent.attach hmade.loose hlt (.refl _) hprepend
    refine ⟨hu, hsize ▸ hmade.loose.lt, fun {m} => htops.trans ⟨fun ⟨hm, hne⟩ => ?_, fun hm => ?_⟩⟩
    · exact (hmade.only hm).resolve_right hne
    · exact ⟨hmade.beyond.isTop hm, Nat.ne_of_lt hm.lt⟩

end Markup.Tree

namespace Engine

theorem headElement_made (ht : t.Coherent) (document : Resource) (entry : HeadEntry) :
    Made t (headElement document t entry).1 (headElement document t entry).2 := by
  cases entry with
  | linkedCss target =>
    exact (((sprout_newElement ht _).made.setAttribute _ _).setAttribute _ _).setAttribute _ _
  | embeddedCss text => exact (sprout_newElementWithText ht _ _).1.made.setAttribute _ _
  | linkedScript target => exact ((sprout_newElement ht _).made.setAttribute _ _).setAttribute _ _
  | embeddedScript text => exact (sprout_newElementWithText ht _ _).1.made.setAttribute _ _

theorem addEntries_sound {document : Resource} {entries : List HeadEntry} (ht : t.Sound)
    (hp : p < t.nodes.size) (h : addEntries document p t entries = .ok t') : t'.Sound := by
  induction entries generalizing t with
  | nil => exact Except.ok.inj h ▸ ht
  | cons entry entries ih =>
    obtain ⟨u, happend, hrest⟩ := Except.bind_eq_ok.mp h
    have hmade := headElement_made ht.toCoherent document entry
    have hlt := Nat.lt_of_lt_of_le hp hmade.beyond.size_le
    obtain ⟨hu, hsize, htops⟩ :=
      hmade.beyond.coherent.attach hmade.loose hlt (List.perm_append_singleton ..) happend
    refine ih (hu.sound_of_tops fun hm => ?_) (hsize ▸ hlt) hrest
    obtain ⟨hm, hne⟩ := htops.mp hm
    exact ht.eq_document ((hmade.only hm).resolve_right hne)

theorem embedCss_sound {css : String} (ht : t.Sound) (h : Painting.embedCss t css = .ok t') :
    t'.Sound := by
  have hmade :=
    (sprout_newElementWithText ht.toCoherent "style" css).1.made.setAttribute "type" "text/css"
  obtain ⟨⟨p, u⟩, hhead, happend⟩ := Except.bind_eq_ok.mp h
  obtain ⟨hu, hp, hsame⟩ := hmade.beyond.coherent.head hhead
  have hloose := Loose.mk (hsame.mpr hmade.loose.toIsTop) hmade.loose.ne_document
  obtain ⟨ht', -, htops⟩ := hu.attach hloose hp (List.perm_append_singleton ..) happend
  refine ht'.sound_of_tops fun hm => ?_
  obtain ⟨hm, hne⟩ := htops.mp hm
  exact ht.eq_document ((hmade.only (hsame.mp hm)).resolve_right hne)

/-- Completing the head leaves a sound tree. -/
theorem installHead_sound {embedCss : Bool} {document : Resource} {entries : List HeadEntry}
    (ht : t.Sound) (h : installHead embedCss document entries t = .ok t') : t'.Sound := by
  have hadded : ∀ {u : Tree}, u.Sound →
      (u.head >>= fun found => addEntries document found.1 found.2 entries) = .ok t' →
      t'.Sound := by
    intro u hu h
    obtain ⟨⟨p, v⟩, hhead, hentries⟩ := Except.bind_eq_ok.mp h
    obtain ⟨hv, hp, hsame⟩ := hu.toCoherent.head hhead
    exact addEntries_sound (hv.sound_of_tops fun hm => hu.eq_document (hsame.mp hm)) hp hentries
  cases embedCss with
  | false => exact hadded ht h
  | true =>
    obtain ⟨u, hembed, h⟩ := Except.bind_eq_ok.mp h
    exact hadded (embedCss_sound ht hembed) h

variable {φ : Type} {e : Engine φ} {set : ExtensionSet} {env : Surroundings} {s s' : RunState φ}

/-- Preparing a document whose tree is sound leaves it with a sound one. -/
theorem prepare_sound (h : (e.prepare set env : Run φ Unit).Yields s () s') (ht : s.tree.Sound) :
    s'.tree.Sound := by
  obtain ⟨_, s₁, htell, hattempt⟩ := Run.yields_bind.mp h
  obtain ⟨t, hinstall, rfl⟩ := Run.yields_attempt.mp hattempt
  exact installHead_sound (Run.tell_sound htell ht) hinstall

theorem prepare_coherent (h : (e.prepare set env : Run φ Unit).Yields s () s') (ht : s.tree.Sound) :
    s'.tree.Coherent :=
  (prepare_sound h ht).toCoherent

end Engine
end LiveSpec
