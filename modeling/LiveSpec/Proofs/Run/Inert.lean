import LiveSpec.Proofs.Graph.Predicting
import LiveSpec.Proofs.Isolation.Errors
import LiveSpec.Proofs.Outcome.Burying
import LiveSpec.Proofs.Table.Framing

/-!
# Inert markup

What carries no command and is no target of one is inert. A run takes a document through these
stages: the head is completed, the phases go over the calls, outcomes are painted, and in between
listeners are told. Each stage leaves inert markup as it was, with its attributes and its children:
to complete the head changes the head alone (`Tree.Dressed.stays`), the phases leave alone what is
no target of an `echo` and gets no rows (`Run.runGraph_frames`), and to paint outcomes changes their
elements alone (`Painting.stays_paint`). So does the whole run (`Engine.inert_markup_stays`), if the
listeners of parsing leave the document as it is.
-/

namespace LiveSpec

open Markup (NodeId Tree)
open Markup.Tree

/-- No listener of parsing changes the document. -/
def Bus.LeavesTree (bus : Bus) : Prop := ∀ l, (Channel.parsing, l) ∈ bus → l.LeavesTree

variable {φ : Type} {s s' : RunState φ}

/-! ## Listeners -/

namespace Run

variable {bus : Bus} {event : Event}

theorem tell_leaving (h : bus.LeavesTree) :
    Keeps (fun s s' : RunState φ => s'.tree = s.tree) (tell bus event) := by
  refine .forM fun listener hlistener => ?_
  obtain ⟨place, l⟩ := listener
  cases l with
  | silent => exact .pure
  | spy spy =>
    intro s _ s' hy
    unfold Yields at hy
    rw [result_hear fun hparsing => h _ (hparsing ▸ Bus.mem_of_mem_on hlistener),
      result_attend] at hy
    split at hy <;> cases hy
    rfl

/-- Listeners that accept every event, and leave the document as it is, let the run go on. -/
theorem tell_welcome (hbus : bus.LeavesTree) (haccepts : bus.Accepts) :
    ∃ s₁ : RunState φ, (tell bus event).Yields s () s₁ := by
  refine ⟨_, yields_result (forM_ok fun listener hlistener s => ?_)⟩
  exact hear_accepted (accepts_of_mem_on haccepts hlistener) fun hparsing =>
    hbus _ (hparsing ▸ Bus.mem_of_mem_on hlistener)

end Run

/-! ## Painting -/

namespace Painting

variable {t : Tree} {os : List Recorded} {x : NodeId}

/-- What no outcome was recorded at stays when the outcomes are painted. -/
theorem stays_paint (ht : t.Coherent) (hos : ∀ r ∈ os, t.isElement r.element = true)
    (hx : t.Standing x) (hout : ∀ r ∈ os, r.element ≠ x) : t.Stays (paint t os).1 x := by
  induction os generalizing t with
  | nil => exact .of_eq rfl hx
  | cons r os ih =>
    have hlt := ht.standing_lt hx
    have hne := (hout r List.mem_cons_self).symm
    have hover := (painted_paintOne ht (hos r List.mem_cons_self)).overlaid ht
    have hstep : t.Stays ((paintOne r).run t).2 x :=
      ⟨(hover.standing_iff hlt).mpr hx, hover.content hlt hne, hover.children hlt hne⟩
    rw [paint_cons]
    refine hstep.trans (ih hover.coherent (fun r' hr' => ?_) hstep.standing fun r' hr' =>
      hout r' (List.mem_cons_of_mem _ hr'))
    exact (paintOne_grows r t).isElement (hos r' (List.mem_cons_of_mem _ hr'))

end Painting

/-! ## A run -/

namespace Engine

open Run

variable [Fixture φ] {e : Engine φ} {set : ExtensionSet} {env : Surroundings} {g : CallGraph}
  {output : Output} {x : NodeId}

omit [Fixture φ] in
/-- Where listeners leave the document as it is, preparing it is completing its head. -/
theorem prepare_spec (hbus : env.bus.LeavesTree)
    (h : (e.prepare set env : Run φ Unit).Yields s () s') :
    installHead e.config.embedDefaultCss env.resource set.head s.tree = .ok s'.tree ∧
    s'.record = s.record := by
  obtain ⟨_, s₁, htell, hattempt⟩ := yields_bind.mp h
  obtain ⟨t, hinstall, rfl⟩ := yields_attempt.mp hattempt
  have htold : Overheard _ s s₁ := tell_overheard.keeps htell
  have htree : s₁.tree = s.tree := tell_leaving hbus htell
  exact ⟨htree ▸ hinstall, htold.record⟩

/-- A run that ends well prepares its document, collects the calls, and performs them. -/
theorem pipeline_spec (h : (e.pipeline set env : Run φ Output).Yields s output s') :
    ∃ s₁ g, (e.prepare set env).Yields s () s₁ ∧ CallGraph.ofTree s₁.tree set.registry = .ok g ∧
      (e.perform set env g).Yields s₁ output s' := by
  obtain ⟨_, s₁, htell, h₁⟩ := yields_bind.mp h
  obtain ⟨_, s₂, hattempt, h₂⟩ := yields_bind.mp h₁
  obtain ⟨_, _, hget, h₃⟩ := yields_bind.mp h₂
  obtain ⟨rfl, rfl⟩ := yields_get.mp hget
  split at h₃
  · next g hgraph => exact ⟨_, g, yields_bind.mpr ⟨_, s₁, htell, hattempt⟩, hgraph, h₃⟩
  · obtain ⟨_, _, hthrow, -⟩ := yields_bind.mp h₃
    exact absurd hthrow not_yields_throw

/-- What performing the calls of a document comes to: the phases, and then the painting of what was
found out. -/
theorem perform_spec (h : (e.perform set env g : Run φ Output).Yields s output s') :
    ∃ s₁ s₂, Quiet s s₁ ∧ (runGraph env g).Yields s₁ () s₂ ∧ output.summary.record = s₂.record ∧
      output.tree = (Painting.paint s₂.tree s₂.record.outcomes).1 ∧ s'.visits = s₂.visits := by
  obtain ⟨_, s, hget, h₀⟩ := yields_bind.mp h
  obtain ⟨-, rfl⟩ := yields_get.mp hget
  obtain ⟨_, s₁, htell, h₁⟩ := yields_bind.mp h₀
  obtain ⟨_, s₂, hmodify, h₂⟩ := yields_bind.mp h₁
  obtain ⟨_, _, hrun, h₃⟩ := yields_bind.mp h₂
  obtain ⟨_, _, hget, h₄⟩ := yields_bind.mp h₃
  obtain ⟨rfl, rfl⟩ := yields_get.mp hget
  obtain ⟨_, s₄, hpaint, h₅⟩ := yields_bind.mp h₄
  obtain ⟨_, _, hbuilt, h₆⟩ := yields_bind.mp h₅
  obtain ⟨_, _, hget, hpure⟩ := yields_bind.mp h₆
  obtain ⟨rfl, rfl⟩ := yields_get.mp hget
  obtain ⟨rfl, rfl⟩ := yields_pure.mp hpure
  have htold : Quiet s s₁ := (tell_quiet (by simp [Event.graphBuilt, Event.channel])).keeps htell
  have hstart : Quiet s₁ s₂ := by
    rw [yields_modify.mp hmodify]
    exact ⟨rfl, rfl, rfl⟩
  have hended : Quiet s₄ s' := (tell_quiet (by simp [Event.channel])).keeps hbuilt
  -- painting writes the tree and nothing else
  obtain ⟨_, _, hget, hchange⟩ := yields_bind.mp hpaint
  obtain ⟨rfl, rfl⟩ := yields_get.mp hget
  obtain ⟨_, _, hwrite, hpure⟩ := yields_bind.mp hchange
  obtain ⟨-, rfl⟩ := yields_pure.mp hpure
  cases yields_change.mp hwrite
  exact ⟨s₂, _, trans_of Quiet htold hstart, hrun, rfl, hended.tree, hended.visits⟩

/-- What is no target of an `echo`, gets no rows, and has no outcome of its own stays when calls are
performed. -/
theorem perform_stays (h : (e.perform set env g : Run φ Output).Yields s output s')
    (hs : s.tree.Sound) (hrecord : s.record = .empty)
    (hbuiltIn : ∀ o ∈ g.walk, o.command.isBuiltIn = true)
    (hcalls : ∀ o ∈ g.walk, s.tree.isElement o.element = true) (hx : s.tree.Standing x)
    (hecho : ¬ s'.Echoed s.tree x) (hoff : ∀ r ∈ output.summary.record.outcomes, r.element ≠ x)
    (hrows : ¬ output.summary.record.AddsRow output.tree x) :
    s.tree.Stays output.tree x := by
  obtain ⟨s₁, s₂, hquiet, hphases, hsummary, hpainted, hvisits⟩ := perform_spec h
  rw [hsummary] at hoff hrows
  have htree : s₁.tree = s.tree := hquiet.tree
  have hs₁ : s₁.tree.Sound := htree ▸ hs
  have helements : ∀ n ∈ g.walk.map Occurrence.element, s₁.tree.isElement n = true := fun n hn => by
    obtain ⟨o, ho, rfl⟩ := List.mem_map.mp hn
    exact htree ▸ hcalls o ho
  have hframed : Framed s₁ s₂ :=
    runGraph_frames hbuiltIn (fun o ho => List.mem_map_of_mem ho) hphases hs₁ helements
  have hx₁ : s₁.tree.Standing x := htree ▸ hx
  have hout : ¬ s₂.Echoed s₁.tree x :=
    fun ⟨o, ho, hc, hu⟩ => hecho ⟨o, hvisits ▸ ho, hc, htree ▸ hu⟩
  have hx₂ := hframed.standing hx₁ hout
  have hrecorded : ∀ r ∈ s₂.record.outcomes, s₂.tree.isElement r.element = true := by
    obtain ⟨xs, hxs, hall⟩ := hframed.elements
    rw [hxs, hquiet.record, hrecord]
    exact hall
  have hpaint : s₂.tree.Stays output.tree x :=
    hpainted ▸ Painting.stays_paint hframed.onward.sound.toCoherent hrecorded hx₂ hoff
  have hchildren : (s₂.tree.node x).children = (s₁.tree.node x).children := by
    refine (hframed.children hx₁ hout).resolve_right fun ⟨row, key, hmissing, hmem⟩ => hrows ?_
    exact ⟨row, key, hmissing, hpaint.children ▸ hmem⟩
  have hphase : s₁.tree.Stays s₂.tree x :=
    ⟨hx₂, hframed.onward.tree.content (hs₁.standing_lt hx₁), hchildren⟩
  exact htree ▸ hphase.trans hpaint

/-- Where there are no calls, nothing is found out and nothing is painted. -/
theorem perform_nil (h : (e.perform set env ⟨[]⟩ : Run φ Output).Yields s output s')
    (hrecord : s.record = .empty) :
    output.summary.record = .empty ∧ output.tree = s.tree := by
  obtain ⟨s₁, s₂, hquiet, hphases, hsummary, hpainted, -⟩ := perform_spec h
  obtain ⟨_, _, hsetup, h₁⟩ := yields_bind.mp hphases
  obtain ⟨_, _, hexecute, hverify⟩ := yields_bind.mp h₁
  obtain ⟨-, rfl⟩ := yields_pure.mp hsetup
  obtain ⟨-, rfl⟩ := yields_pure.mp hexecute
  obtain ⟨-, rfl⟩ := yields_pure.mp hverify
  have hempty : s₂.record = .empty := hquiet.record.trans hrecord
  refine ⟨hsummary.trans hempty, ?_⟩
  rw [hpainted, hempty]
  exact hquiet.tree

omit [Fixture φ] in
/-- What ends well is followed by what always does. -/
theorem ends_bind {α β : Type} {m : Run φ α} {f : α → Run φ β} (hm : ∃ a s', m.Yields s a s')
    (hf : ∀ a s, ∃ b s', (f a).Yields s b s') : ∃ b s', (m >>= f).Yields s b s' := by
  obtain ⟨a, s₁, hm⟩ := hm
  obtain ⟨b, s₂, hf⟩ := hf a s₁
  exact ⟨b, s₂, yields_bind.mpr ⟨a, s₁, hm, hf⟩⟩

/-- Where there are no calls, and listeners accept every event, performing them goes to its end. -/
theorem perform_nil_ends (hbus : env.bus.LeavesTree) (haccepts : env.bus.Accepts) :
    ∃ output s', (e.perform set env ⟨[]⟩ : Run φ Output).Yields s output s' := by
  have htell : ∀ event s, ∃ u s₁, (tell env.bus event : Run φ Unit).Yields s u s₁ := fun _ _ =>
    ⟨(), tell_welcome hbus haccepts⟩
  refine ends_bind ⟨_, _, rfl⟩ fun _ s₁ => ends_bind (htell _ s₁) fun _ _ =>
    ends_bind ⟨(), _, rfl⟩ fun _ _ => ?_
  refine ends_bind ⟨(), _, rfl⟩ fun _ _ => ?_
  refine ends_bind ⟨_, _, rfl⟩ fun _ _ => ends_bind ⟨_, _, rfl⟩ fun _ s₂ =>
    ends_bind (htell _ s₂) fun _ _ => ?_
  exact ends_bind ⟨_, _, rfl⟩ fun _ _ => ⟨_, _, rfl⟩

/-- **Inert markup is left alone.** Take a document with a head, in which all calls are of built-in
commands, and listeners that leave the document as it is. When its run has ended well, whatever
stood in the document as it was read stands there yet with the same content and the same children,
its head apart, and what is a target of an `echo` or lies in one, what an outcome was recorded at,
and what rows were added to. If nothing in the document carries a command, then nothing was found
out, and the document differs by new entries at the end of its head only; and such a run ends well
if no listener objects. -/
theorem inert_markup_stays {nested : Nested} {context : Context} {fixture : φ} {html : String}
    {resource : Resource} {world : World} {head : NodeId} (hhead : (Tree.read html).IsHead head)
    (hlisteners : Bus.LeavesTree set.listeners)
    (hbuiltIn : ∀ g, CallGraph.ofTree (Tree.read html) set.registry = .ok g →
      ∀ o ∈ g.walk, o.command.isBuiltIn = true) :
    (∀ output s',
      (e.pipeline set (e.surroundings set nested context fixture resource)).Yields
        (start fixture html world) output s' →
      ∀ x, (Tree.read html).Standing x → x ≠ head → ¬ s'.Echoed (Tree.read html) x →
        (∀ r ∈ output.summary.record.outcomes, r.element ≠ x) →
        ¬ output.summary.record.AddsRow output.tree x →
        (Tree.read html).Stays output.tree x) ∧
    ((∀ x, (Tree.read html).Standing x →
      CallGraph.commandOf (Tree.read html) set.registry x = .ok none) →
      (∀ output s',
        (e.pipeline set (e.surroundings set nested context fixture resource)).Yields
          (start fixture html world) output s' →
        output.summary.record = .empty ∧ output.summary.isSuccess = true ∧
        (Tree.read html).Extended output.tree head) ∧
      (Bus.Accepts set.listeners → ∃ output s',
        (e.pipeline set (e.surroundings set nested context fixture resource)).Yields
          (start fixture html world) output s')) := by
  have hread := parsed_read html
  have ht := hread.sound
  obtain ⟨root, hroot, -⟩ := id hhead
  obtain ⟨t, hinstalled, hdressed⟩ :=
    installHead_dressed ht.toCoherent hroot e.config.embedDefaultCss resource set.head
  have hsame : CallGraph.ofTree t set.registry = CallGraph.ofTree (Tree.read html) set.registry :=
    CallGraph.ofTree_dressed hdressed ht.toCoherent hread.unmarked hroot
  -- whenever the run ends well, it has performed the calls of the completed document
  have hread :
      ∀ {output s'}, (e.pipeline set (e.surroundings set nested context fixture resource)).Yields
      (start fixture html world) output s' → ∃ s g, s.tree = t ∧ t.Sound ∧ s.record = .empty ∧
        CallGraph.ofTree t set.registry = .ok g ∧
        (e.perform set (e.surroundings set nested context fixture resource) g).Yields s output s' :=
          fun hrun => by
    obtain ⟨s, g, hprepare, hgraph, hperform⟩ := pipeline_spec hrun
    obtain ⟨hinstall, hrecord⟩ := prepare_spec hlisteners hprepare
    have htree : s.tree = t := Except.ok.inj (hinstall.symm.trans hinstalled)
    exact ⟨s, g, htree, htree ▸ prepare_sound hprepare ht, hrecord, htree ▸ hgraph, hperform⟩
  refine ⟨fun output s' hrun x hx hne hecho hoff hrows => ?_, fun hbare => ?_⟩
  · obtain ⟨s, g, htree, hsound, hrecord, hgraph, hperform⟩ := hread hrun
    subst htree
    have hfirst := hdressed.stays ht.toCoherent hhead hx hne
    refine hfirst.trans
      (perform_stays hperform hsound hrecord (hbuiltIn g (hsame.symm.trans hgraph))
      (fun o ho => CallGraph.isElement_ofTree hgraph ho) hfirst.standing
        (fun ⟨o, ho, hc, hu⟩ => ?_) hoff hrows)
    exact hecho ⟨o, ho, hc, hdressed.onward.under ht.toCoherent hsound.toCoherent
      (ht.standing_lt hx) hu⟩
  · have hnone : CallGraph.ofTree t set.registry = .ok ⟨[]⟩ :=
      hsame.trans (CallGraph.ofTree_commandless ht.toCoherent hroot hbare)
    refine ⟨fun output s' hrun => ?_, fun haccepts => ?_⟩
    · obtain ⟨s, g, htree, -, hrecord, hgraph, hperform⟩ := hread hrun
      cases hgraph.symm.trans hnone
      obtain ⟨hempty, hplain⟩ := perform_nil hperform hrecord
      refine ⟨hempty, ?_, hplain ▸ htree ▸ hdressed.extended ht.toCoherent hhead⟩
      unfold Summary.isSuccess Summary.hasFailures Summary.hasExceptions
      rw [hempty]
      rfl
    · obtain ⟨s₁, htell⟩ : ∃ s₁, (tell set.listeners (.documentParsed resource.path)).Yields
        (start fixture html world) () s₁ :=
        tell_welcome hlisteners haccepts
      have htree : s₁.tree = Tree.read html := tell_leaving hlisteners htell
      have hprepare : (e.prepare set (e.surroundings set nested context fixture resource)).Yields
          (start fixture html world)
          () { s₁ with tree := t } :=
        yields_bind.mpr ⟨(), s₁, htell, yields_attempt.mpr ⟨t, htree ▸ hinstalled, rfl⟩⟩
      unfold Yields
      rw [result_pipeline hprepare hnone]
      exact perform_nil_ends hlisteners haccepts

end Engine

namespace Sample

/-- An engine with a style sheet of its own, whose parsed documents and assertions a spy hears of.
-/
def watched : Engine StockFixture where
  config := Config.standard
  extensions :=
    [⟨"watched", [.listeners [(.parsing, patient), (.assertion, patient)],
      .embeddedCss "@import a"]⟩]
  runners := []

/-- A document with a paragraph between an `echo` and an assertion that does not hold. -/
def echoing : String :=
  "<html xmlns:c=\"" ++ builtInNamespace ++
    "\"><head></head><body><i c:echo=\"x\">0</i><p>a<b>b</b></p>"
    ++ "<u c:assertEquals=\"x\">2</u></body></html>"

/-- A document without commands. -/
def uncommanded : String := "<html><head><title>a</title></head><body><p>b</p></body></html>"

/-- The run of a document. -/
def watchedRun (set : ExtensionSet) (html : String) : Except Error Output × RunState StockFixture :=
  (watched.pipeline set (watched.surroundings set nobody .outermost one ⟨["inert"]⟩)).result
    (Engine.start one html .empty)

/-- Says of a run whether it ended well with these outcomes, and no element but one was the target
of an `echo`. -/
def endsWith (outcomes : List Recorded) (target : NodeId) :
    Except Error Output × RunState StockFixture → Bool
  | (.error _, _) => false
  | (.ok output, s) =>
    output.summary.record.outcomes == outcomes && s.visits.all fun v =>
      v.2.command != .echo || v.2.element == target

theorem of_endsWith {outcomes : List Recorded} {target : NodeId}
    {run : Except Error Output × RunState StockFixture} (h : endsWith outcomes target run = true) :
    ∃ output s, run = (.ok output, s) ∧ output.summary.record.outcomes = outcomes ∧
      ∀ v ∈ s.visits, v.2.command = .echo → v.2.element = target := by
  obtain ⟨cause | output, s⟩ := run
  · cases h
  · obtain ⟨houtcomes, hvisits⟩ := Bool.and_eq_true_iff.mp h
    refine ⟨output, s, rfl, beq_iff_eq.mp houtcomes, fun v hv hecho => ?_⟩
    simpa [hecho] using List.all_eq_true.mp hvisits v hv

/-- Says whether listeners leave the document as it is, whether both documents have calls of
built-in commands only, and the second one none, and how the runs of both end. -/
def isWatched (set : ExtensionSet) : Bool :=
  (set.listeners.all fun entry => decide entry.2.LeavesTree) &&
  ([echoing, uncommanded].all fun html =>
    (CallGraph.ofTree (Tree.read html) set.registry).toOption.all fun g => g.walk.all fun o =>
      o.command.isBuiltIn) &&
  ((List.range (Tree.read uncommanded).nodes.size).all fun x =>
    (CallGraph.commandOf (Tree.read uncommanded) set.registry x).map Option.isNone == .ok true) &&
  endsWith [⟨10, .failure "2" "1"⟩] 4 (watchedRun set echoing) && endsWith [] 0
    (watchedRun set uncommanded)

theorem of_isWatched {set : ExtensionSet} (h : isWatched set = true) :
    Bus.LeavesTree set.listeners ∧
    (∀ html ∈ [echoing, uncommanded], ∀ g, CallGraph.ofTree (Tree.read html) set.registry = .ok g →
      ∀ o ∈ g.walk, o.command.isBuiltIn = true) ∧
    (∀ x, (Tree.read uncommanded).Standing x →
      CallGraph.commandOf (Tree.read uncommanded) set.registry x = .ok none) ∧
    endsWith [⟨10, .failure "2" "1"⟩] 4 (watchedRun set echoing) = true ∧
    endsWith [] 0 (watchedRun set uncommanded) = true := by
  unfold isWatched at h
  simp only [Bool.and_eq_true] at h
  obtain ⟨⟨⟨⟨hlisteners, hbuiltIn⟩, hcommandless⟩, hechoing⟩, huncommanded⟩ := h
  refine ⟨fun l hl => of_decide_eq_true (List.all_eq_true.mp hlisteners _ hl),
    fun html hhtml g hgraph o ho => ?_,
    fun x hx => ?_, hechoing, huncommanded⟩
  · have hcalls := List.all_eq_true.mp hbuiltIn html hhtml
    rw [hgraph] at hcalls
    exact List.all_eq_true.mp hcalls o ho
  · have hnone :=
      List.all_eq_true.mp hcommandless x (List.mem_range.mpr ((parsed_read _).sound.standing_lt hx))
    rcases hcommand : CallGraph.commandOf (Tree.read uncommanded) set.registry x with cause | found?
    · rw [hcommand] at hnone
      cases hnone
    · rw [hcommand] at hnone
      cases found? with
      | none => rfl
      | some found => cases hnone

/-- What is read of the document with the paragraph: its head, the paragraph, and the target of the
`echo`. -/
theorem read_echoing :
    (Tree.read echoing).root = .ok 1 ∧
    ((Tree.read echoing).elementsOf 1).find? (fun c => (Tree.read echoing).isNamed c "head") =
      some 2 ∧
    6 < (Tree.read echoing).nodes.size ∧ (Tree.read echoing).isLive 6 = true ∧
    (Tree.read echoing).isNamed 6 "p" = true ∧ ((Tree.read echoing).node 4).children = [5] ∧
    ((Tree.read echoing).node 5).children = [] := by decide +kernel

/-- The paragraph does not lie in the target of the `echo`. -/
theorem not_under_target : ¬ (Tree.read echoing).Under 4 6 := fun h => by
  obtain ⟨-, -, -, -, -, htarget, htext⟩ := read_echoing
  rcases h.eq_or_below with h | ⟨c, hc, h⟩
  · cases h
  · rw [htarget, List.mem_singleton] at hc
    subst hc
    rcases h.eq_or_below with h | ⟨c, hc, -⟩
    · cases h
    · rw [htext] at hc
      cases hc

end Sample

/-- The paragraph stays, with all its children, beside an `echo` and a failure; and where nothing
carries a command, the document gets its style sheets at the end of its head, and nothing else. -/
theorem Engine.inert_markup_stays_paragraph :
    ∃ set, ExtensionSet.of Sample.watched.extensions = .ok set ∧
    (∃ output s', Sample.watchedRun set Sample.echoing = (.ok output, s') ∧
      output.summary.record.outcomes = [⟨10, .failure "2" "1"⟩] ∧
      (Tree.read Sample.echoing).isNamed 6 "p" = true ∧
      (Tree.read Sample.echoing).Stays output.tree 6) ∧
    ∃ output s', Sample.watchedRun set Sample.uncommanded = (.ok output, s') ∧
      output.summary.isSuccess = true ∧
      (Tree.read Sample.uncommanded).Extended output.tree 2 := by
  have hset : (ExtensionSet.of Sample.watched.extensions).isOk = true := by decide +kernel
  have hfacts : (ExtensionSet.of Sample.watched.extensions).toOption.all Sample.isWatched =
      true := by decide +kernel
  obtain ⟨set, hset⟩ := Except.exists_of_isOk hset
  rw [hset] at hfacts
  obtain ⟨hlisteners, hbuiltIn, hcommandless, hechoing, huncommanded⟩ := Sample.of_isWatched hfacts
  refine ⟨set, hset, ?_, ?_⟩
  · obtain ⟨output, s', hrun, houtcomes, hvisits⟩ := Sample.of_endsWith hechoing
    obtain ⟨hroot, hfirst, hlt, hlive, hnamed, -, -⟩ := Sample.read_echoing
    have hhead : (Tree.read Sample.echoing).IsHead 2 := ⟨1, hroot, hfirst⟩
    have hx : (Tree.read Sample.echoing).Standing 6 :=
      ((parsed_read _).sound.isLive_iff hlt).mp hlive
    refine ⟨output, s', hrun, houtcomes, hnamed, ?_⟩
    refine (inert_markup_stays hhead hlisteners (hbuiltIn _ (by simp))).1 output s' hrun 6 hx
      (by decide) ?_ ?_ ?_
    · rintro ⟨o, ho, hecho, hu⟩
      rw [show o.element = 4 from hvisits _ ho hecho] at hu
      exact Sample.not_under_target hu
    · simp [houtcomes]
    · rintro ⟨row, key, hrow, -⟩
      simp [houtcomes] at hrow
  · obtain ⟨output, s', hrun, -, -⟩ := Sample.of_endsWith huncommanded
    have hhead : (Tree.read Sample.uncommanded).IsHead 2 :=
      ⟨1, by decide +kernel, by decide +kernel⟩
    obtain ⟨-, hsuccess, hextended⟩ :=
      ((inert_markup_stays hhead hlisteners (hbuiltIn _ (by simp))).2 hcommandless).1 output s' hrun
    exact ⟨output, s', hrun, hsuccess, hextended⟩

end LiveSpec
