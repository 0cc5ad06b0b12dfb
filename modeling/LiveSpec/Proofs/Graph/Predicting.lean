import LiveSpec.Proofs.Graph.Structure
import LiveSpec.Proofs.Listening.Announcing
import LiveSpec.Proofs.Run.Dressing

/-!
# A check tells what a run will do

A check builds the call graph of a document as it was read. A run completes the head first. What
comes into the head has no names with marks, so none of it carries a command (`commandOf_bland`);
and what an element that carries a command is asked for, its names, its attributes, the namespaces
in scope and the text of an element that is a command itself, is the same before and after
(`commandOf_dressed`). So both build the same graph, with the same numbers at the same elements, or
are refused for the same reason (`ofTree_dressed`).
-/

namespace LiveSpec

open Markup (NodeId Tree TreeError Content Attributes splitName)
open Markup.Tree

namespace Markup.Tree

variable {t s : Tree} {n : NodeId} {name v : String}

/-- A name that stood for something does so yet. -/
theorem Dressed.declared_iff (h : t.Dressed s) (ht : t.Coherent) (hn : t.Standing n) :
    s.Declared name n v ↔ t.Declared name n v := by
  have hattribute :
      ∀ {m}, m < t.nodes.size → s.attribute? m name = t.attribute? m name := fun hm => by
    unfold attribute? attributes
    rw [h.content hm]
  constructor
  · intro hs
    induction hs with
    | @here m v hv => exact .here (hattribute (ht.standing_lt hn) ▸ hv)
    | @above m p v hnone hm _ ih =>
      rcases hn.isTop_or_listed with htop | ⟨q, hq, hmq⟩
      · exact absurd hm (h.coherent.top_not_listed (h.isTop htop))
      · cases h.coherent.parent_unique hm (h.subset q hmq)
        exact .above (hattribute (ht.standing_lt hn) ▸ hnone) hmq (ih hq)
  · intro hd
    induction hd with
    | @here m v hv => exact .here (hattribute (ht.standing_lt hn) ▸ hv)
    | @above m p v hnone hm _ ih =>
      have hp : t.Standing p := by
        rcases hn.isTop_or_listed with htop | ⟨q, hq, hmq⟩
        · exact absurd hm (ht.top_not_listed htop)
        · exact ht.parent_unique hm hmq ▸ hq
      exact .above (hattribute (ht.standing_lt hn) ▸ hnone) (h.subset p hm) (ih hp)

theorem Dressed.namespace?_eq (h : t.Dressed s) (ht : t.Coherent) (hn : t.Standing n)
    (mark : String) :
    s.namespace? n mark = t.namespace? n mark := by
  ext v
  rw [h.coherent.namespace?_iff (h.standing hn), ht.namespace?_iff hn]
  exact h.declared_iff ht hn

/-- Neither the head nor the place where it is missing lies below a name with a mark. -/
def Unmarked (t : Tree) : Prop :=
  ∀ x, t.Headless x ∨ t.IsHead x → ∀ y, t.Under y x → (splitName (t.name y)).1 = none

/-- The text below a name with a mark is what it was. -/
theorem Dressed.text_eq (h : t.Dressed s) (ht : t.Coherent) (hplain : t.Unmarked)
    (hn : t.Standing n) (hmark : (splitName (t.name n)).1 ≠ none) : s.text n = t.text n := by
  refine ht.text_eq h.size_le hn ⟨fun {x} hx => ?_,
    fun {x} hx => h.content (ht.standing_lt (hn.under hx))⟩
  obtain ⟨before, after, heq, hbefore, hafter⟩ := h.children (ht.standing_lt (hn.under hx))
  have hnobefore : before = [] := List.eq_nil_iff_forall_not_mem.mpr fun m hm =>
    hmark (hplain x (.inl (hbefore m hm).2) n hx)
  have hnoafter : after = [] := List.eq_nil_iff_forall_not_mem.mpr fun m hm =>
    hmark (hplain x (.inr (hafter m hm).2) n hx)
  rw [heq, hnobefore, hnoafter, List.nil_append, List.append_nil]

/-- The old elements below an old node are the same. -/
theorem Dressed.filter_elementsOf (h : t.Dressed s) (ht : t.Coherent) (hn : n < t.nodes.size) :
    (s.elementsOf n).filter (fun c => decide (c < t.nodes.size)) = t.elementsOf n := by
  obtain ⟨before, after, heq, hbefore, hafter⟩ := h.children hn
  have hnew : ∀ cs : List NodeId, (∀ m ∈ cs, t.nodes.size ≤ m) →
      (cs.filter s.isElement).filter (fun c => decide (c < t.nodes.size)) = [] := fun cs hcs =>
    List.filter_eq_nil_iff.mpr fun m hm => by simpa using hcs m (List.mem_of_mem_filter hm)
  have hold : ((t.node n).children.filter s.isElement).filter (fun c => decide (c < t.nodes.size)) =
      t.elementsOf n := by
    rw [List.filter_filter]
    refine List.filter_congr fun c hc => ?_
    simp [h.isElement (ht.child_lt hc), ht.child_lt hc]
  unfold elementsOf at hold ⊢
  rw [heq]
  simp only [List.filter_append]
  rw [hnew before fun m hm => (hbefore m hm).1, hnew after fun m hm => (hafter m hm).1, hold,
    List.nil_append,
    List.append_nil]

end Markup.Tree

namespace CallGraph

variable {t s : Tree} {r : Registry} {n root : NodeId} {name : String} {d fuel next : Nat}

/-! ## One element -/

theorem resolve_unmarked (h : (splitName name).1 = none) : resolve s r n name = .ok none := by
  unfold resolve
  split
  · rfl
  · next hsplit =>
    rw [hsplit] at h
    cases h

theorem ofAttributes_unmarked {as : Attributes} (h : ∀ a ∈ as, (splitName a.1).1 = none) :
    ofAttributes s r n as = .ok [] := by
  induction as with
  | nil => rfl
  | cons a as ih =>
    obtain ⟨name, value⟩ := a
    unfold ofAttributes
    rw [resolve_unmarked (h (name, value) List.mem_cons_self),
      ih fun b hb => h b (List.mem_cons_of_mem _ hb)]
    rfl

/-- What has no marks carries no command. -/
theorem commandOf_bland (h : (s.node n).content.Bland) : commandOf s r n = .ok none := by
  have hname : (splitName (s.name n)).1 = none := by
    unfold Tree.name
    split
    · next hcontent => exact (hcontent ▸ h : Content.Bland (.element _ _)).1
    · rfl
  have hattributes : ∀ a ∈ s.attributes n, (splitName a.1).1 = none := by
    unfold Tree.attributes
    split
    · next hcontent => exact (hcontent ▸ h : Content.Bland (.element _ _)).2
    · nofun
  unfold commandOf ofName
  rw [resolve_unmarked hname, ofAttributes_unmarked hattributes]
  rfl

/-- **An element that was there carries the same command**, or none, or has the same fault. -/
theorem commandOf_dressed (h : t.Dressed s) (ht : t.Coherent) (hplain : t.Unmarked)
    (hn : t.Standing n) :
    commandOf s r n = commandOf t r n := by
  have hlt := ht.standing_lt hn
  have hresolve : ∀ name, resolve s r n name = resolve t r n name := fun name => by
    unfold resolve
    simp only [h.namespace?_eq ht hn]
  have hattributes : s.attributes n = t.attributes n := by
    unfold Tree.attributes
    rw [h.content hlt]
  have hof : ∀ as, ofAttributes s r n as = ofAttributes t r n as := fun as => by
    induction as with
    | nil => rfl
    | cons a as ih =>
      unfold ofAttributes
      rw [hresolve, ih]
  have hname : ofName s r n = ofName t r n := by
    by_cases hmark : (splitName (t.name n)).1 = none
    · unfold ofName
      rw [h.name hlt, resolve_unmarked hmark, resolve_unmarked hmark]
      rfl
    · unfold ofName Tree.attribute?
      rw [h.name hlt, hresolve, hattributes, h.text_eq ht hplain hn hmark]
  unfold commandOf Tree.describe
  rw [hname, hattributes, hof, h.name hlt]

/-! ## The passage -/

theorem collectAll_skip {ns : List NodeId} (h : collect s r fuel n next = .ok ([], next)) :
    collectAll s r fuel (n :: ns) next = collectAll s r fuel ns next := by
  rw [collectAll, h]
  show (collectAll s r fuel ns next).bind (fun rest => .ok ([] ++ rest.1, rest.2)) = _
  cases collectAll s r fuel ns next <;> rfl

theorem collectAll_none {ns : List NodeId}
    (h : ∀ n ∈ ns, collect s r fuel n next = .ok ([], next)) :
    collectAll s r fuel ns next = .ok ([], next) := by
  induction ns with
  | nil => rfl
  | cons n ns ih =>
    exact (collectAll_skip (h n List.mem_cons_self)).trans
      (ih fun m hm => h m (List.mem_cons_of_mem _ hm))

/-- A document in which nothing carries a command makes no calls. -/
theorem ofTree_commandless (ht : t.Coherent) (hroot : t.root = .ok root)
    (h : ∀ n, t.Standing n → commandOf t r n = .ok none) : ofTree t r = .ok ⟨[]⟩ := by
  have hnone : ∀ fuel n, t.Standing n → collect t r fuel n 0 = .ok ([], 0) := fun fuel => by
    induction fuel with
    | zero => exact fun _ _ => rfl
    | succ fuel ih =>
      intro n hn
      rw [collect_succ (ht.isLive_of_standing hn), h n hn]
      exact collectAll_none fun m hm => ih m (hn.child (Tree.mem_elementsOf.mp hm).1)
  unfold ofTree
  rw [hroot]
  simp only [Except.mapError, bind, Except.bind, hnone _ root (ht.depth_root hroot).standing, pure,
    Except.pure]

/-- What came in makes no calls. -/
theorem collect_fresh (h : t.Dressed s) (hn : t.nodes.size ≤ n) (hs : s.Standing n) (next : Nat) :
    collect s r fuel n next = .ok ([], next) := by
  induction fuel generalizing n with
  | zero => rfl
  | succ fuel ih =>
    rw [collect_succ (h.coherent.isLive_of_standing hs), commandOf_bland (h.bland hn)]
    refine collectAll_none fun m hm => ?_
    have hchild := (Tree.mem_elementsOf.mp hm).1
    exact ih (h.inside hn m hchild) (hs.child hchild)

/-- The passage over the elements of a completed document makes of them what it made of those that
were there. -/
theorem collectAll_dressed (h : t.Dressed s) (ht : t.Coherent) (hplain : t.Unmarked)
    {ns ms : List NodeId} {fuel' : Nat} (hold : ms.filter (fun m => decide (m < t.nodes.size)) = ns)
    (hstanding : ∀ m ∈ ms, s.Standing m) (hdepth : ∀ n ∈ ns, t.Depth n d)
    (hf : t.nodes.size ≤ d + fuel) (hf' : s.nodes.size ≤ d + fuel') (next : Nat) :
    collectAll s r fuel' ms next = collectAll t r fuel ns next := by
  induction fuel generalizing ns ms d fuel' next with
  | zero =>
    have hnone : ns = [] := List.eq_nil_iff_forall_not_mem.mpr fun n hn => by
      have := ht.depth_lt (hdepth n hn)
      omega
    rw [hnone] at hold ⊢
    refine collectAll_none fun m hm => collect_fresh h ?_ (hstanding m hm) next
    simpa using List.filter_eq_nil_iff.mp hold m hm
  | succ fuel ih =>
    induction ms generalizing ns next with
    | nil => exact hold ▸ rfl
    | cons m ms ihms =>
      have hms : ∀ k ∈ ms, s.Standing k := fun k hk => hstanding k (List.mem_cons_of_mem _ hk)
      by_cases hm : m < t.nodes.size
      · rw [List.filter_cons_of_pos (by simpa using hm)] at hold
        subst hold
        have hn := hdepth m List.mem_cons_self
        have hrest := fun next => ihms rfl hms
          (fun k hk => hdepth k (List.mem_cons_of_mem _ hk)) next
        have hlt := h.coherent.depth_lt (h.depth hn)
        obtain ⟨fuel', rfl⟩ : ∃ k, fuel' = k + 1 := ⟨fuel' - 1, by omega⟩
        have hbelow : ∀ next, collectAll s r fuel' (s.elementsOf m) next = collectAll t r fuel
            (t.elementsOf m) next :=
          fun next => ih (d := d + 1) (h.filter_elementsOf ht hm)
            (fun k hk => (h.standing hn.standing).child (Tree.mem_elementsOf.mp hk).1)
            (fun k hk => .child hn (Tree.mem_elementsOf.mp hk).1) (by omega) (by omega) next
        unfold collectAll
        rw [collect_succ (h.coherent.isLive_of_standing (h.standing hn.standing)),
          collect_succ (ht.isLive_of_standing hn.standing),
          commandOf_dressed h ht hplain hn.standing]
        simp only [hbelow, hrest]
      · rw [List.filter_cons_of_neg (by simpa using hm)] at hold
        exact (collectAll_skip (collect_fresh h (Nat.not_lt.mp hm) (hstanding m List.mem_cons_self)
          next)).trans
          (ihms hold hms hdepth next)

/-- **Completing the head changes nothing in the call graph.** -/
theorem ofTree_dressed (h : t.Dressed s) (ht : t.Coherent) (hplain : t.Unmarked)
    (hroot : t.root = .ok root) :
    ofTree s r = ofTree t r := by
  have hdepth := ht.depth_root hroot
  have hstanding := hdepth.standing
  have hlt := ht.standing_lt hstanding
  have hall : collectAll s r (s.nodes.size + 1) [root] 0 = collectAll t r
      (t.nodes.size + 1) [root] 0 :=
    collectAll_dressed (d := 1) h ht hplain (by simp [hlt])
      (fun m hm => List.mem_singleton.mp hm ▸ h.standing hstanding)
        (fun n hn => List.mem_singleton.mp hn ▸ hdepth)
      (by omega) (by omega) 0
  rw [collectAll_singleton, collectAll_singleton] at hall
  unfold ofTree
  rw [hroot, h.root ht hroot]
  simp only [Except.mapError, bind, Except.bind, hall]

end CallGraph

/-! ## Documents that were read -/

namespace Markup.Tree

/-- Above the outermost element of a document that was read there are no marks, and neither are at
it. -/
theorem Parsed.unmarked_root {t : Tree} (ht : t.Parsed) {root y : NodeId}
    (hroot : t.root = .ok root) (hy : t.Under y root) : (splitName (t.name y)).1 = none := by
  by_cases hname : t.name y = ""
  · rw [hname]
    cbv
  · rw [CallGraph.root_topmost ht.coherent hroot hy (isElement_of_name rfl hname),
      (ht.fronted hroot).1]
    cbv

/-- What was read has no marks where a head is or is missing. -/
theorem Parsed.unmarked {t : Tree} (ht : t.Parsed) : t.Unmarked := by
  rintro x (⟨hroot, -⟩ | ⟨root, hroot, hhead⟩) y hy
  · exact ht.unmarked_root hroot hy
  · have hmem := (mem_elementsOf.mp (List.mem_of_find?_eq_some hhead)).1
    cases hy with
    | self =>
      have hfirst : t.firstChild? root "head" = .ok (some x) := by
        unfold firstChild?
        rw [childElements_of_isLive (ht.sound.isLive_of_standing
          (ht.coherent.depth_root hroot).standing)]
        exact congrArg Except.ok hhead
      rw [(ht.fronted hroot).2 x hfirst]
      cbv
    | child hp hx =>
      cases ht.coherent.parent_unique hmem hx
      exact ht.unmarked_root hroot hp

end Markup.Tree

/-! ## The run of a document that was checked -/

namespace Run

variable {φ : Type} {s : RunState φ} {bus : Bus} {e : Event}

/-- To tell what nobody listens to comes to nothing. -/
theorem tell_unheard (h : ∀ l, (e.channel, l) ∉ bus) : (tell bus e).Yields s () s := by
  have hnone : bus.on e.channel = [] :=
    List.eq_nil_iff_forall_not_mem.mpr fun listener hl => h listener.2 (Bus.mem_of_mem_on hl)
  unfold tell
  rw [hnone]
  rfl

end Run

namespace Engine

open Run

variable {φ : Type} [Fixture φ] {e : Engine φ} {set : ExtensionSet} {env : Surroundings}
  {s : RunState φ} {t : Tree} {root : NodeId} {nested : Nested} {context : Context} {fixture : φ}
  {html : String} {resource : Resource} {world : World}

variable (e set) in
omit [Fixture φ] in
/-- Where nobody listens to parsing, a document with an outermost element is prepared by completing
its head. -/
theorem prepare_dressed (hbus : ∀ l, (Channel.parsing, l) ∉ env.bus) (ht : s.tree.Coherent)
    (hroot : s.tree.root = .ok root) :
    ∃ t, s.tree.Dressed t ∧ (e.prepare set env : Run φ Unit).Yields s () { s with tree := t } := by
  obtain ⟨t, hinstall, hdressed⟩ :=
    installHead_dressed ht hroot e.config.embedDefaultCss env.resource set.head
  exact ⟨t, hdressed, yields_bind.mpr ⟨(), s, tell_unheard hbus,
    yields_attempt.mpr ⟨t, hinstall, rfl⟩⟩⟩

/-- A run whose calls cannot be collected ends there. -/
theorem result_pipeline_refused {cause : Error} {s' : RunState φ}
    (hprepare : (e.prepare set env).Yields s () s')
    (hgraph : CallGraph.ofTree s'.tree set.registry = .error cause) :
    (e.pipeline set env).result s = (.error cause, s') := by
  rw [pipeline_eq, result_bind_of hprepare, result_bind_of (yields_get.mpr ⟨rfl, rfl⟩), hgraph]
  rfl

/-- A run over a document without outermost element ends before its calls are collected. -/
theorem result_pipeline_rootless {cause : TreeError} (hbus : ∀ l, (Channel.parsing, l) ∉ env.bus)
    (ht : s.tree.Coherent) (hroot : s.tree.root = .error cause) :
    (e.pipeline set env).result s = (.error (.element cause), s) := by
  have htell : (tell env.bus (.documentParsed env.resource.path)).result s = (.ok (), s) :=
    tell_unheard hbus
  have hattempt : (attempt (installHead e.config.embedDefaultCss env.resource set.head)).result s =
      (.error (.element cause), s) := by
    unfold attempt
    rw [result_bind, result_find, installHead_rootless ht hroot]
  unfold pipeline
  rw [result_bind, htell]
  dsimp only
  rw [result_bind, hattempt]

variable (e set) in
/-- A run over a document that was read builds its graph from a tree with a completed head, and the
graph is that of the document as it was read; or neither has a graph, for the same reason, and the
run ends with that. -/
theorem result_pipeline_read (hbus : ∀ l, (Channel.parsing, l) ∉ env.bus)
    (hs : s.tree = Tree.read html) :
    (∃ g t, CallGraph.ofTree (Tree.read html) set.registry = .ok g ∧
      CallGraph.ofTree t set.registry = .ok g ∧
      (Tree.read html).Dressed t ∧ (e.prepare set env).Yields s () { s with tree := t } ∧
      (e.pipeline set env).result s = (e.perform set env g).result { s with tree := t }) ∨
    ∃ cause t, CallGraph.ofTree (Tree.read html) set.registry = .error cause ∧
      (e.pipeline set env).result s = (.error cause, { s with tree := t }) := by
  have hread := parsed_read html
  have ht : s.tree.Coherent := hs ▸ hread.coherent
  cases hroot : (Tree.read html).root with
  | error cause =>
    refine .inr ⟨.element cause, s.tree, ?_, result_pipeline_rootless hbus ht (hs ▸ hroot)⟩
    unfold CallGraph.ofTree
    rw [hroot]
    rfl
  | ok root =>
    obtain ⟨t, hdressed, hprepare⟩ := prepare_dressed e set hbus ht (hs ▸ hroot)
    rw [hs] at hdressed
    have hsame : CallGraph.ofTree t set.registry = CallGraph.ofTree (Tree.read html) set.registry :=
      CallGraph.ofTree_dressed hdressed hread.coherent hread.unmarked hroot
    cases hgraph : CallGraph.ofTree (Tree.read html) set.registry with
    | ok g => exact .inl ⟨g, t, rfl, hsame.trans hgraph, hdressed, hprepare,
      result_pipeline hprepare (hsame.trans hgraph)⟩
    | error cause =>
      exact .inr ⟨cause, t, rfl, result_pipeline_refused hprepare (hsame.trans hgraph)⟩

/-- **A check tells what a run will do.** Take any engine without listeners of parsing, any
document, and any fixture that brings no extensions. If the check gives a graph, the run comes,
before any listener has heard of anything, to where it builds its graph, and it is that graph it
hands to the listeners and performs, with the same calls inside one another, the same numbers, keys
and expressions, and the same names of their elements: what the listeners of building hear first is
this graph, together with the document that it performs it on. If the check is refused, so is the
run, for the same reason, and nothing but its own tree has changed by then: no call was visited and
no listener has heard of anything. -/
theorem check_predicts (hfixture : Fixture.extensions fixture = [])
    (hsilent : ∀ set, ExtensionSet.of e.extensions = .ok set →
      ∀ l, (Channel.parsing, l) ∉ set.listeners) :
    (∀ g t, e.check html = .ok (g, t) →
      ∃ set s, ExtensionSet.of (e.extensions ++ Fixture.extensions fixture) = .ok set ∧
      (e.prepare set (e.surroundings set nested context fixture resource)).Yields
        (start fixture html world) ()
        { start fixture html world with tree := s } ∧
      CallGraph.ofTree s set.registry = .ok g ∧
      (∀ o ∈ g.walk, s.name o.element = t.name o.element) ∧
      (e.pipeline set (e.surroundings set nested context fixture resource)).result
        (start fixture html world) =
        (e.perform set (e.surroundings set nested context fixture resource) g).result
          { start fixture html world with tree := s } ∧
      Announced set.listeners (.graphBuilt resource.path s g) (start fixture html world)
        ((e.pipeline set (e.surroundings set nested context fixture resource)).result
          (start fixture html world))) ∧
    ∀ cause, e.check html = .error cause →
      e.processUsing nested context fixture html resource world = (.error cause, fixture, world) ∧
      ∀ set, ExtensionSet.of (e.extensions ++ Fixture.extensions fixture) = .ok set → ∃ s,
        (e.pipeline set (e.surroundings set nested context fixture resource)).result
          (start fixture html world) =
          (.error cause, { start fixture html world with tree := s }) := by
  rw [hfixture, List.append_nil]
  cases hset : ExtensionSet.of e.extensions with
  | error refusal =>
    have hcheck : e.check html = .error refusal := by
      unfold check
      rw [hset]
      rfl
    refine ⟨fun g t h => ?_, fun cause h => ⟨?_, nofun⟩⟩
    · rw [hcheck] at h
      cases h
    · cases hcheck.symm.trans h
      rw [processUsing_eq, hfixture, List.append_nil, hset]
  | ok set =>
    have hcheck : e.check html =
        (CallGraph.ofTree (Tree.read html) set.registry).map fun g => (g, Tree.read html) := by
      unfold check
      rw [hset]
      show (CallGraph.ofTree (Tree.read html) set.registry >>= fun g => pure (g,
          Tree.read html)) = _
      cases CallGraph.ofTree (Tree.read html) set.registry <;> rfl
    have hbus : ∀ l, (Channel.parsing, l) ∉
        (e.surroundings set nested context fixture resource).bus := hsilent set hset
    have hstart : (start fixture html world).tree = Tree.read html := rfl
    rcases result_pipeline_read e set hbus hstart with
      ⟨g, s, hread, hgraph, hdressed, hprepare, hresult⟩ | ⟨cause, s, hread, hresult⟩
    · rw [hread] at hcheck
      refine ⟨fun g' t h => ?_, fun cause h => ?_⟩
      · cases hcheck.symm.trans h
        refine ⟨set, s, rfl, hprepare, hgraph, fun o ho => hdressed.name ?_, hresult, ?_⟩
        · exact lt_size_of_isElement (CallGraph.isElement_ofTree hread ho)
        · rw [hresult]
          exact e.perform_announces set _ g { start fixture html world with tree := s }
      · cases hcheck.symm.trans h
    · rw [hread] at hcheck
      refine ⟨fun g t h => ?_, fun cause' h => ?_⟩
      · cases hcheck.symm.trans h
      · cases hcheck.symm.trans h
        refine ⟨?_, fun set' hset' => ⟨s, Except.ok.inj hset' ▸ hresult⟩⟩
        rw [processUsing_eq, hfixture, List.append_nil, hset]
        dsimp only
        rw [hresult]
        rfl

end Engine

namespace Sample

/-- An engine that puts style sheets and a script into the head, and whose built graphs a spy hears
of. -/
def announced : Engine StockFixture where
  config := Config.standard
  extensions :=
    [⟨"announced", [.listeners [(.build, patient)], .embeddedCss "@import a",
      .linkedScript ⟨["a.js"]⟩ "a()"]⟩]
  runners := []

/-- A document with a name that is registered as nothing. -/
def misnamed : String :=
  "<html xmlns:c=\"" ++ builtInNamespace ++ "\"><p c:set=\"#x\">1</p><p c:assert=\"x\">1</p></html>"

theorem announced_unheard (set : ExtensionSet)
    (hset : ExtensionSet.of announced.extensions = .ok set) (l : Listener) :
    (Channel.parsing, l) ∉ set.listeners := fun hl => by
  have hnone : (ExtensionSet.of announced.extensions).toOption.all fun set =>
      set.listeners.all fun entry => entry.1 != .parsing := by decide +kernel
  rw [hset] at hnone
  cases List.all_eq_true.mp hnone _ hl

end Sample

/-- The check of a document with three assertions tells what graph its run performs, though the head
of the document that is run has three more elements; and the check of a document with a wrong name
tells how its run ends. -/
theorem Engine.check_predicts_announced :
    (∃ g t set s, Sample.announced.check Sample.mixed = .ok (g, t) ∧ CallGraph.size g = 3 ∧
      CallGraph.ofTree s set.registry = .ok g ∧
      (∀ o ∈ g.walk, s.name o.element = t.name o.element) ∧
      (Sample.announced.pipeline set (Sample.announced.surroundings set Sample.nobody
        .outermost Sample.one
        ⟨["mixed"]⟩)).result (start Sample.one Sample.mixed .empty) =
        (Sample.announced.perform set (Sample.announced.surroundings set Sample.nobody
          .outermost Sample.one
          ⟨["mixed"]⟩) g).result { start Sample.one Sample.mixed .empty with tree := s } ∧
      Announced set.listeners (.graphBuilt "/mixed" s g) (start Sample.one Sample.mixed .empty)
        ((Sample.announced.pipeline set (Sample.announced.surroundings set Sample.nobody
          .outermost Sample.one
          ⟨["mixed"]⟩)).result (start Sample.one Sample.mixed .empty))) ∧
    Sample.announced.processUsing Sample.nobody .outermost Sample.one Sample.misnamed
      ⟨["misnamed"]⟩ .empty =
      (.error (.unknownCommand builtInNamespace "assert"), Sample.one, .empty) := by
  have hsize : (Sample.announced.check Sample.mixed).toOption.map (fun found => found.1.size) =
      some 3 := by decide +kernel
  have hrefused : (Sample.announced.check Sample.misnamed).map (fun _ => ()) =
      .error (.unknownCommand builtInNamespace "assert") := by decide +kernel
  have hfixture : Fixture.extensions Sample.one = [] := rfl
  constructor
  · rcases hcheck : Sample.announced.check Sample.mixed with cause | ⟨g, t⟩
    · rw [hcheck] at hsize
      cases hsize
    · rw [hcheck] at hsize
      obtain ⟨set, s, -, -, hgraph, hnames, hresult, htold⟩ :=
        (check_predicts hfixture Sample.announced_unheard).1 g t hcheck
      have hpath : Resource.path ⟨["mixed"]⟩ = "/mixed" := by decide
      exact ⟨g, t, set, s, rfl, Option.some.inj hsize, hgraph, hnames, hresult, hpath ▸ htold⟩
  · rcases hcheck : Sample.announced.check Sample.misnamed with cause | found
    · rw [hcheck] at hrefused
      cases Except.error.inj hrefused
      exact ((check_predicts hfixture Sample.announced_unheard).2 _ hcheck).1
    · rw [hcheck] at hrefused
      cases hrefused

end LiveSpec
