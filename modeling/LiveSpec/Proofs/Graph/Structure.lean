import LiveSpec.Proofs.Graph.Naming

/-!
# The calls of a document

The calls are collected in one passage over the document. `Built` says, rule by rule and without
fuel, what the passage makes of a list of branches if it goes through, and `Fails` how it can stop;
in a coherent tree it does one or the other (`collectAll_cases`).

From the rules follow the two results. If a graph is built, it has one call for each reached element
that carries a command, in the order of the document and numbered so, and around each call stands
that of the nearest such element above (`graph_mirrors_document`). It is not built exactly if a
reached element is invalid, and the error is that of the first one (`graph_refused_iff`).
-/

namespace LiveSpec

open Markup (NodeId Tree)

/-! ## Which call stands around which -/

namespace Call

mutual
/-- A call and all calls inside it in the order of the document, each with the call directly around
it. -/
def links (around : Option Occurrence) : Call → List (Option Occurrence × Occurrence)
  | .mk o cs => (around, o) :: linksAll (some o) cs
/-- Calls and all calls inside them in the order of the document, each with the call directly around
it. -/
def linksAll (around : Option Occurrence) : List Call → List (Option Occurrence × Occurrence)
  | [] => []
  | c :: cs => links around c ++ linksAll around cs
end

mutual
/-- The links of a call lead to what it walks. -/
theorem map_snd_links (around : Option Occurrence) :
    (c : Call) → (c.links around).map Prod.snd = c.walk
  | .mk o cs => congrArg (o :: ·) (map_snd_linksAll (some o) cs)
theorem map_snd_linksAll (around : Option Occurrence) : (cs : List Call) →
    (linksAll around cs).map Prod.snd = walkAll cs
  | [] => rfl
  | c :: cs => by rw [linksAll, walkAll, List.map_append, map_snd_links around c,
    map_snd_linksAll around cs]
end

theorem mem_walkAll_of_mem_linksAll {around q? : Option Occurrence} {o : Occurrence}
    {cs : List Call} (h : (q?, o) ∈ linksAll around cs) : o ∈ walkAll cs :=
  map_snd_linksAll around cs ▸ List.mem_map_of_mem h

/-- Links go through a list in order. -/
theorem linksAll_append (around : Option Occurrence) (cs cs' : List Call) :
    linksAll around (cs ++ cs') = linksAll around cs ++ linksAll around cs' := by
  induction cs with
  | nil => rfl
  | cons c cs ih => rw [List.cons_append, linksAll, linksAll, ih, List.append_assoc]

/-- A walk goes through a list in order. -/
theorem walkAll_append (cs cs' : List Call) : walkAll (cs ++ cs') = walkAll cs ++ walkAll cs' := by
  induction cs with
  | nil => rfl
  | cons c cs ih => rw [List.cons_append, walkAll, walkAll, ih, List.append_assoc]

end Call

namespace CallGraph

variable {t : Tree} {r : Registry} {n root a x : NodeId} {ns : List NodeId}
  {next after d fuel : Nat} {calls : List Call} {o : Occurrence} {e : Error}

/-- All calls in the order of the document, each with the call directly around it. -/
def links (g : CallGraph) : List (Option Occurrence × Occurrence) := Call.linksAll none g.roots

/-! ## The passage -/

/-- The calls of several branches, numbered from `next` on, and the number after the last one. -/
def collectAll (t : Tree) (r : Registry) (fuel : Nat) :
    List NodeId → Nat → Except Error (List Call × Nat)
  | [], next => .ok ([], next)
  | n :: ns, next => do
    let (calls, next) ← collect t r fuel n next
    let (rest, next) ← collectAll t r fuel ns next
    return (calls ++ rest, next)

theorem collectAll_singleton : collectAll t r fuel [n] next = collect t r fuel n next := by
  simp only [collectAll, bind, Except.bind, pure, Except.pure, List.append_nil]
  cases collect t r fuel n next <;> rfl

/-- What the passage makes of branches if it goes through. -/
inductive Built (t : Tree) (r : Registry) : List NodeId → Nat → List Call → Nat → Prop
  | nil {next : Nat} : Built t r [] next [] next
  /-- A branch whose topmost element carries no command has the calls of the branches below. -/
  | plain {n : NodeId} {ns : List NodeId} {next mid after : Nat} {calls rest : List Call} :
    commandOf t r n = .ok none → Built t r (t.elementsOf n) next calls mid →
    Built t r ns mid rest after →
    Built t r (n :: ns) next (calls ++ rest) after
  /-- A branch whose topmost element carries a command has one call, with those of the branches
  below inside. -/
  | call {n : NodeId} {ns : List NodeId} {next mid after : Nat} {inside rest : List Call}
    {f : Found} :
    commandOf t r n = .ok (some f) → Built t r (t.elementsOf n) (next + 1) inside mid →
    Built t r ns mid rest after →
    Built t r (n :: ns) next (.mk ⟨next, next, n, f.command, f.key,
      f.expression⟩ inside :: rest) after

/-- How the passage over branches can stop. -/
inductive Fails (t : Tree) (r : Registry) : List NodeId → Error → Prop
  | here {n : NodeId} {ns : List NodeId} {e : Error} :
    commandOf t r n = .error e → Fails t r (n :: ns) e
  | inside {n : NodeId} {ns : List NodeId} {f? : Option Found} {e : Error} :
    commandOf t r n = .ok f? →
    Fails t r (t.elementsOf n) e → Fails t r (n :: ns) e
  | later {n : NodeId} {ns : List NodeId} {f? : Option Found} {next mid : Nat} {calls : List Call}
    {e : Error} :
    commandOf t r n = .ok f? → Built t r (t.elementsOf n) next calls mid → Fails t r ns e →
    Fails t r (n :: ns) e

/-- Collecting from siblings one at a time, with what was collected before, is collecting from them
all. -/
theorem foldlM_collect (acc : List Call) :
    ns.foldlM (fun (calls, next) c => do
      let (more, next) ← collect t r fuel c next
      return (calls ++ more, next)) (acc, next) = (do
      let (calls, next) ← collectAll t r fuel ns next
      return (acc ++ calls, next)) := by
  induction ns generalizing acc next with
  | nil => simp [collectAll, bind, Except.bind, pure, Except.pure]
  | cons n ns ih =>
    rw [List.foldlM_cons, collectAll]
    dsimp only
    cases collect t r fuel n next with
    | error e => rfl
    | ok found =>
      show ns.foldlM _ (acc ++ found.1, found.2) = _
      rw [ih]
      simp only [bind, Except.bind]
      cases collectAll t r fuel ns found.2 with
      | error e => rfl
      | ok rest => simp [pure, Except.pure]

/-! ## What holds of the calls, whatever the tree -/

section Made

variable {P : Nat → Nat → List Call → Prop} (hnil : ∀ next, P next next [])
  (happend : ∀ {next mid after calls rest}, P next mid calls → P mid after rest →
    P next after (calls ++ rest))
  (hcall : ∀ {n next after} {f : Found} {inside}, t.isElement n = true → P (next + 1) after inside →
    P next after [.mk ⟨next, next, n, f.command, f.key, f.expression⟩ inside])
include hnil happend

/-- What holds of each element's calls and joins up holds of a list's. -/
theorem collectAll_makes (hns : ∀ n ∈ ns, t.isElement n = true)
    (hone : ∀ {n next calls after}, t.isElement n = true →
      collect t r fuel n next = .ok (calls, after) →
      P next after calls) (h :
      collectAll t r fuel ns next = .ok (calls, after)) : P next after calls := by
  induction ns generalizing next calls after with
  | nil =>
    cases h
    exact hnil next
  | cons n ns ih =>
    unfold collectAll at h
    cases hn : collect t r fuel n next with
    | error e => simp [hn, bind, Except.bind] at h
    | ok found =>
      cases hrest : collectAll t r fuel ns found.2 with
      | error e => simp [hn, hrest, bind, Except.bind] at h
      | ok rest =>
        simp only [hn, hrest, bind, Except.bind, pure, Except.pure, Except.ok.injEq,
          Prod.mk.injEq] at h
        obtain ⟨rfl, rfl⟩ := h
        exact happend (hone (hns n List.mem_cons_self) hn)
          (ih (fun m hm => hns m (List.mem_cons_of_mem n hm)) hrest)

include hcall

/-- What holds of no calls, of calls after others, and of a call around others, holds of the calls
collected below an element. -/
theorem collect_makes (hn : t.isElement n = true)
    (h : collect t r fuel n next = .ok (calls, after)) :
    P next after calls := by
  induction fuel generalizing n next calls after with
  | zero =>
    cases h
    exact hnil next
  | succ fuel ih =>
    unfold collect at h
    simp only [foldlM_collect, List.nil_append] at h
    cases hcommand : commandOf t r n with
    | error e => simp [hcommand, bind, Except.bind] at h
    | ok f? =>
      cases hchildren : t.childElements n with
      | error e => cases f? <;> simp [hcommand, hchildren, Except.mapError, bind, Except.bind] at h
      | ok children =>
        have helements : ∀ c ∈ children, t.isElement c = true := by
          intro c hc
          obtain ⟨_, -, hread⟩ := Except.bind_eq_ok.mp hchildren
          cases hread
          exact List.of_mem_filter hc
        have hbelow {first after : Nat} {calls : List Call}
            (hcalls : collectAll t r fuel children first = .ok (calls, after)) :
              P first after calls :=
          collectAll_makes hnil happend helements ih hcalls
        cases f? with
        | none =>
          cases hcalls : collectAll t r fuel children next with
          | error e => simp [hcommand, hchildren, hcalls, Except.mapError, bind, Except.bind] at h
          | ok found =>
            simp only [hcommand, hchildren, hcalls, Except.mapError, bind, Except.bind, pure,
              Except.pure,
              Except.ok.injEq, Prod.mk.injEq] at h
            obtain ⟨rfl, rfl⟩ := h
            exact hbelow hcalls
        | some f =>
          cases hcalls : collectAll t r fuel children (next + 1) with
          | error e => simp [hcommand, hchildren, hcalls, Except.mapError, bind, Except.bind] at h
          | ok found =>
            simp only [hcommand, hchildren, hcalls, Except.mapError, bind, Except.bind, pure,
              Except.pure,
              Except.ok.injEq, Prod.mk.injEq] at h
            obtain ⟨rfl, rfl⟩ := h
            exact hcall hn (hbelow hcalls)

/-- The same of all calls of a graph. -/
theorem ofTree_makes {g : CallGraph} (h : ofTree t r = .ok g) : ∃ after, P 0 after g.roots := by
  unfold ofTree at h
  cases hroot : t.root with
  | error e => simp [hroot, Except.mapError, bind, Except.bind] at h
  | ok root =>
    have helement : t.isElement root = true := by
      unfold Tree.root at hroot
      split at hroot
      · next n ns hns =>
        cases hroot
        exact List.of_mem_filter (p := t.isElement) (hns ▸ List.mem_cons_self)
      · cases hroot
    cases hcalls : collect t r (t.nodes.size + 1) root 0 with
    | error e => simp [hroot, hcalls, Except.mapError, bind, Except.bind] at h
    | ok found =>
      simp only [hroot, hcalls, Except.mapError, bind, Except.bind, pure, Except.pure,
        Except.ok.injEq] at h
      subst h
      exact ⟨_, collect_makes hnil happend hcall helement hcalls⟩

end Made

/-- The slots of some calls are the numbers from `next` to the one before `after`. -/
def Slotted (next after : Nat) (calls : List Call) : Prop :=
  (Call.walkAll calls).map Occurrence.slot = List.range' next (Call.walkAll calls).length ∧
    after = next + (Call.walkAll calls).length

/-- Slots are numbered on from one list to the next. -/
theorem Slotted.append {next mid after : Nat} {calls rest : List Call} (h : Slotted next mid calls)
    (h' : Slotted mid after rest) : Slotted next after (calls ++ rest) := by
  obtain ⟨hslots, rfl⟩ := h
  obtain ⟨hslots', rfl⟩ := h'
  unfold Slotted
  rw [Call.walkAll_append, List.map_append, hslots, hslots', List.length_append]
  exact ⟨List.range'_append_1, by omega⟩

/-- **The calls of a graph keep their values in slots numbered in the order of the document.** -/
theorem slots_ofTree {g : CallGraph} (h : ofTree t r = .ok g) :
    g.walk.map Occurrence.slot = List.range g.size := by
  obtain ⟨after, hslots, -⟩ : ∃ after, Slotted 0 after g.roots := by
    refine ofTree_makes (fun next => ⟨rfl, rfl⟩) (fun hcalls hrest => hcalls.append hrest) ?_ h
    rintro n next after f inside - ⟨hslots, rfl⟩
    constructor
    · simp [Call.walkAll, Call.walk, hslots, List.range'_succ]
    · simp only [Call.walkAll, Call.walk, List.append_nil, List.length_cons]
      omega
  exact hslots.trans List.range_eq_range'.symm

/-- The calls of a graph stand at elements. -/
theorem isElement_ofTree {g : CallGraph} (h : ofTree t r = .ok g) (ho : o ∈ g.walk) :
    t.isElement o.element = true := by
  obtain ⟨-, helements⟩ : ∃ _ : Nat, ∀ o ∈ g.walk, t.isElement o.element = true := by
    refine ofTree_makes (P := fun _ _ calls => ∀ o ∈ Call.walkAll calls,
      t.isElement o.element = true)
      (fun _ o ho => by cases ho) (fun hcalls hrest o ho => ?_) (fun hn hinside o ho => ?_) h
    · rw [Call.walkAll_append] at ho
      exact (List.mem_append.mp ho).elim (hcalls o) (hrest o)
    · rcases List.mem_cons.mp (show o ∈ _ :: Call.walkAll _ by simpa [Call.walkAll,
        Call.walk] using ho) with rfl | ho
      · exact hn
      · exact hinside o ho
  exact helements o ho

/-- One level of the passage. -/
theorem collect_succ (hlive : t.isLive n = true) :
    collect t r (fuel + 1) n next = (do
      match ← commandOf t r n with
      | none => collectAll t r fuel (t.elementsOf n) next
      | some f =>
        let (inside, after) ← collectAll t r fuel (t.elementsOf n) (next + 1)
        return ([.mk ⟨next, next, n, f.command, f.key, f.expression⟩ inside], after)) := by
  have hbelow : ∀ first, (do
      let children ← (t.childElements n).mapError Error.element
      children.foldlM (fun (calls, next) c => do
        let (more, next) ← collect t r fuel c next
        return (calls ++ more, next)) ([], first)) = collectAll t r fuel
          (t.elementsOf n) first := fun first => by
    rw [Tree.childElements_of_isLive hlive]
    show (t.elementsOf n).foldlM _ ([], first) = _
    rw [foldlM_collect]
    cases collectAll t r fuel (t.elementsOf n) first <;> rfl
  unfold collect
  refine bind_congr fun f? => ?_
  cases f? with
  | none => exact hbelow next
  | some f => exact congrArg (· >>= _) (hbelow (next + 1))

/-- The passage goes through or it stops, as the rules say, if there are no more levels than fuel.
-/
theorem collectAll_cases (ht : t.Coherent) (hns : ∀ n ∈ ns, t.Depth n d)
    (hf : t.nodes.size ≤ d + fuel) (next : Nat) :
    (∃ calls after, collectAll t r fuel ns next = .ok (calls, after) ∧
      Built t r ns next calls after) ∨
      ∃ e, collectAll t r fuel ns next = .error e ∧ Fails t r ns e := by
  induction fuel generalizing ns d next with
  | zero =>
    cases ns with
    | nil => exact .inl ⟨[], next, rfl, .nil⟩
    | cons n ns => exact absurd (ht.depth_lt (hns n List.mem_cons_self)) (by omega)
  | succ fuel ih =>
    induction ns generalizing next with
    | nil => exact .inl ⟨[], next, rfl, .nil⟩
    | cons n ns ihns =>
      have hn := hns n List.mem_cons_self
      have hdepth : ∀ c ∈ t.elementsOf n, t.Depth c (d + 1) :=
        fun c hc => .child hn (Tree.mem_elementsOf.mp hc).1
      have hbelow := ih hdepth (by omega)
      have hrest := ihns fun m hm => hns m (List.mem_cons_of_mem n hm)
      unfold collectAll
      rw [collect_succ (ht.isLive_of_standing hn.standing)]
      cases hcommand : commandOf t r n with
      | error e => exact .inr ⟨e, rfl, .here hcommand⟩
      | ok f? =>
        cases f? with
        | none =>
          rcases hbelow next with ⟨calls, mid, hok, hbuilt⟩ | ⟨e, herr, hfails⟩
          · rcases hrest mid with ⟨rest, after, hok', hbuilt'⟩ | ⟨e, herr, hfails⟩
            · refine .inl ⟨calls ++ rest, after, ?_, .plain hcommand hbuilt hbuilt'⟩
              simp [bind, Except.bind, hok, hok', pure, Except.pure]
            · refine .inr ⟨e, ?_, .later hcommand hbuilt hfails⟩
              simp [bind, Except.bind, hok, herr]
          · refine .inr ⟨e, ?_, .inside hcommand hfails⟩
            simp [bind, Except.bind, herr]
        | some f =>
          rcases hbelow (next + 1) with ⟨calls, mid, hok, hbuilt⟩ | ⟨e, herr, hfails⟩
          · rcases hrest mid with ⟨rest, after, hok', hbuilt'⟩ | ⟨e, herr, hfails⟩
            · refine .inl ⟨_, after, ?_, .call hcommand hbuilt hbuilt'⟩
              simp [bind, Except.bind, hok, hok', pure, Except.pure]
            · refine .inr ⟨e, ?_, .later hcommand hbuilt hfails⟩
              simp [bind, Except.bind, hok, herr, pure, Except.pure]
          · refine .inr ⟨e, ?_, .inside hcommand hfails⟩
            simp [bind, Except.bind, herr]

/-! ## A graph that is built -/

/-- What is reached from several branches is the topmost element of the first one, or it is reached
from the branches below or from the others. -/
theorem reached_cons : (∃ m ∈ n :: ns, t.Reaches m x) ↔
    x = n ∨ (∃ c ∈ t.elementsOf n, t.Reaches c x) ∨ ∃ m ∈ ns, t.Reaches m x := by
  constructor
  · rintro ⟨m, hm, hx⟩
    rcases List.mem_cons.mp hm with rfl | hm
    · exact hx.eq_or_below.imp_right .inl
    · exact .inr (.inr ⟨m, hm, hx⟩)
  · rintro (rfl | ⟨c, hc, hx⟩ | ⟨m, hm, hx⟩)
    · exact ⟨x, List.mem_cons_self, .self⟩
    · exact ⟨n, List.mem_cons_self, .of_child hc hx⟩
    · exact ⟨m, List.mem_cons_of_mem n hm, hx⟩

namespace Built

/-- No reached element has a fault. -/
theorem found (h : Built t r ns next calls after) {m : NodeId} (hm : m ∈ ns) (hx : t.Reaches m x) :
    ∃ f?, commandOf t r x = .ok f? := by
  induction h generalizing m with
  | nil => cases hm
  | plain hcommand _ _ ihbelow ihrest | call hcommand _ _ ihbelow ihrest =>
    rcases List.mem_cons.mp hm with rfl | hm
    · rcases hx.eq_or_below with rfl | ⟨c, hc, hcx⟩
      · exact ⟨_, hcommand⟩
      · exact ihbelow hc hcx
    · exact ihrest hm hx

/-- The calls are numbered in the order of the document. -/
theorem numbered (h : Built t r ns next calls after) :
    (Call.walkAll calls).map Occurrence.id = List.range' next (Call.walkAll calls).length ∧
      after = next + (Call.walkAll calls).length := by
  induction h with
  | nil => exact ⟨rfl, rfl⟩
  | plain _ _ _ ihbelow ihrest =>
    obtain ⟨hids, rfl⟩ := ihbelow
    obtain ⟨hids', rfl⟩ := ihrest
    rw [Call.walkAll_append, List.map_append, hids, hids', List.length_append]
    exact ⟨List.range'_append_1, by omega⟩
  | call _ _ _ ihbelow ihrest =>
    obtain ⟨hids, rfl⟩ := ihbelow
    obtain ⟨hids', rfl⟩ := ihrest
    simp only [Call.walkAll, Call.walk, List.cons_append, List.map_cons, List.map_append, hids,
      hids', List.length_cons,
      List.length_append]
    refine ⟨?_, by omega⟩
    rw [List.range'_append_1, List.range'_succ]

/-- Each call has the key, the command and the expression that were found on its element. -/
theorem of_mem (h : Built t r ns next calls after) (ho : o ∈ Call.walkAll calls) :
    commandOf t r o.element = .ok (some ⟨o.key, o.command, o.expression⟩) := by
  induction h with
  | nil => cases ho
  | plain _ _ _ ihbelow ihrest =>
    rw [Call.walkAll_append] at ho
    exact (List.mem_append.mp ho).elim ihbelow ihrest
  | call hcommand _ _ ihbelow ihrest =>
    rw [Call.walkAll, Call.walk] at ho
    rcases List.mem_append.mp ho with ho | ho
    · rcases List.mem_cons.mp ho with rfl | ho
      · exact hcommand
      · exact ihbelow ho
    · exact ihrest ho

section

variable (ht : t.Coherent) (h : Built t r ns next calls after) (hns : t.Branches ns)
include ht h hns

/-- The calls stand at the reached elements that carry a command. -/
theorem mem_iff : x ∈ (Call.walkAll calls).map Occurrence.element ↔ (∃ m ∈ ns, t.Reaches m x) ∧
    Carries t r x := by
  induction h with
  | nil => simp [Call.walkAll]
  | @plain n _ _ _ _ _ _ hcommand _ _ ihbelow ihrest =>
    have hstands := hns.standing List.mem_cons_self
    have hn : ¬ (x = n ∧ Carries t r x) := by
      rintro ⟨rfl, hc⟩
      exact absurd ((carries_iff ht hstands hcommand).mp hc) (by simp)
    rw [Call.walkAll_append, List.map_append, List.mem_append, ihbelow (.elementsOf hstands),
      ihrest hns.tail,
      reached_cons, or_and_right (a := x = n), or_iff_right hn, or_and_right]
  | @call n _ _ _ _ _ _ f hcommand _ _ ihbelow ihrest =>
    have hstands := hns.standing List.mem_cons_self
    have hn : x = n ∧ Carries t r x ↔ x = n :=
      and_iff_left_of_imp fun hx => hx ▸ (carries_iff ht hstands hcommand).mpr rfl
    rw [Call.walkAll, Call.walk, List.cons_append, List.map_cons, List.map_append, List.mem_cons,
      List.mem_append,
      ihbelow (.elementsOf hstands), ihrest hns.tail, reached_cons, or_and_right (a := x = n), hn,
      or_and_right]

/-- Every call lies at an element that is reached. -/
theorem reached (ho : o ∈ Call.walkAll calls) : ∃ m ∈ ns, t.Reaches m o.element :=
  ((mem_iff ht h hns).mp (List.mem_map_of_mem ho)).1

/-- The calls come in the order of the document. -/
theorem ordered : ((Call.walkAll calls).map Occurrence.element).Pairwise t.Precedes := by
  -- what is reached from the first branch comes before what is reached from the others
  have hcross : ∀ {n ns x y}, t.Branches (n :: ns) → t.Under n x → (∃ m ∈ ns, t.Reaches m y) →
      t.Precedes x y := by
    rintro n ns x y hns hx ⟨m, hm, hy⟩
    exact (List.pairwise_cons.mp hns.ordered).1 m hm x y hx hy.under
  have hunder : ∀ {n x}, (∃ c ∈ t.elementsOf n, t.Reaches c x) → t.Under n x := fun ⟨c, hc, hx⟩ =>
    (Tree.Reaches.of_child hc hx).under
  induction h with
  | nil => exact .nil
  | plain _ hbelow hrest ihbelow ihrest =>
    have hsub := Tree.Branches.elementsOf (hns.standing List.mem_cons_self)
    rw [Call.walkAll_append, List.map_append]
    refine List.pairwise_append.mpr ⟨ihbelow hsub, ihrest hns.tail, fun x hx y hy => ?_⟩
    exact hcross hns (hunder ((mem_iff ht hbelow hsub).mp hx).1)
      ((mem_iff ht hrest hns.tail).mp hy).1
  | call _ hbelow hrest ihbelow ihrest =>
    have hsub := Tree.Branches.elementsOf (hns.standing List.mem_cons_self)
    rw [Call.walkAll, Call.walk, List.map_append, List.map_cons]
    refine List.pairwise_append.mpr ⟨List.pairwise_cons.mpr ⟨fun y hy => ?_, ihbelow hsub⟩,
      ihrest hns.tail,
      fun x hx y hy => ?_⟩
    · obtain ⟨c, hc, hcy⟩ := ((mem_iff ht hbelow hsub).mp hy).1
      exact .below (Tree.mem_elementsOf.mp hc).1 hcy.under
    · refine hcross hns ?_ ((mem_iff ht hrest hns.tail).mp hy).1
      rcases List.mem_cons.mp hx with rfl | hx
      · exact .self
      · exact hunder ((mem_iff ht hbelow hsub).mp hx).1

end

end Built

/-! ## The call around a call -/

/-- The element carries a command and lies strictly above the other. -/
structure Around (t : Tree) (r : Registry) (a x : NodeId) : Prop where
  carries : Carries t r a
  under : t.Under a x
  ne : a ≠ x

/-- The nearest of the elements above that carry a command. -/
structure Nearest (t : Tree) (r : Registry) (q x : NodeId) : Prop extends Around t r q x where
  nearest {a : NodeId} : Around t r a x → t.Under a q

namespace Built

/-- What the passage over the other branches says of the elements around one holds with the first
branch as well. -/
theorem none_around_of_tail (ht : t.Coherent) (hns : t.Branches (n :: ns))
    (hx : ∃ m ∈ ns, t.Reaches m x) (h : ∀ m ∈ ns, ∀ a, Around t r a x → ¬ t.Under m a) :
    ∀ m ∈ n :: ns, ∀ a, Around t r a x → ¬ t.Under m a := by
  intro m hm a ha hma
  rcases List.mem_cons.mp hm with rfl | hm
  · obtain ⟨m', hm', hx⟩ := hx
    exact hns.not_under ht hm' (hma.trans ha.under) hx.under
  · exact h m hm a ha hma

/-- **Around a call stands the one given from outside, if no element above its own in the branches
carries a command, and otherwise the call of the nearest such element.** -/
theorem links (ht : t.Coherent) (h : Built t r ns next calls after) (hns : t.Branches ns)
    (around : Option Occurrence) {q? : Option Occurrence}
    (ho : (q?, o) ∈ Call.linksAll around calls) :
    (q? = around ∧ ∀ m ∈ ns, ∀ a, Around t r a o.element → ¬ t.Under m a) ∨
      ∃ q, q? = some q ∧ q ∈ Call.walkAll calls ∧ Nearest t r q.element o.element := by
  induction h generalizing around with
  | nil => cases ho
  | @plain n ns _ _ _ calls rest hcommand hbelow hrest ihbelow ihrest =>
    have hn := hns.standing List.mem_cons_self
    have hsub := Tree.Branches.elementsOf hn
    rw [Call.linksAll_append] at ho
    rw [Call.walkAll_append]
    rcases List.mem_append.mp ho with ho | ho
    · rcases ihbelow hsub around ho with ⟨hq, hnone⟩ | ⟨q, hq, hmem, hnear⟩
      · refine .inl ⟨hq, fun m hm a ha hma => ?_⟩
        obtain ⟨c, hc, hco⟩ := hbelow.reached ht hsub (Call.mem_walkAll_of_mem_linksAll ho)
        rcases hns.above_reached ht hc hco ha.under hm hma with rfl | hca
        · exact absurd ((carries_iff ht hn hcommand).mp ha.carries) (by simp)
        · exact hnone c hc a ha hca
      · exact .inr ⟨q, hq, List.mem_append_left _ hmem, hnear⟩
    · rcases ihrest hns.tail around ho with ⟨hq, hnone⟩ | ⟨q, hq, hmem, hnear⟩
      · have hreached := hrest.reached ht hns.tail (Call.mem_walkAll_of_mem_linksAll ho)
        exact .inl ⟨hq, none_around_of_tail ht hns hreached hnone⟩
      · exact .inr ⟨q, hq, List.mem_append_right _ hmem, hnear⟩
  | @call n ns next _ _ inside rest f hcommand hbelow hrest ihbelow ihrest =>
    have hn := hns.standing List.mem_cons_self
    have hsub := Tree.Branches.elementsOf hn
    rw [Call.linksAll, Call.links] at ho
    rw [Call.walkAll, Call.walk]
    rcases List.mem_append.mp ho with ho | ho
    · rcases List.mem_cons.mp ho with he | ho
      · cases he
        refine .inl ⟨rfl, fun m hm a ha hma => ?_⟩
        rcases List.mem_cons.mp hm with rfl | hm
        · exact ha.ne (ht.under_antisymm (hn.under hma) ha.under hma)
        · exact hns.not_under ht hm .self (hma.trans ha.under)
      · rcases ihbelow hsub _ ho with ⟨hq, hnone⟩ | ⟨q, hq, hmem, hnear⟩
        · -- no element in between carries a command, so the nearest one is that of this call
          obtain ⟨c, hc, hco⟩ := hbelow.reached ht hsub (Call.mem_walkAll_of_mem_linksAll ho)
          have hno : t.Under n o.element := (Tree.Reaches.of_child hc hco).under
          have hne : n ≠ o.element := fun he =>
            ht.not_under_child hn (Tree.mem_elementsOf.mp hc).1 (he ▸ hco.under)
          refine .inr ⟨_, hq, by simp, ⟨⟨(carries_iff ht hn hcommand).mpr rfl, hno, hne⟩,
            fun {a} ha => ?_⟩⟩
          rcases ht.under_total (hn.under hno) ha.under hno with h | h
          · exact h
          · rcases hns.above_reached ht hc hco ha.under List.mem_cons_self h with rfl | hca
            · exact .self
            · exact absurd hca (hnone c hc a ha)
        · exact .inr ⟨q, hq, by simp [hmem], hnear⟩
    · rcases ihrest hns.tail around ho with ⟨hq, hnone⟩ | ⟨q, hq, hmem, hnear⟩
      · have hreached := hrest.reached ht hns.tail (Call.mem_walkAll_of_mem_linksAll ho)
        exact .inl ⟨hq, none_around_of_tail ht hns hreached hnone⟩
      · exact .inr ⟨q, hq, List.mem_append_right _ hmem, hnear⟩

end Built

/-! ## A graph that is refused -/

/-- The passage stops with the error of an element before which no reached element has one. -/
theorem Fails.first (ht : t.Coherent) (h : Fails t r ns e) (hns : t.Branches ns) :
    ∃ x, (∃ m ∈ ns, t.Reaches m x) ∧ commandOf t r x = .error e ∧
      ∀ y, (∃ m ∈ ns, t.Reaches m y) → t.Precedes y x → ∃ f?, commandOf t r y = .ok f? := by
  induction h with
  | @here n ns e herr =>
    have hn := hns.standing List.mem_cons_self
    refine ⟨n, ⟨n, List.mem_cons_self, .self⟩, herr, fun y ⟨m, hm, hy⟩ hyn => absurd hyn ?_⟩
    rcases List.mem_cons.mp hm with rfl | hm
    · rcases hy.eq_or_below with rfl | ⟨c, hc, hcy⟩
      · exact ht.precedes_irrefl hn
      · exact ht.precedes_asymm hn (hn.under hy.under)
          (.below (Tree.mem_elementsOf.mp hc).1 hcy.under)
    · have hny := (List.pairwise_cons.mp hns.ordered).1 m hm n y .self hy.under
      exact ht.precedes_asymm hn ((hns.standing (List.mem_cons_of_mem n hm)).under hy.under) hny
  | @inside n ns f? e hok _ ih =>
    have hn := hns.standing List.mem_cons_self
    obtain ⟨x, ⟨c, hc, hx⟩, herr, hfirst⟩ := ih (.elementsOf hn)
    have hnx : t.Reaches n x := .of_child hc hx
    refine ⟨x, ⟨n, List.mem_cons_self, hnx⟩, herr, fun y hy hyx => ?_⟩
    rcases reached_cons.mp hy with rfl | hy | ⟨m, hm, hy⟩
    · exact ⟨f?, hok⟩
    · exact hfirst y hy hyx
    · have hxy := (List.pairwise_cons.mp hns.ordered).1 m hm x y hnx.under hy.under
      have hsy := (hns.standing (List.mem_cons_of_mem n hm)).under hy.under
      exact absurd hyx (ht.precedes_asymm (hn.under hnx.under) hsy hxy)
  | @later n ns f? _ _ _ e hok hbuilt _ ih =>
    obtain ⟨x, ⟨m, hm, hx⟩, herr, hfirst⟩ := ih hns.tail
    refine ⟨x, ⟨m, List.mem_cons_of_mem n hm, hx⟩, herr, fun y hy hyx => ?_⟩
    rcases reached_cons.mp hy with rfl | ⟨c, hc, hy⟩ | hy
    · exact ⟨f?, hok⟩
    · exact hbuilt.found hc hy
    · exact hfirst y hy hyx

/-! ## The graph of a document -/

/-- The graph is a picture of the document: which elements have a call, in which order and under
which number, and which call stands around which. -/
structure Mirrors (g : CallGraph) (t : Tree) (r : Registry) (root : NodeId) : Prop where
  elements {x : NodeId} : x ∈ g.walk.map Occurrence.element ↔ t.Reaches root x ∧ Carries t r x
  once : (g.walk.map Occurrence.element).Nodup
  ordered : (g.walk.map Occurrence.element).Pairwise t.Precedes
  numbered {i : Nat} {o : Occurrence} : g.walk[i]? = some o → o.id = i
  found {o : Occurrence} :
    o ∈ g.walk → commandOf t r o.element = .ok (some ⟨o.key, o.command, o.expression⟩)
  linked : g.links.map Prod.snd = g.walk
  around {q o : Occurrence} : (some q, o) ∈ g.links → q ∈ g.walk ∧ Nearest t r q.element o.element
  outermost {o : Occurrence} : (none, o) ∈ g.links → ∀ a, ¬ Around t r a o.element

/-- Only elements carry commands. -/
theorem Carries.isElement (h : Carries t r n) : t.isElement n = true := by
  obtain ⟨name, hname, key, c, ns, l, ⟨⟨mark, hsplit, -⟩, -⟩, -⟩ := h
  unfold names Tree.name Tree.attributes at hname
  unfold Tree.isElement
  split
  · rfl
  · next hno =>
    have : name = "" := by
      cases hcontent : (t.node n).content with
      | element name as => exact absurd hcontent (hno name as)
      | _ => simpa [hcontent] using hname
    rw [this] at hsplit
    cases hsplit

/-- How the graph of a document is built, or not. -/
theorem ofTree_cases (ht : t.Coherent) (hroot : t.root = .ok root) :
    (∃ g after, ofTree t r = .ok g ∧ Built t r [root] 0 g.roots after) ∨
      ∃ e, ofTree t r = .error e ∧ Fails t r [root] e := by
  have hdepth := ht.depth_root hroot
  have hsingle : ∀ n ∈ [root], t.Depth n 1 := fun n hn => List.mem_singleton.mp hn ▸ hdepth
  have hsize : t.nodes.size ≤ 1 + (t.nodes.size + 1) := by omega
  have hcases := collectAll_cases (r := r) ht hsingle hsize 0
  rw [collectAll_singleton] at hcases
  unfold ofTree
  rw [hroot]
  rcases hcases with ⟨calls, after, hok, hbuilt⟩ | ⟨e, herr, hfails⟩
  · refine .inl ⟨⟨calls⟩, after, ?_, hbuilt⟩
    simp [bind, Except.bind, hok, pure, Except.pure, Except.mapError]
  · refine .inr ⟨e, ?_, hfails⟩
    simp [bind, Except.bind, herr, Except.mapError]

/-- What reaches down to the outermost element from above is no element. -/
theorem root_topmost (ht : t.Coherent) (hroot : t.root = .ok root) (ha : t.Under a root)
    (helement : t.isElement a = true) :
    a = root := by
  have hmem : root ∈ (t.node Tree.documentId).children :=
    (Tree.mem_elementsOf.mp (Tree.mem_elementsOf_of_root hroot)).1
  cases ha with
  | self => rfl
  | child hap hc =>
    cases ht.parent_unique hmem hc
    cases hap with
    | self => exact absurd rfl (ht.ne_document helement)
    | child _ hd => exact absurd hd (ht.top_not_listed ht.root_top)

/-- A graph built from the outermost element mirrors the document. -/
theorem Built.mirrors (ht : t.Coherent) (hroot : t.root = .ok root) {g : CallGraph}
    (h : Built t r [root] 0 g.roots after) : g.Mirrors t r root := by
  have hstands := (ht.depth_root hroot).standing
  have hns := Tree.Branches.single hstands
  have hordered := h.ordered ht hns
  have hreaches : ∀ {x}, (∃ m ∈ [root], t.Reaches m x) ↔ t.Reaches root x := by simp
  have hstanding : ∀ {x}, x ∈ g.walk.map Occurrence.element → t.Standing x := fun hx =>
    hstands.under (hreaches.mp ((h.mem_iff ht hns).mp hx).1).under
  refine
    { elements := (h.mem_iff ht hns).trans (and_congr_left' hreaches), ordered :=
      hordered, once := ?_,
      numbered := fun {i o} hi => ?_, found := h.of_mem, linked :=
        Call.map_snd_linksAll none g.roots,
      around := fun hq => ?_, outermost := fun {o} ho a ha => ?_ }
  · refine hordered.imp_of_mem fun {x y} hx _ hxy he => ?_
    exact ht.precedes_irrefl (hstanding hx) (he ▸ hxy)
  · have hid := congrArg (·[i]?) h.numbered.1
    simp only [List.getElem?_map, CallGraph.walk] at hi hid
    rw [hi] at hid
    obtain ⟨hlt, -⟩ := List.getElem?_eq_some_iff.mp hi
    simpa [hlt] using hid
  · rcases h.links ht hns none hq with ⟨hnone, -⟩ | ⟨q, hq, hmem, hnear⟩
    · cases hnone
    · cases hq
      exact ⟨hmem, hnear⟩
  · rcases h.links ht hns none ho with ⟨-, hnone⟩ | ⟨q, hq, -⟩
    · obtain ⟨m, hm, hx⟩ := h.reached ht hns (Call.mem_walkAll_of_mem_linksAll ho)
      have hrx := (List.mem_singleton.mp hm ▸ hx).under
      rcases ht.under_total (hstands.under hrx) ha.under hrx with hu | hu
      · exact hnone root List.mem_cons_self a ha
          (root_topmost ht hroot hu ha.carries.isElement ▸ .self)
      · exact hnone root List.mem_cons_self a ha hu
    · cases hq

/-- **A graph that is built is a picture of the document.** It has one call for each reached element
that carries a command, in the order of the document and numbered in that order, and the call
directly around a call is that of the nearest element above that carries a command. -/
theorem graph_mirrors_document (ht : t.Coherent) {g : CallGraph} (h : ofTree t r = .ok g) :
    ∃ root, t.root = .ok root ∧ g.Mirrors t r root := by
  cases hroot : t.root with
  | error c =>
    unfold ofTree at h
    rw [hroot] at h
    cases h
  | ok root =>
    refine ⟨root, rfl, ?_⟩
    rcases ofTree_cases (r := r) ht hroot with ⟨g', after, hok, hbuilt⟩ | ⟨e, herr, -⟩
    · cases h.symm.trans hok
      exact hbuilt.mirrors ht hroot
    · cases h.symm.trans herr

end CallGraph

namespace Sample

/-- A registry with two commands and a modifier. -/
def registry : Registry :=
  ⟨[(⟨"urn:t", "execute"⟩, .execute), (⟨"urn:t", "echo"⟩, .echo)],
    [⟨"urn:t", "expected"⟩], ["urn:t"]⟩

/-- A `div` that executes something. In it stands a paragraph without command, and in that an echo.
-/
def marked : Tree :=
  ⟨#[⟨.document, [1], .top, false⟩, ⟨.element "html" [("xmlns:c", "urn:t")], [2], .below 0, false⟩,
  ⟨.element "div" [("c:execute", "go()")], [3], .below 1, false⟩,
  ⟨.element "p" [], [4, 5], .below 2, false⟩,
  ⟨.text "x", [], .below 3, false⟩, ⟨.element "c:echo" [("expression", "#x")], [],
    .below 3, false⟩]⟩

theorem marked_sound : marked.Sound := Tree.sound_of_agrees rfl ⟨by decide, rfl⟩ (by decide)

/-- The calls of the `div`. -/
def markedGraph : CallGraph := ⟨[.mk ⟨0, 0, 2, .execute, ⟨"urn:t", "execute"⟩, "go()"⟩
  [.mk ⟨1, 1, 5, .echo, ⟨"urn:t", "echo"⟩, "#x"⟩ []]]⟩

/-- A `div` with a modifier and a misspelled command. In it stands an element with two commands. -/
def misspelled : Tree := ⟨#[⟨.document, [1], .top, false⟩,
  ⟨.element "html" [("xmlns:c", "urn:t")], [2], .below 0, false⟩,
  ⟨.element "div" [("c:expected", "x"), ("c:exekute", "go()")], [3], .below 1, false⟩,
  ⟨.element "p" [("c:echo", "#x"), ("C:EXECUTE", "#y")], [], .below 2, false⟩]⟩

theorem misspelled_sound : misspelled.Sound := Tree.sound_of_agrees rfl ⟨by decide, rfl⟩ (by decide)

end Sample

namespace CallGraph

/-- The paragraph between has no call: the echo stands directly in the call of the `div`. -/
theorem graph_mirrors_marked : Sample.marked.Coherent ∧
    ofTree Sample.marked Sample.registry = .ok Sample.markedGraph ∧
    Sample.markedGraph.Mirrors Sample.marked Sample.registry 1 := by
  have hok : ofTree Sample.marked Sample.registry = .ok Sample.markedGraph := by cbv
  obtain ⟨root, hroot, hmirrors⟩ := graph_mirrors_document Sample.marked_sound.toCoherent hok
  cases hroot
  exact ⟨Sample.marked_sound.toCoherent, hok, hmirrors⟩

/-- **A graph is refused for the first invalid element.** A document without outermost element is
refused for that. Of one with an outermost element no graph is built exactly if a reached element is
invalid, and the error is the fault of the one that comes before all others. -/
theorem graph_refused_iff (ht : t.Coherent) :
    (∀ c, t.root = .error c → ofTree t r = .error (.element c)) ∧
    ∀ root, t.root = .ok root →
      ((∃ e, ofTree t r = .error e) ↔ ∃ x, t.Reaches root x ∧ Invalid t r x) ∧
      ∀ e, ofTree t r = .error e ↔ ∃ x, t.Reaches root x ∧ Fault t r x e ∧
        ∀ y, t.Reaches root y → t.Precedes y x → ¬ Invalid t r y := by
  refine ⟨fun c hc => by unfold ofTree; rw [hc]; rfl, fun root hroot => ?_⟩
  have hstands := (ht.depth_root hroot).standing
  have hreaches : ∀ {x}, (∃ m ∈ [root], t.Reaches m x) ↔ t.Reaches root x := by simp
  have hstanding : ∀ {x}, t.Reaches root x → t.Standing x := fun hx => hstands.under hx.under
  have hfault : ∀ {x e}, t.Reaches root x → (commandOf t r x = .error e ↔
      Fault t r x e) := fun hx =>
    commandOf_eq_error_iff ht (hstanding hx)
  have hvalid : ∀ {x}, t.Reaches root x → (¬ Invalid t r x ↔
      ∃ f?, commandOf t r x = .ok f?) := fun {x} hx => by
    rw [← commandOf_fails_iff ht (hstanding hx)]
    cases commandOf t r x <;> simp
  rcases ofTree_cases (r := r) ht hroot with ⟨g, after, hok, hbuilt⟩ | ⟨e, herr, hfails⟩
  · -- a graph is built, so no reached element is invalid
    have hnone : ∀ {x}, t.Reaches root x → ¬ Invalid t r x := fun hx =>
      (hvalid hx).mpr (hbuilt.found List.mem_cons_self hx)
    simp only [hok, reduceCtorEq, exists_false, false_iff, not_exists, not_and]
    exact ⟨fun x hx => hnone hx, fun e x hx he => absurd he.invalid (hnone hx)⟩
  · obtain ⟨x, hx, hx', hfirst⟩ := hfails.first ht (.single hstands)
    rw [hreaches] at hx
    have hx' := (hfault hx).mp hx'
    have hfirst : ∀ y, t.Reaches root y → t.Precedes y x → ¬ Invalid t r y := fun y hy hyx =>
      (hvalid hy).mpr (hfirst y (hreaches.mpr hy) hyx)
    rw [herr]
    refine ⟨⟨fun _ => ⟨x, hx, hx'.invalid⟩, fun _ => ⟨e, rfl⟩⟩, fun e' =>
      ⟨fun h => ?_, fun ⟨y, hy, hy', hfirst'⟩ => ?_⟩⟩
    · cases h
      exact ⟨x, hx, hx', hfirst⟩
    · -- the first invalid element is one
      rcases Tree.precedes_total hx.under hy.under with rfl | hxy | hyx
      · rw [hx'.unique ht (hstanding hx) hy']
      · exact absurd hx'.invalid (hfirst' x hx hxy)
      · exact absurd hy'.invalid (hfirst y hy hyx)

/-- The misspelled name comes before the element with two commands. -/
theorem graph_refused_misspelled : Sample.misspelled.Coherent ∧
    ∃ x, Sample.misspelled.Reaches 1 x ∧
      Fault Sample.misspelled Sample.registry x (.unknownCommand "urn:t" "exekute") ∧
      ∀ y, Sample.misspelled.Reaches 1 y → Sample.misspelled.Precedes y x →
        ¬ Invalid Sample.misspelled Sample.registry y :=
  ⟨Sample.misspelled_sound.toCoherent,
    (((graph_refused_iff Sample.misspelled_sound.toCoherent).2 1 rfl).2 _).mp (by cbv)⟩

end CallGraph
end LiveSpec
