import LiveSpec.Proofs.Table.Covering

/-!
# Which calls are driven

The phases drive a call unless it stands inside one that keeps the calls inside it to itself: a
`verifyRows`, an `execute` on a table, a probe that owns them (`Call.driven`). Each driven call
passes through all phases at its own element (`calls_driven`). A command that applies others to the
rows of a table does not drive these at their elements, but moved to the cells of each row that it
goes through (`Covers`), without the calls inside them.

The induction is over calls and lists of calls. A phase of a call never moves a node and never
changes what a node is (`runCall_leads`), so that whatever part of a run comes later finds the calls
where they were.
-/

namespace LiveSpec

open Markup (NodeId Tree)

/-- Says whether a command keeps the calls inside it to itself, `columns` being the first of them.
-/
def Occurrence.keepsInside (t : Tree) (o : Occurrence) (columns : List Occurrence) : Bool :=
  match o.command with
  | .execute => Run.isTableDriven t o columns
  | .verifyRows => true
  | .probe p => p.owns
  | _ => false

mutual
/-- A call and those inside it that the phases drive. -/
def Call.driven (t : Tree) : Call → List Call
  | .mk o cs => .mk o cs :: if o.keepsInside t (cs.map Call.head) then [] else Call.drivenAll t cs
/-- Several calls and those inside them that the phases drive. -/
def Call.drivenAll (t : Tree) : List Call → List Call
  | [] => []
  | c :: cs => Call.driven t c ++ Call.drivenAll t cs
end

/-- A list drives what its calls drive. -/
theorem Call.mem_drivenAll {t : Tree} {d : Call} {cs : List Call} :
    d ∈ Call.drivenAll t cs ↔ ∃ c ∈ cs, d ∈ Call.driven t c := by
  induction cs with
  | nil => simp [Call.drivenAll]
  | cons c cs ih => simp [Call.drivenAll, ih]

mutual
/-- Calls that are driven inside a call are calls of its graph. -/
theorem Call.walk_of_driven {t : Tree} {d : Call} {o : Occurrence} :
    (c : Call) → d ∈ c.driven t → o ∈ d.walk → o ∈ c.walk
  | .mk o' cs, hd, ho => by
    unfold Call.driven at hd
    rcases List.mem_cons.mp hd with rfl | hd
    · exact ho
    · split at hd
      · cases hd
      · exact List.mem_cons_of_mem o' (Call.walkAll_of_drivenAll cs hd ho)
/-- Only calls of the graph are driven. -/
theorem Call.walkAll_of_drivenAll {t : Tree} {d : Call} {o : Occurrence} :
    (cs : List Call) → d ∈ Call.drivenAll t cs →
    o ∈ d.walk → o ∈ Call.walkAll cs
  | [], hd, _ => by cases hd
  | c :: cs, hd, ho => by
    unfold Call.walkAll
    rcases List.mem_append.mp hd with hd | hd
    · exact List.mem_append_left _ (Call.walk_of_driven c hd ho)
    · exact List.mem_append_right _ (Call.walkAll_of_drivenAll cs hd ho)
end

/-- An element keeps its name, and so a call keeps what is inside it to itself or not, as before. -/
theorem Occurrence.keepsInside_congr {t t' : Tree} {o : Occurrence} {columns : List Occurrence}
    (h : t.Onward t') (ho : t.isElement o.element = true) :
    o.keepsInside t' columns = o.keepsInside t columns := by
  unfold Occurrence.keepsInside Run.isTableDriven
  rw [h.isNamed (Tree.lt_size_of_isElement ho)]

variable {φ : Type} {s s₁ s₂ s₃ s' : RunState φ} {ns : List NodeId} {t₀ : Tree}

namespace Run

variable [Fixture φ] {env : Surroundings} {o : Occurrence} {p : Phase} {columns : List Occurrence}

/-! ## A run goes on -/

/-- Comparing rows goes onward. -/
theorem verifyRows_leads (ho : o.element ∈ ns) (hcolumns : ∀ c ∈ columns, c.element ∈ ns) :
    Keeps (Leads ns) (verifyRows env (runRow env) o columns p : Run φ Unit) := by
  cases p with
  | setup => exact .pure
  | execute => exact produceItems_reports.keeps.mono fun r => .of_notes (.of_reports r)
  | verify =>
    intro s _ s' hy hs hns
    rcases compareRows_spec hy with ⟨rfl, -⟩ | ⟨items, name, sequence, a, -, -, hreconcile⟩
    · exact refl_of (Leads ns) s' hs hns
    · exact (reconcile_covers hreconcile hs (hns _ ho) fun c hc => hns _ (hcolumns c hc)).1

/-- Applying a header to the rows goes onward. -/
theorem executeTable_leads (ho : o.element ∈ ns) (hcolumns : ∀ c ∈ columns, c.element ∈ ns) :
    Keeps (Leads ns) (executeTable env (runRow env) o columns : Run φ Unit) :=
  fun _ _ _ hy hs hns =>
  (executeTable_covers hy hs (hns _ ho) fun c hc => hns _ (hcolumns c hc)).1

omit [Fixture φ] in
/-- Noting a visit touches no tree. -/
theorem noted_leads (s : RunState φ) (p : Phase) :
    Leads ns s { s with visits := s.visits ++ [(p, o)] } :=
  .of_notes ⟨rfl, List.prefix_append .., List.prefix_rfl⟩

omit [Fixture φ] in
/-- A visit goes onward if its part does. -/
theorem visit_leads {part : Run φ Unit} (h : Keeps (Leads ns) part) :
    Keeps (Leads ns) (visit p o part) :=
  visit_keeps noted_leads h

section Leading

variable {inside : Inside φ}

/-- A step goes onward if the calls inside do. -/
theorem step_leads (ho : o.element ∈ ns) (hcolumns : ∀ c ∈ columns, c.element ∈ ns)
    (hphase : ∀ p, Keeps (Leads ns) (inside.phase p))
    (hbinding : ∀ b, Keeps (Leads ns) (inside.binding b)) :
    Keeps (Leads ns) (step env (runRow env) o columns inside p) :=
  step_keeps (.of_deeds ho) noted_leads hphase hbinding (fun _ => executeTable_leads ho hcolumns)
    fun _ => verifyRows_leads ho hcolumns

end Leading

/-- **A phase of a call goes on**: it moves no node, and changes no node into another. -/
theorem runCall_leads (p : Phase) (c : Call) (h : ∀ o ∈ c.walk, o.element ∈ ns) :
    Keeps (Leads ns) (runCall env p c : Run φ Unit) :=
  runCall_keeps step_leads p c h

/-- A phase of a list of calls goes onward. -/
theorem runCalls_leads (p : Phase) (cs : List Call) (h : ∀ o ∈ Call.walkAll cs, o.element ∈ ns) :
    Keeps (Leads ns) (runCalls env p cs : Run φ Unit) :=
  runCalls_keeps step_leads p cs h

/-- So does the part of it that binds, or the part that does not. -/
theorem runBinding_leads (b : Bool) (cs : List Call) (h : ∀ o ∈ Call.walkAll cs, o.element ∈ ns) :
    Keeps (Leads ns) (runBinding env b cs : Run φ Unit) :=
  runBinding_keeps step_leads b cs h

/-! ## The calls inside a call -/

/-- A state that a run came to from a tree with some elements. -/
def Follows (t₀ : Tree) (ns : List NodeId) (s : RunState φ) : Prop :=
  t₀.Onward s.tree ∧ s.tree.Sound ∧ ∀ n ∈ ns, t₀.isElement n = true

omit [Fixture φ] in
/-- What goes onward leads to a state that follows again. -/
theorem Follows.leads (hs : Follows t₀ ns s) (h : Leads ns s s') : Follows t₀ ns s' ∧
    s.Onward s' := by
  obtain ⟨hgo₀, hsound, hns⟩ := hs
  have hgo := h hsound fun n hn => hgo₀.element (hns n hn)
  exact ⟨⟨hgo₀.trans hgo.tree, hgo.sound, hns⟩, hgo⟩

/-- A run passes through a phase of a call: from somewhere on its way it does the phase, and then
goes on. -/
def Passes (env : Surroundings) (p : Phase) (c : Call) (s s' : RunState φ) : Prop :=
  ∃ s₁ s₂, s.Onward s₁ ∧ (runCall env p c).Yields s₁ () s₂ ∧ s₂.Onward s'

/-- A run passes through what a part of it passes through. -/
theorem Passes.within {c : Call} (h : Passes env p c s₁ s₂) (h₁ : s.Onward s₁) (h₂ : s₂.Onward s') :
    Passes env p c s s' := by
  obtain ⟨s₃, s₄, hgo, hy, hgo'⟩ := h
  exact ⟨s₃, s₄, h₁.trans hgo, hy, hgo'.trans h₂⟩

/-- A call that does not keep the calls inside it to itself runs them: all in their order, or, when
an `execute` is executed, first those that bind variables and then the others. -/
theorem step_inside {inside : Inside φ} {u : Unit} (ho : o.element ∈ ns)
    (hcolumns : ∀ c ∈ columns, c.element ∈ ns) (hphase : ∀ p, Keeps (Leads ns) (inside.phase p))
    (hbinding : ∀ b, Keeps (Leads ns) (inside.binding b)) (hne : columns ≠ [])
    (hkeeps : o.keepsInside s.tree columns = false)
    (h : (step env (runRow env) o columns inside p).Yields s u s') :
    (∃ s₁ s₂, Leads ns s s₁ ∧ (inside.phase p).Yields s₁ () s₂ ∧ Leads ns s₂ s') ∨
    p = .execute ∧ ∃ s₁ s₂, (inside.binding true).Yields s () s₁ ∧ Leads ns s₁ s₂ ∧
      (inside.binding false).Yields s₂ () s' := by
  by_cases hc : o.command = .execute
  · have hdriven : isTableDriven s.tree o columns = false := by
      simpa [Occurrence.keepsInside, hc] using hkeeps
    have howns : Command.execute.owns (!columns.isEmpty) = true := by simp [Command.owns, hne]
    unfold step act at h
    simp only [hc, if_pos howns] at h
    obtain ⟨_, _, hget, h₁⟩ := yields_bind.mp h
    obtain ⟨rfl, rfl⟩ := yields_get.mp hget
    rw [if_neg (by simp [hdriven])] at h₁
    cases p with
    | setup =>
      obtain ⟨_, s₁, hv, hin⟩ := yields_bind.mp h₁
      exact .inl ⟨s₁, s', visit_leads .pure hv, hin, refl_of (Leads ns) s'⟩
    | execute =>
      obtain ⟨_, s₁, hfirst, h₂⟩ := yields_bind.mp h₁
      obtain ⟨_, s₂, hv, hrest⟩ := yields_bind.mp h₂
      exact .inr ⟨rfl, s₁, s₂, hfirst, visit_leads (executeAt_reports.keeps.mono fun r =>
        .of_deeds ho (.of_reports r)) hv, hrest⟩
    | verify =>
      obtain ⟨_, s₁, hin, hv⟩ := yields_bind.mp h₁
      exact .inl ⟨_, s₁, refl_of (Leads ns) _, hin, visit_leads .pure hv⟩
  · have howns : o.command.owns (!columns.isEmpty) = false := by
      unfold Occurrence.keepsInside at hkeeps
      cases hcommand : o.command with
      | execute => exact absurd hcommand hc
      | verifyRows => rw [hcommand] at hkeeps; cases hkeeps
      | probe probe => rw [hcommand] at hkeeps; exact hkeeps
      | _ => rfl
    have hact : Keeps (Leads ns) (act env (runRow env) o columns inside p) :=
      act_keeps (.of_deeds ho) noted_leads hphase hbinding (fun _ => executeTable_leads ho hcolumns)
        fun _ => verifyRows_leads ho hcolumns
    unfold step at h
    simp only [howns] at h
    cases p with
    | setup =>
      obtain ⟨_, s₁, hv, hin⟩ := yields_bind.mp h
      exact .inl ⟨s₁, s', hact hv, hin, refl_of (Leads ns) s'⟩
    | execute =>
      obtain ⟨_, s₁, hv, hin⟩ := yields_bind.mp h
      exact .inl ⟨s₁, s', hact hv, hin, refl_of (Leads ns) s'⟩
    | verify =>
      obtain ⟨_, s₁, hin, hv⟩ := yields_bind.mp h
      exact .inl ⟨s, s₁, refl_of (Leads ns) s, hin, hact hv⟩

mutual
/-- A phase of a call passes through that phase of every call it drives. -/
theorem runCall_passes : (p : Phase) → (c : Call) → (s s' : RunState φ) →
    (∀ o ∈ c.walk, o.element ∈ ns) →
    Follows t₀ ns s → (runCall env p c).Yields s () s' → ∀ d ∈ c.driven t₀, Passes env p d s s'
  | p, .mk o cs, s, s', h, hs, hy, d, hd => by
    have ho : o.element ∈ ns := h o (by simp [Call.walk])
    have hcs : ∀ o ∈ Call.walkAll cs, o.element ∈ ns := fun o' h' => h o' (by simp [Call.walk, h'])
    have hlead : Leads ns s s' := runCall_leads p (.mk o cs) h hy
    obtain ⟨hs', hgo⟩ := hs.leads hlead
    unfold Call.driven at hd
    rcases List.mem_cons.mp hd with rfl | hd
    · exact ⟨s, s', (refl_of Notes s).onward hs.2.1, hy, (refl_of Notes s').onward hs'.2.1⟩
    · have hkeeps : o.keepsInside t₀ (cs.map Call.head) = false := by
        cases hk : o.keepsInside t₀ (cs.map Call.head) with
        | false => rfl
        | true => rw [hk, if_pos rfl] at hd; cases hd
      rw [hkeeps, if_neg (by simp)] at hd
      have hne : cs.map Call.head ≠ [] := by
        intro hnil
        rw [List.map_eq_nil_iff.mp hnil] at hd
        cases hd
      rw [← Occurrence.keepsInside_congr hs.1 (hs.2.2 _ ho)] at hkeeps
      unfold runCall at hy
      rcases step_inside ho (fun c hc => hcs c (Call.head_mem_walkAll hc))
        (fun p => runCalls_leads p cs hcs)
          (fun b => runBinding_leads b cs hcs) hne hkeeps hy with
        ⟨s₁, s₂, h₁, hin, h₂⟩ | ⟨rfl, s₁, s₂, hfirst, h₂, hrest⟩
      · obtain ⟨hs₁, hgo₁⟩ := hs.leads h₁
        obtain ⟨hs₂, -⟩ := hs₁.leads (runCalls_leads p cs hcs hin)
        obtain ⟨-, hgo₂⟩ := hs₂.leads h₂
        exact (runCalls_passes p cs s₁ s₂ hcs hs₁ hin d hd).within hgo₁ hgo₂
      · obtain ⟨hs₁, hgo₁⟩ := hs.leads (runBinding_leads true cs hcs hfirst)
        obtain ⟨hs₂, hgo₂⟩ := hs₁.leads h₂
        obtain ⟨-, hgo₃⟩ := hs₂.leads (runBinding_leads false cs hcs hrest)
        obtain ⟨c, hc, hdc⟩ := Call.mem_drivenAll.mp hd
        cases hb : c.head.command.binds with
        | true =>
          exact (runBinding_passes true cs s s₁ hcs hs hfirst c hc hb d hdc).within
            ((refl_of Notes s).onward hs.2.1)
            (hgo₂.trans hgo₃)
        | false =>
          exact (runBinding_passes false cs s₂ s' hcs hs₂ hrest c hc hb d hdc).within
            (hgo₁.trans hgo₂)
            ((refl_of Notes s').onward hs'.2.1)
/-- A phase of a list passes through that phase of all that is driven. -/
theorem runCalls_passes : (p : Phase) → (cs : List Call) → (s s' : RunState φ) →
    (∀ o ∈ Call.walkAll cs, o.element ∈ ns) →
    Follows t₀ ns s → (runCalls env p cs).Yields s () s' →
    ∀ d ∈ Call.drivenAll t₀ cs, Passes env p d s s'
  | p, [], s, s', h, hs, hy, d, hd => by cases hd
  | p, c :: cs, s, s', h, hs, hy, d, hd => by
    have hc : ∀ o ∈ c.walk, o.element ∈ ns := fun o h' => h o (by simp [Call.walkAll, h'])
    have hcs : ∀ o ∈ Call.walkAll cs, o.element ∈ ns := fun o h' => h o (by simp [Call.walkAll, h'])
    obtain ⟨_, s₁, hone, hrest⟩ := yields_bind.mp hy
    obtain ⟨hs₁, hgo₁⟩ := hs.leads (runCall_leads p c hc hone)
    obtain ⟨hs', hgo'⟩ := hs₁.leads (runCalls_leads p cs hcs hrest)
    rcases List.mem_append.mp hd with hd | hd
    · exact (runCall_passes p c s s₁ hc hs hone d hd).within ((refl_of Notes s).onward hs.2.1) hgo'
    · exact (runCalls_passes p cs s₁ s' hcs hs₁ hrest d hd).within hgo₁
        ((refl_of Notes s').onward hs'.2.1)
/-- Executing the binding calls, or the others, passes through those. -/
theorem runBinding_passes (b : Bool) : (cs : List Call) → (s s' : RunState φ) →
    (∀ o ∈ Call.walkAll cs, o.element ∈ ns) →
    Follows t₀ ns s → (runBinding env b cs).Yields s () s' → ∀ c ∈ cs, c.head.command.binds = b →
    ∀ d ∈ c.driven t₀, Passes env .execute d s s'
  | [], s, s', h, hs, hy, c, hc => by cases hc
  | c₁ :: cs, s, s', h, hs, hy, c, hmem => by
    intro hb d hd
    have hc : ∀ o ∈ c₁.walk, o.element ∈ ns := fun o h' => h o (by simp [Call.walkAll, h'])
    have hcs : ∀ o ∈ Call.walkAll cs, o.element ∈ ns := fun o h' => h o (by simp [Call.walkAll, h'])
    unfold runBinding at hy
    by_cases hfirst : (c₁.head.command.binds == b) = true
    · simp only [if_pos hfirst] at hy
      obtain ⟨_, s₁, hone, hrest⟩ := yields_bind.mp hy
      obtain ⟨hs₁, hgo₁⟩ := hs.leads (runCall_leads .execute c₁ hc hone)
      obtain ⟨hs', hgo'⟩ := hs₁.leads (runBinding_leads b cs hcs hrest)
      rcases List.mem_cons.mp hmem with he | hmem
      · rw [he] at hd
        exact (runCall_passes .execute c₁ s s₁ hc hs hone d hd).within
          ((refl_of Notes s).onward hs.2.1) hgo'
      · exact (runBinding_passes b cs s₁ s' hcs hs₁ hrest c hmem hb d hd).within hgo₁
          ((refl_of Notes s').onward hs'.2.1)
    · simp only [if_neg hfirst] at hy
      rcases List.mem_cons.mp hmem with he | hmem
      · rw [he] at hb
        exact absurd (beq_iff_eq.mpr hb) hfirst
      · exact runBinding_passes b cs s s' hcs hs hy c hmem hb d hd
end

/-! ## What a phase of a call comes to -/

omit [Fixture φ] in
/-- A call is noted when its part begins, and what is noted stays. -/
theorem visited_visit {part : Run φ Unit} {u : Unit} (hpart : Keeps (Leads ns) part)
    (hs : Follows t₀ ns s) (h : (visit p o part).Yields s u s') : (p, o) ∈ s'.visits := by
  rw [yields_visit] at h
  obtain ⟨hs₀, -⟩ := hs.leads (noted_leads s p)
  obtain ⟨-, hgo⟩ := hs₀.leads (hpart h)
  exact hgo.visits.subset (by simp)

section Visited

variable {inside : Inside φ} {u : Unit} (ho : o.element ∈ ns)
  (hcolumns : ∀ c ∈ columns, c.element ∈ ns) (hphase : ∀ p, Keeps (Leads ns) (inside.phase p))
  (hbinding : ∀ b, Keeps (Leads ns) (inside.binding b)) (hs : Follows t₀ ns s)
include ho hcolumns hphase hbinding hs

/-- So each call that acts has been visited. -/
theorem visited_act (h : (act env (runRow env) o columns inside p).Yields s u s') :
    (p, o) ∈ s'.visits := by
  by_cases hc : o.command = .execute
  · unfold act at h
    rw [hc] at h
    obtain ⟨_, _, hget, h₁⟩ := yields_bind.mp h
    obtain ⟨rfl, rfl⟩ := yields_get.mp hget
    split at h₁
    · refine visited_visit ?_ hs h₁
      split
      · exact executeTable_leads ho hcolumns
      · exact .pure
    · cases p with
      | setup =>
        obtain ⟨_, s₁, hv, hin⟩ := yields_bind.mp h₁
        obtain ⟨hs₁, -⟩ := hs.leads (visit_leads .pure hv)
        obtain ⟨-, hgo⟩ := hs₁.leads (hphase _ hin)
        exact hgo.visits.subset (visited_visit .pure hs hv)
      | execute =>
        have hpart : Keeps (Leads ns) (executeAt env o o.element : Run φ Unit) :=
          executeAt_reports.keeps.mono fun r => .of_deeds ho (.of_reports r)
        obtain ⟨_, s₁, hfirst, h₂⟩ := yields_bind.mp h₁
        obtain ⟨_, s₂, hv, hrest⟩ := yields_bind.mp h₂
        obtain ⟨hs₁, -⟩ := hs.leads (hbinding _ hfirst)
        obtain ⟨hs₂, -⟩ := hs₁.leads (visit_leads hpart hv)
        obtain ⟨-, hgo⟩ := hs₂.leads (hbinding _ hrest)
        exact hgo.visits.subset (visited_visit hpart hs₁ hv)
      | verify =>
        obtain ⟨_, s₁, hin, hv⟩ := yields_bind.mp h₁
        obtain ⟨hs₁, -⟩ := hs.leads (hphase _ hin)
        exact visited_visit .pure hs₁ hv
  · obtain ⟨part, hact, hpart⟩ := act_eq_visit (.of_deeds ho) hphase hbinding hc fun _ =>
      verifyRows_leads ho hcolumns
    rw [hact] at h
    exact visited_visit hpart hs h

/-- Each phase of a call notes the visit. -/
theorem visited_step (h : (step env (runRow env) o columns inside p).Yields s u s') :
    (p, o) ∈ s'.visits := by
  unfold step at h
  dsimp only at h
  split at h
  · exact visited_act ho hcolumns hphase hbinding hs h
  · have hact : ∀ p, Keeps (Leads ns) (act env (runRow env) o columns inside p) := fun p =>
      act_keeps (.of_deeds ho) noted_leads hphase hbinding (fun _ => executeTable_leads ho hcolumns)
        fun _ => verifyRows_leads ho hcolumns
    -- before the calls inside, or after them
    have hbefore : ∀ p,
        (do act env (runRow env) o columns inside p; inside.phase p : Run φ Unit).Yields s u s' →
        (p, o) ∈ s'.visits := fun p h => by
      obtain ⟨_, s₁, hv, hin⟩ := yields_bind.mp h
      obtain ⟨hs₁, -⟩ := hs.leads (hact p hv)
      obtain ⟨-, hgo⟩ := hs₁.leads (hphase _ hin)
      exact hgo.visits.subset (visited_act ho hcolumns hphase hbinding hs hv)
    cases p with
    | setup => exact hbefore .setup h
    | execute => exact hbefore .execute h
    | verify =>
      obtain ⟨_, s₁, hin, hv⟩ := yields_bind.mp h
      obtain ⟨hs₁, -⟩ := hs.leads (hphase _ hin)
      exact visited_act ho hcolumns hphase hbinding hs₁ hv

end Visited

/-- What a phase of a call comes to: the call is visited, and if it applies the commands of a header
to rows, each of them that has a cell in a row has gone through all phases there, for every row that
the call goes through. -/
structure Covered (env : Surroundings) (p : Phase) (o : Occurrence) (columns : List Occurrence)
    (s s' : RunState φ) :
    Prop where
  visited : (p, o) ∈ s'.visits
  executed : p = .execute → o.command = .execute → isTableDriven s.tree o columns = true →
    ∃ l, TableLayout.of s.tree o.element (columns.head?.map Occurrence.element) = .ok l ∧
      ∀ row ∈ l.rows, Covers s.tree l columns row s'.visits
  compared : p = .verify → o.command = .verifyRows → ∀ items name sequence,
    s.kept.lookup o.slot = some (.array items) → splitBinding o.expression = .ok (name, sequence) →
    ∃ a, (reconcile env (fun calls => runRow env calls (pure ())) o columns name items).Yields
        { s with visits := s.visits ++ [(p, o)] } a s' ∧
      ∀ key row calls, .shown key row calls ∈ a.fates → Covers s.tree a.layout columns row s'.visits

/-- A phase of an `execute` on a table is noted; the executing one is the passage over its rows, and
the others are nothing else. -/
theorem result_step_table {inside : Inside φ} (hc : o.command = .execute)
    (htable : isTableDriven s.tree o columns = true) :
    (step env (runRow env) o columns inside p).result s =
      (if p = .execute then executeTable env (runRow env) o columns else
        pure () : Run φ Unit).result
        { s with visits := s.visits ++ [(p, o)] } := by
  have howns : Command.execute.owns (!columns.isEmpty) = true := (Bool.and_eq_true_iff.mp htable).2
  unfold step act
  simp only [hc, if_pos howns]
  unfold executeCommand
  show (if isTableDriven s.tree o columns = true then _ else _ : Run φ Unit).result s = _
  rw [if_pos htable]
  rfl

/-- A step at a table-driven call is the application of the header. -/
theorem executeTable_of_step {inside : Inside φ} {u : Unit} (hc : o.command = .execute)
    (htable : isTableDriven s.tree o columns = true)
    (h : (step env (runRow env) o columns inside .execute).Yields s u s') :
    (executeTable env (runRow env) o columns).Yields
      { s with visits := s.visits ++ [(.execute, o)] } u s' := by
  unfold Yields at h
  rwa [result_step_table hc htable, if_pos rfl] at h

/-- Each phase of a call covers it. -/
theorem runCall_covered {cs : List Call} (hns : ∀ o' ∈ Call.walk (.mk o cs), o'.element ∈ ns)
    (hs : Follows t₀ ns s) (h : (runCall env p (.mk o cs)).Yields s () s') :
    Covered env p o (cs.map Call.head) s s' := by
  have ho : o.element ∈ ns := hns o (by simp [Call.walk])
  have hcs : ∀ o ∈ Call.walkAll cs, o.element ∈ ns := fun o' h' => hns o' (by simp [Call.walk, h'])
  have hcolumns : ∀ c ∈ cs.map Call.head, c.element ∈ ns :=
    fun c hc => hcs c (Call.head_mem_walkAll hc)
  have helement : ∀ n ∈ ns, s.tree.isElement n = true := fun n hn => hs.1.element (hs.2.2 n hn)
  have hcells : ∀ c ∈ cs.map Call.head, s.tree.isElement c.element = true :=
    fun c hc => helement _ (hcolumns c hc)
  refine ⟨visited_step ho hcolumns (fun p => runCalls_leads p cs hcs) (fun b =>
    runBinding_leads b cs hcs) hs h, ?_, ?_⟩
  · intro hp hc htable
    cases hp
    exact (executeTable_covers (s := { s with visits := s.visits ++ [(.execute, o)] })
      (executeTable_of_step hc htable h) hs.2.1 (helement _ ho) hcells).2
  · intro hp hc items name sequence hkept hbinding
    cases hp
    obtain ⟨a, hreconcile⟩ := reconcile_of_runCall hc hkept hbinding h
    exact ⟨a, hreconcile,
      (reconcile_covers (s := { s with visits := s.visits ++ [(.verify, o)] }) hreconcile hs.2.1
      (helement _ ho) hcells).2⟩

/-- **Which calls are driven.** In a run that ends, a call that does not stand inside one that keeps
the calls inside it to itself passes through each phase at its own element, and a call that applies
the commands of a header to rows covers its rows: each of these commands that has a cell in a row
goes through all phases there. -/
theorem calls_driven {g : CallGraph} (hs : s.tree.Sound)
    (helements : ∀ o ∈ g.walk, s.tree.isElement o.element = true)
    (h : (runGraph env g).Yields s () s') :
    ∀ c ∈ Call.drivenAll s.tree g.roots, ∀ p, (p, c.head) ∈ s'.visits ∧
      ∃ s₁ s₂, s.Onward s₁ ∧ (runCall env p c).Yields s₁ () s₂ ∧ s₂.Onward s' ∧
        Covered env p c.head (c.inside.map Call.head) s₁ s₂ := by
  let ns := g.walk.map Occurrence.element
  have hns : ∀ o ∈ Call.walkAll g.roots, o.element ∈ ns := fun o ho => List.mem_map_of_mem ho
  have hfollows : Follows s.tree ns s := by
    refine ⟨.refl, hs, fun n hn => ?_⟩
    obtain ⟨o, ho, rfl⟩ := List.mem_map.mp hn
    exact helements o ho
  obtain ⟨_, s₁, h₁, hrest⟩ := yields_bind.mp h
  obtain ⟨_, s₂, h₂, h₃⟩ := yields_bind.mp hrest
  obtain ⟨hs₁, hgo₁⟩ := hfollows.leads (runCalls_leads .setup g.roots hns h₁)
  obtain ⟨hs₂, hgo₂⟩ := hs₁.leads (runCalls_leads .execute g.roots hns h₂)
  obtain ⟨hs₃, hgo₃⟩ := hs₂.leads (runCalls_leads .verify g.roots hns h₃)
  intro c hc p
  have hpasses : Passes env p c s s' := by
    cases p with
    | setup =>
      exact (runCalls_passes .setup g.roots s s₁ hns hfollows h₁ c hc).within
        ((refl_of Notes s).onward hs)
        (hgo₂.trans hgo₃)
    | execute => exact (runCalls_passes .execute g.roots s₁ s₂ hns hs₁ h₂ c hc).within hgo₁ hgo₃
    | verify =>
      exact (runCalls_passes .verify g.roots s₂ s' hns hs₂ h₃ c hc).within (hgo₁.trans hgo₂)
        ((refl_of Notes s').onward hs₃.2.1)
  obtain ⟨s₄, s₅, hgo₄, hy, hgo₅⟩ := hpasses
  cases c with
  | mk o cs =>
    have hwalk : ∀ o' ∈ Call.walk (.mk o cs), o'.element ∈ ns :=
      fun o' ho' => hns o' (Call.walkAll_of_drivenAll _ hc ho')
    have hfollows₄ : Follows s.tree ns s₄ := ⟨hgo₄.tree, hgo₄.sound, hfollows.2.2⟩
    have hcovered := runCall_covered hwalk hfollows₄ hy
    exact ⟨hgo₅.visits.subset hcovered.visited, s₄, s₅, hgo₄, hy, hgo₅, hcovered⟩

end Run

namespace Sample

/-- A table that executes `#r = 1`, with an assertion in the caption, one in the header, and one
row. -/
def captioned : Tree :=
  ⟨#[⟨.document, [1], .top, false⟩, ⟨.element "table" [], [2, 4, 7], .below 0, false⟩,
  ⟨.element "caption" [], [3], .below 1, false⟩, ⟨.text "2", [], .below 2, false⟩,
  ⟨.element "tr" [], [5], .below 1, false⟩, ⟨.element "th" [], [6], .below 4, false⟩,
  ⟨.text "R", [], .below 5, false⟩,
  ⟨.element "tr" [], [8], .below 1, false⟩, ⟨.element "td" [], [9], .below 7, false⟩,
  ⟨.text "1", [], .below 8, false⟩]⟩

theorem captioned_sound : captioned.Sound := Tree.sound_of_agrees rfl ⟨by decide, rfl⟩ (by decide)

/-- The call of the table. -/
def tabling : Occurrence := ⟨0, 0, 1, .execute, ⟨builtInNamespace, "execute"⟩, "#r = 1"⟩

/-- The assertion in the caption. -/
def captioning : Occurrence := ⟨1, 1, 2, .assertEquals, ⟨builtInNamespace, "assertequals"⟩, "#r"⟩

/-- The assertion in the header. -/
def heading : Occurrence := ⟨2, 2, 5, .assertEquals, ⟨builtInNamespace, "assertequals"⟩, "#r"⟩

/-- The calls of the table. -/
def captionedCalls : CallGraph := ⟨[.mk tabling [.mk captioning [], .mk heading []]]⟩

/-- How the run ends, and which calls it visits. -/
theorem captioned_run : (fun r => (r.1, r.2.visits.map fun v => v.2.id))
    ((Run.runGraph surroundings captionedCalls).result (start captioned)) =
      (.ok (), [0, 0, 2, 2, 2, 0]) := by decide +kernel

end Sample

/-- The table is driven, and so is the assertion in its header, at the cell of the row. -/
theorem Run.calls_driven_table : Sample.captioned.Sound ∧
    ∃ s', (runGraph Sample.surroundings Sample.captionedCalls).Yields
      (Sample.start Sample.captioned) () s' ∧
      ∀ c ∈ Call.drivenAll Sample.captioned Sample.captionedCalls.roots, ∀ p,
        (p, c.head) ∈ s'.visits := by
  have helements : ∀ o ∈ Sample.captionedCalls.walk,
      Sample.captioned.isElement o.element = true := by
    intro o ho
    have : o = Sample.tabling ∨ o = Sample.captioning ∨ o = Sample.heading := by
      simpa [CallGraph.walk, Sample.captionedCalls, Call.walk, Call.walkAll] using ho
    rcases this with rfl | rfl | rfl
    · rfl
    · rfl
    · rfl
  have hyields := yields_result (congrArg Prod.fst Sample.captioned_run)
  exact ⟨Sample.captioned_sound, _, hyields, fun c hc p =>
    (calls_driven (s := Sample.start Sample.captioned) Sample.captioned_sound helements
      hyields c hc p).1⟩

/-- The assertion in the caption is a call of the table, but a run that ends never comes to it,
neither there nor anywhere else. -/
theorem Run.caption_not_driven : Sample.captioning ∈ Sample.captionedCalls.walk ∧
    ∃ s', (runGraph Sample.surroundings Sample.captionedCalls).Yields
      (Sample.start Sample.captioned) () s' ∧
      ∀ v ∈ s'.visits, v.2.id ≠ Sample.captioning.id := by
  have hyields := yields_result (congrArg Prod.fst Sample.captioned_run)
  have hids :
      ((runGraph Sample.surroundings Sample.captionedCalls).result
        (Sample.start Sample.captioned)).2.visits.map
      (fun v => v.2.id) = [0, 0, 2, 2, 2, 0] := congrArg Prod.snd Sample.captioned_run
  refine ⟨by simp [CallGraph.walk, Sample.captionedCalls, Call.walk, Call.walkAll], _, hyields,
    fun v hv hid => ?_⟩
  have hmem := List.mem_map_of_mem (f := fun v : Phase × Occurrence => v.2.id) hv
  rw [hids, hid] at hmem
  revert hmem
  decide

end LiveSpec
