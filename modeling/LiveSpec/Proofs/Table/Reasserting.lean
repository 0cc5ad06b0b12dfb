import LiveSpec.Proofs.Run.Lockstep
import LiveSpec.Proofs.Table.Bystander
import LiveSpec.Proofs.Table.Covering
import LiveSpec.Proofs.Table.Exact
import LiveSpec.Proofs.Table.SlotUse
import LiveSpec.Proofs.Tree.Order
import LiveSpec.Proofs.Value.Confirming

/-!
# Matched rows are asserted again

A row is matched by the text of its cell in the key column, and then the commands of the header run
on it. If an `assertEquals` gave the key, it compares the text of the same cell once more, now by
the kind of the value.

Nothing that runs on the row comes between: the other calls pass by the cell (`runRow_passes`) and
keep their values in other slots (`runRow_uses`), so that the assertion meets the text that the row
was matched by (`runRow_asserts`). Neither do the other rows: the trace of the comparison is cut at
the item, and the items before and after it pass by the cell (`Matching.asserts`). So what is
recorded at the cell is settled by the value that the assertion finds where the run has come to it:
if that is displayed as the key, it is a success, unless it is the absent value.

The key column is the leftmost one with a command. So a row without a cell in it has no cell for any
command, and nothing runs on it.
-/

namespace LiveSpec

open Markup (NodeId Tree TreeError)
open TableLayout (cellsOf keyOf)

variable {φ : Type} {s s₀ s₁ s' : RunState φ}

/-- What a comparison of a value with a text comes to. -/
def Value.judged (v : Value) (text : String) : Outcome :=
  if v.confirms text then .success else .failure text v.describe

namespace Run

variable {env : Surroundings} {c c₀ o : Occurrence} {v : Value} {text key name : String}

/-! ## An assertion -/

/-- A report records its outcome, and touches neither the tree nor what is kept. -/
theorem report_spec {x : Recorded} {u : Unit} (h : (report env x).Yields s u s') :
    s'.tree = s.tree ∧ s'.kept = s.kept ∧ s'.visits = s.visits ∧
    s'.record.outcomes = s.record.outcomes ++ [x] := by
  obtain ⟨_, s₁, hnote, h₁⟩ := yields_bind.mp h
  obtain ⟨_, s₂, hspot, htell⟩ := yields_bind.mp h₁
  cases yields_modify.mp hnote
  obtain ⟨-, rfl⟩ := yields_look.mp hspot
  have heard := tell_overheard.keeps htell
  refine ⟨heard.tree.resolve_left (x.event_not_parsing _), heard.kept, heard.visits, ?_⟩
  rw [heard.record]
  exact Record.outcomes_add ..

section Asserting

variable [Fixture φ]

/-- An assertion evaluates its expression for its element and keeps the value, if there is one. -/
theorem assertEquals_execute (hfree : s.kept.lookup c.slot = none)
    (h : (assertEquals env c .execute).Yields s () s') :
    (∃ s₁, (evaluateAt env c.element c.expression).Yields s (s'.kept.lookup c.slot) s₁) ∧
      Evaluated c.element (s'.kept.lookup c.slot) s s' := by
  obtain ⟨v?, s₁, heval, hkeep⟩ := yields_bind.mp h
  have hspec := evaluateAt_spec heval
  cases v? with
  | some v =>
    cases yields_modify.mp hkeep
    have hlookup : ((c.slot, v) :: s₁.kept).lookup c.slot = some v := List.lookup_cons_self
    simp only [hlookup]
    exact ⟨⟨s₁, heval⟩, hspec.tree, hspec.visits, hspec.outcomes⟩
  | none =>
    obtain ⟨-, rfl⟩ := yields_pure.mp hkeep
    have hlookup : s'.kept.lookup c.slot = none := by rw [(evaluateAt_mute.keeps heval).kept, hfree]
    rw [hlookup]
    exact ⟨⟨s', heval⟩, hspec⟩

/-- An assertion compares the value that it kept with the text of its element. -/
theorem assertEquals_verify (h : (assertEquals env c .verify).Yields s () s') :
    s'.kept = s.kept ∧ ∀ v, s.kept.lookup c.slot = some v → s'.record.outcomes =
      s.record.outcomes ++ [⟨c.element, v.judged (Text.normal (s.tree.text c.element))⟩] := by
  obtain ⟨v?, s₁, hlookup, h₁⟩ := yields_bind.mp h
  obtain ⟨rfl, rfl⟩ := yields_kept?.mp hlookup
  cases hkept : s₁.kept.lookup c.slot with
  | none =>
    rw [hkept] at h₁
    obtain ⟨-, rfl⟩ := yields_pure.mp h₁
    exact ⟨rfl, nofun⟩
  | some v =>
    rw [hkept] at h₁
    obtain ⟨text, s₂, hlook, h₂⟩ := yields_bind.mp h₁
    obtain ⟨rfl, rfl⟩ := yields_look.mp hlook
    have hreport : (report env ⟨c.element, v.judged (Text.normal (s₂.tree.text c.element))⟩).Yields
        s₂ () s' := by
      unfold Value.judged
      dsimp only at h₂
      split at h₂
      · next hconfirms => exact (if_pos hconfirms).symm ▸ h₂
      · next hconfirms => exact (if_neg hconfirms).symm ▸ h₂
    obtain ⟨-, hsame, -, houtcomes⟩ := report_spec hreport
    refine ⟨hsame, fun w hw => ?_⟩
    cases hw
    exact houtcomes

end Asserting

/-! ## The assertion among the other calls of a row -/

/-- What the other calls of a row do, as far as one call of it is concerned. -/
structure Leaves (ns : List NodeId) (c : Occurrence) (s s' : RunState φ) : Prop where
  passes : PassesBy True ns c.element s s'
  uses : Uses (· ≠ c.slot) s s'

instance {ns : List NodeId} : IsPreorder (RunState φ) (Leaves ns c) where
  refl s := ⟨refl_of (PassesBy True ns c.element) s, refl_of (Uses (· ≠ c.slot)) s⟩
  trans _ _ _ h h' :=
    ⟨trans_of (PassesBy True ns c.element) h.passes h'.passes, trans_of (Uses _) h.uses h'.uses⟩

/-- What runs on a row before a call executes that binds nothing: all calls prepare, those that bind
variables execute, and then the others that come before it. -/
def ahead [Fixture φ] (env : Surroundings) (calls before : List Occurrence) : Run φ Unit := do
  calls.forM (stepAlone env .setup)
  (calls.filter fun o => o.command.binds).forM (stepAlone env .execute)
  (before.filter fun o => !o.command.binds).forM (stepAlone env .execute)

/-- What an assertion has found and recorded between two states, if it was evaluated in `s₀` and met
this text. -/
structure Asserted [Fixture φ] (env : Surroundings) (c : Occurrence) (text : String)
    (s₀ s s' : RunState φ) :
    Prop where
  /-- The slot keeps what the expression evaluates to for the element. -/
  evaluated : ∃ s₁ : RunState φ, (evaluateAt env c.element c.expression).Yields s₀
    (s'.kept.lookup c.slot) s₁
  judged (v : Value) : s'.kept.lookup c.slot = some v →
    s'.record.outcomesAt c.element = s.record.outcomesAt c.element ++ [v.judged text]

/-- Nothing was recorded at the element before. -/
theorem Asserted.after [Fixture φ] (h : Asserted env c text s₀ s₁ s')
    (hsame : s₁.record.outcomesAt c.element = s.record.outcomesAt c.element) :
    Asserted env c text s₀ s s' :=
  ⟨h.evaluated, fun v hv => hsame ▸ h.judged v hv⟩

/-- Nothing is recorded at the element later, and what was kept stays. -/
theorem Asserted.before [Fixture φ] (h : Asserted env c text s₀ s s₁)
    (hkept : s'.kept.lookup c.slot = s₁.kept.lookup c.slot)
    (hsame : s'.record.outcomesAt c.element = s₁.record.outcomesAt c.element) :
    Asserted env c text s₀ s s' :=
  ⟨hkept ▸ h.evaluated, fun v hv => hsame ▸ h.judged v (hkept ▸ hv)⟩

/-- Running through two lists is running through one after the other. -/
theorem yields_forM_append {xs ys : List Occurrence} {f : Occurrence → Run φ PUnit} {u : PUnit} :
    ((xs ++ ys).forM f).Yields s u s' ↔ ∃ s₁, (xs.forM f).Yields s ⟨⟩ s₁ ∧
      (ys.forM f).Yields s₁ u s' := by
  have happend : (xs ++ ys).forM f = xs.forM f >>= fun _ => ys.forM f := List.forM_append
  rw [happend, yields_bind]
  exact ⟨fun ⟨_, s₁, h, h'⟩ => ⟨s₁, h, h'⟩, fun ⟨s₁, h, h'⟩ => ⟨⟨⟩, s₁, h, h'⟩⟩

section Row

variable [Fixture φ] {ns : List NodeId} {before after : List Occurrence}

/-- Calls at other slots leave what a call has kept and recorded. -/
theorem others_leave {p : Phase} {os : List Occurrence}
    (hos : ∀ d ∈ os, d.element ∈ ns ∧ d.slot ≠ c.slot) :
    Keeps (Leaves ns c) (os.forM (stepAlone env p) : Run φ PUnit) :=
  .forM fun d hd _ _ _ h => ⟨stepAlone_passes (hos d hd).1 h,
    (stepAlone_uses (S := (· ≠ c.slot)) (hos d hd).2).keeps h⟩

/-- The run of a row, cut where one of its calls executes and where it compares. -/
theorem runRow_around (hbinds : c.command.binds = false)
    (hsetup : ∀ s, (part env c .setup : Run φ Unit).Yields s () s)
    (hothers : ∀ d ∈ before ++ after, d.element ∈ ns ∧ d.slot ≠ c.slot)
    (h : (runRow env (before ++ c :: after) (pure ())).Yields s () s') :
    ∃ s₁ s₂ s₃ s₄ s₅, (ahead env (before ++ c :: after) before).Yields s () s₁ ∧
      s₂ = { s₁ with visits := s₁.visits ++ [(.execute, c)] } ∧ Leaves ns c s s₂ ∧
      (part env c .execute).Yields s₂ () s₃ ∧ Leaves ns c s₃ s₄ ∧
      (part env c .verify).Yields s₄ () s₅ ∧ Leaves ns c s₅ s' := by
  have hbefore : ∀ d ∈ before, d.element ∈ ns ∧ d.slot ≠ c.slot :=
    fun d hd => hothers d (List.mem_append_left _ hd)
  have hafter : ∀ d ∈ after, d.element ∈ ns ∧ d.slot ≠ c.slot :=
    fun d hd => hothers d (List.mem_append_right _ hd)
  have hsome : ∀ (b : Occurrence → Bool) {os : List Occurrence},
      (∀ d ∈ os, d.element ∈ ns ∧ d.slot ≠ c.slot) →
      ∀ d ∈ os.filter b, d.element ∈ ns ∧ d.slot ≠ c.slot :=
    fun b _ hos d hd => hos d (List.mem_of_mem_filter hd)
  have hvisit :
      ∀ (s : RunState φ) p, Leaves ns c s { s with visits := s.visits ++ [(p, c)] } := fun s p =>
    ⟨visit_passes s p c, fun _ => rfl, Nat.le_refl _⟩
  obtain ⟨_, s₁, hsetups, hr₁⟩ := yields_bind.mp h
  obtain ⟨_, s₂, hbinding, hr₂⟩ := yields_bind.mp hr₁
  obtain ⟨_, s₃, hbetween, hr₃⟩ := yields_bind.mp hr₂
  obtain ⟨_, s₄, hexecute, hverify⟩ := yields_bind.mp hr₃
  obtain ⟨-, rfl⟩ := yields_pure.mp hbetween
  rw [List.filter_append, List.filter_cons_of_pos (by simp [hbinds])] at hexecute
  obtain ⟨s₅, h₅, hrest⟩ := yields_forM_append.mp hexecute
  have hahead : (ahead env (before ++ c :: after) before : Run φ Unit).Yields s () s₅ :=
    yields_bind.mpr ⟨_, s₁, hsetups, yields_bind.mpr ⟨_, s₃, hbinding, h₅⟩⟩
  have hleaves₁ : Leaves ns c s s₁ := by
    obtain ⟨s₆, h₆, h₇⟩ := yields_forM_append.mp hsetups
    obtain ⟨_, s₇, h₇, h₈⟩ := yields_bind.mp h₇
    rw [stepAlone_eq, yields_visit] at h₇
    cases h₇.symm.trans (hsetup _)
    exact trans_of (Leaves ns c) (others_leave hbefore h₆)
      (trans_of (Leaves ns c) (hvisit _ _) (others_leave hafter h₈))
  -- what binds variables executes first, and the call is not among it
  have hleaves₃ : Leaves ns c s₁ s₃ := by
    rw [List.filter_append, List.filter_cons_of_neg (by simp [hbinds]),
      ← List.filter_append] at hbinding
    exact others_leave (hsome _ hothers) hbinding
  obtain ⟨_, s₆, hown, h₆⟩ := yields_bind.mp hrest
  obtain ⟨s₇, h₇, hrest⟩ := yields_forM_append.mp hverify
  obtain ⟨_, s₈, hown', h₈⟩ := yields_bind.mp hrest
  rw [stepAlone_eq, yields_visit] at hown hown'
  refine ⟨s₅, _, s₆, _, s₈, hahead, rfl, ?_, hown, ?_, hown', others_leave hafter h₈⟩
  · exact trans_of (Leaves ns c) hleaves₁ (trans_of (Leaves ns c) hleaves₃
      (trans_of (Leaves ns c) (others_leave (hsome _ hbefore) h₅) (hvisit _ _)))
  · exact trans_of (Leaves ns c) (others_leave (hsome _ hafter) h₆)
      (trans_of (Leaves ns c) (others_leave hbefore h₇) (hvisit _ _))

/-- **An assertion on a row** meets the text that its cell has when the calls of the row begin, and
nothing else is recorded at the cell. -/
theorem runRow_asserts (hc : c.command = .assertEquals)
    (hothers : ∀ d ∈ before ++ after, d.element ∈ ns ∧ d.slot ≠ c.slot)
    (hby : Bystander True ns c.element s.tree) (hfree : s.kept.lookup c.slot = none)
    (h : (runRow env (before ++ c :: after) (pure ())).Yields s () s') :
    ∃ s₁, (ahead env (before ++ c :: after) before).Yields s () s₁ ∧
      Asserted env c (Text.normal (s.tree.text c.element))
      { s₁ with visits := s₁.visits ++ [(.execute, c)] } s s' := by
  have hpart : ∀ p, (part env c p : Run φ Unit) = assertEquals env c p := fun p => by
    unfold part
    rw [hc]
  have hsetup : ∀ s, (part env c .setup : Run φ Unit).Yields s () s := fun s => by
    rw [hpart]
    exact yields_pure.mpr ⟨rfl, rfl⟩
  obtain ⟨s₁, s₂, s₃, s₄, s₅, hahead, hvisited, hleaves₂, hexecute, hleaves₄, hverify, hleaves'⟩ :=
    runRow_around (by rw [hc]; rfl) hsetup hothers h
  rw [hpart] at hexecute hverify
  -- up to the comparison the cell is passed by
  have hpassed₂ := hleaves₂.passes hby
  obtain ⟨⟨s₆, heval⟩, hspec⟩ :=
    assertEquals_execute ((hleaves₂.uses.kept (· rfl)).trans hfree) hexecute
  have hby₃ : Bystander True ns c.element s₃.tree := by
    rw [hspec.tree]
    exact hby.next hpassed₂
  have hpassed₄ := hleaves₄.passes hby₃
  have htext : s₄.tree.text c.element = s.tree.text c.element := by
    have huntouched := hpassed₄.untouched trivial
    rw [hspec.tree] at huntouched
    have hsize :=
      Nat.le_trans hpassed₂.onward.tree.size_le (hspec.tree ▸ hpassed₄.onward.tree.size_le)
    exact hby.sound.text_eq hsize (hby.standing trivial)
      ((hpassed₂.untouched trivial).trans huntouched)
  have hnotes : Notes s₄ s₅ := .of_reports (assertEquals_reports.keeps hverify)
  have hpassed' := hleaves'.passes (hnotes.tree ▸ hby₃.next hpassed₄)
  -- the value is kept until the end
  obtain ⟨hkept, hjudged⟩ := assertEquals_verify hverify
  have hkept₄ : s₄.kept.lookup c.slot = s₃.kept.lookup c.slot := hleaves₄.uses.kept (· rfl)
  have hkept' : s'.kept.lookup c.slot = s₃.kept.lookup c.slot := by
    rw [hleaves'.uses.kept (· rfl), hkept, hkept₄]
  refine ⟨s₁, hahead, ⟨s₆, hvisited ▸ hkept' ▸ heval⟩, fun v hv => ?_⟩
  rw [hkept'] at hv
  have hsame₃ : s₃.record.outcomes = s₂.record.outcomes := by
    obtain ⟨xs, hxs, hnone⟩ := hspec.outcomes
    rw [hv] at hnone
    rw [hxs, hnone, List.append_nil]
  have hrecord₃ : s₃.record.outcomesAt c.element = s₂.record.outcomesAt c.element := by
    unfold Record.outcomesAt
    rw [hsame₃]
  rw [hpassed'.elsewhere.outcomesAt_eq, Record.outcomesAt_append (hjudged v (hkept₄.trans hv)),
    hpassed₄.elsewhere.outcomesAt_eq, hrecord₃, hpassed₂.elsewhere.outcomesAt_eq, htext]
  simp

end Row

/-! ## The key column -/

section Key

variable {t : Tree} {l : TableLayout} {row cell : NodeId} {k : Nat}
  {columns before after calls : List Occurrence}

/-- One step of the search for the key column: a command that stands farther left is better. -/
def leftmost (l : TableLayout) (t : Tree) (best : Option (Nat × Occurrence)) (o : Occurrence) :
    Except TreeError (Option (Nat × Occurrence)) := do
  match best, ← l.column? t o.element with
  | best, none => return best
  | none, some i => return some (i, o)
  | some (k, o'), some i => return if k ≤ i then some (k, o') else some (i, o)

/-- The key column is the leftmost one so far, column by column. -/
theorem keyColumn?_eq : l.keyColumn? t columns = columns.foldlM (leftmost l t) none := rfl

/-- A step keeps what it has or takes the command, and comes to neither anything farther right. -/
theorem leftmost_spec {best best' : Option (Nat × Occurrence)}
    (h : leftmost l t best o = .ok best') :
    (best' = best ∨ ∃ i, l.column? t o.element = .ok (some i) ∧ best' = some (i, o)) ∧
    ∀ k, (∀ x ∈ best', k ≤ x.1) → (∀ x ∈ best, k ≤ x.1) ∧
      ∀ j, l.column? t o.element = .ok (some j) → k ≤ j := by
  obtain ⟨i?, hcolumn, hchoice⟩ := Except.bind_eq_ok.mp h
  rw [hcolumn]
  split at hchoice
  · cases Except.pure_eq_ok.mp hchoice
    exact ⟨.inl rfl, fun k hk => ⟨hk, nofun⟩⟩
  · next i =>
    cases Except.pure_eq_ok.mp hchoice
    refine ⟨.inr ⟨i, rfl, rfl⟩, fun k hk => ⟨by simp, fun j hj => ?_⟩⟩
    cases hj
    exact hk (i, o) rfl
  · next k' o' i =>
    cases Except.pure_eq_ok.mp hchoice
    by_cases hle : k' ≤ i
    · rw [if_pos hle]
      refine ⟨.inl rfl, fun k hk => ⟨hk, fun j hj => ?_⟩⟩
      cases hj
      exact Nat.le_trans (hk (k', o') rfl) hle
    · rw [if_neg hle]
      refine ⟨.inr ⟨i, rfl, rfl⟩, fun k hk => ⟨fun x hx => ?_, fun j hj => ?_⟩⟩
      · cases hx
        exact Nat.le_trans (hk (i, o) rfl) (Nat.le_of_not_le hle)
      · cases hj
        exact hk (i, o) rfl

/-- The command that gives the key stands in the key column. -/
theorem keyColumn?_spec (h : l.keyColumn? t columns = .ok (some (k, c))) :
    l.column? t c.element = .ok (some k) := by
  rw [keyColumn?_eq] at h
  refine Except.foldlM_keeps (f := leftmost l t)
    (P := fun best => ∀ i d, best = some (i, d) → l.column? t d.element = .ok (some i))
    (fun {best d best'} hbest hstep i e he => ?_) (fun i d he => absurd he (by simp)) h k c rfl
  rcases (leftmost_spec hstep).1 with rfl | ⟨j, hj, rfl⟩
  · exact hbest i e he
  · cases he
    exact hj

/-- What a search comes to is no farther right than what it starts with, and than any command. -/
theorem foldlM_leftmost_le {best : Option (Nat × Occurrence)}
    (h : columns.foldlM (leftmost l t) best = .ok (some (k, c))) :
    (∀ x ∈ best, k ≤ x.1) ∧ ∀ d ∈ columns, ∀ j, l.column? t d.element = .ok (some j) → k ≤ j := by
  induction columns generalizing best with
  | nil =>
    cases Except.pure_eq_ok.mp h
    refine ⟨fun x hx => ?_, List.forall_mem_nil _⟩
    cases hx
    exact Nat.le_refl _
  | cons d columns ih =>
    rw [List.foldlM_cons] at h
    obtain ⟨best', hstep, hrest⟩ := Except.bind_eq_ok.mp h
    obtain ⟨hbest', hall⟩ := ih hrest
    obtain ⟨hbest, hhere⟩ := (leftmost_spec hstep).2 k hbest'
    refine ⟨hbest, fun e he j hj => ?_⟩
    rcases List.mem_cons.mp he with rfl | he
    · exact hhere j hj
    · exact hall e he j hj

/-- The key column is the leftmost one with a command. -/
theorem keyColumn?_le (h : l.keyColumn? t columns = .ok (some (k, c))) {d : Occurrence}
    (hd : d ∈ columns) {j : Nat} (hj : l.column? t d.element = .ok (some j)) :
    k ≤ j := (foldlM_leftmost_le h).2 d hd j hj

/-- A row without a cell in the key column has no cell for any command. -/
theorem inRow_keyless {placed : List (Occurrence × NodeId)} (h : l.inRow t columns row = .ok placed)
    (hkey : l.keyColumn? t columns = .ok (some (k, c))) (hcell : (cellsOf t row)[k]? = none) :
    placed = [] := by
  refine List.eq_nil_iff_forall_not_mem.mpr fun x hx => ?_
  obtain ⟨hmem, ⟨j, hj, hget⟩⟩ := (Tree.mem_inRow h).mp hx
  have hlt : j < (cellsOf t row).length := (List.getElem?_eq_some_iff.mp hget).1
  exact Nat.not_le.mpr hlt (Nat.le_trans (List.getElem?_eq_none_iff.mp hcell)
    (keyColumn?_le hkey hmem hj))

/-- Of the commands of a row, one that is alone in its column stands at a cell of its own. -/
theorem inRow_sole {placed : List (Occurrence × NodeId)}
    (h : l.inRow t (before ++ c :: after) row = .ok placed) (hnodup : (cellsOf t row).Nodup)
    (hcolumn : l.column? t c.element = .ok (some k)) (hcell : (cellsOf t row)[k]? = some cell)
    (hsole : ∀ d ∈ before ++ after, l.column? t d.element ≠ .ok (some k)) :
    ∃ placed₁ placed₂, placed = placed₁ ++ (c, cell) :: placed₂ ∧
      ∀ x ∈ placed₁ ++ placed₂, x.2 ≠ cell := by
  obtain ⟨-, found, rfl, hfound⟩ := Tree.inRow_eq_ok.mp h
  rw [List.mapM_append] at hfound
  obtain ⟨found₁, h₁, hfound⟩ := Except.bind_eq_ok.mp hfound
  obtain ⟨found', h', hfound⟩ := Except.bind_eq_ok.mp hfound
  rw [List.mapM_cons] at h'
  obtain ⟨y, hy, h'⟩ := Except.bind_eq_ok.mp h'
  obtain ⟨found₂, h₂, h'⟩ := Except.bind_eq_ok.mp h'
  cases Except.pure_eq_ok.mp h'
  cases Except.pure_eq_ok.mp hfound
  obtain ⟨i?, hi, rfl⟩ := Tree.placed_eq_ok.mp hy
  cases Except.ok.inj (hcolumn.symm.trans hi)
  -- the other commands stand in other columns, and so at other cells
  have hother : ∀ {os : List Occurrence} {ys : List (Option (Occurrence × NodeId))},
      (∀ d ∈ os, d ∈ before ++ after) →
      os.mapM (fun o => do return ((← l.column? t o.element).bind fun i =>
        (cellsOf t row)[i]?).map fun cell => (o, cell) :
        Occurrence → Except TreeError _) = .ok ys → ∀ x ∈ ys.filterMap id, x.2 ≠ cell := by
    intro os ys hsub hys x hx he
    obtain ⟨y, hymem, hyx⟩ := List.mem_filterMap.mp hx
    obtain ⟨d, hd, hplaced⟩ := Except.exists_of_mapM hys hymem
    obtain ⟨j?, hj, rfl⟩ := Tree.placed_eq_ok.mp hplaced
    obtain ⟨cell', hcell', rfl⟩ := Option.map_eq_some_iff.mp hyx
    obtain ⟨j, rfl, hget⟩ := Option.bind_eq_some_iff.mp hcell'
    cases he
    have hlt : j < (cellsOf t row).length := (List.getElem?_eq_some_iff.mp hget).1
    exact hsole d (hsub d hd) ((List.getElem?_inj hlt hnodup).mp (hget.trans hcell.symm) ▸ hj)
  refine ⟨found₁.filterMap id, found₂.filterMap id, by simp [hcell], fun x hx => ?_⟩
  rcases List.mem_append.mp hx with hx | hx
  · exact hother (fun d hd => List.mem_append_left _ hd) h₁ x hx
  · exact hother (fun d hd => List.mem_append_right _ hd) h₂ x hx

/-- What is moved to the cells of a row has its own place among the calls. -/
theorem moved_sole {placed₁ placed₂ : List (Occurrence × NodeId)}
    (h : List.Forall₂ (fun x c => Moved x.1 x.2 c) (placed₁ ++ (c₀, cell) :: placed₂) calls)
    (hothers : ∀ x ∈ placed₁ ++ placed₂, x.2 ≠ cell) :
    ∃ calls₁ c calls₂, calls = calls₁ ++ c :: calls₂ ∧ Moved c₀ cell c ∧
      ∀ d ∈ calls₁ ++ calls₂, d.element ≠ cell := by
  induction placed₁ generalizing calls with
  | nil =>
    obtain ⟨c, calls₂, hc, hrest, rfl⟩ := List.forall₂_cons_left_iff.mp h
    refine ⟨[], c, calls₂, rfl, hc, fun d hd => ?_⟩
    obtain ⟨x, hx, hmoved⟩ := exists_left_of_mem hrest hd
    rw [show d.element = x.2 from congrArg Occurrence.element hmoved]
    exact hothers x hx
  | cons x placed₁ ih =>
    obtain ⟨d, rest, hd, hrest, rfl⟩ := List.forall₂_cons_left_iff.mp h
    obtain ⟨calls₁, c, calls₂, rfl, hc, hall⟩ :=
      ih hrest fun y hy => hothers y (List.mem_cons_of_mem x hy)
    refine ⟨d :: calls₁, c, calls₂, rfl, hc, fun e he => ?_⟩
    rcases List.mem_cons.mp he with rfl | he
    · rw [show e.element = x.2 from congrArg Occurrence.element hd]
      exact hothers x List.mem_cons_self
    · exact hall e he

end Key

/-- Says that the key column of a table holds one command, an assertion. -/
structure KeyAssertion (t : Tree) (l : TableLayout) (columns : List Occurrence) (k : Nat)
    (c : Occurrence) : Prop where
  key : l.keyColumn? t columns = .ok (some (k, c))
  command : c.command = .assertEquals
  sole : ∃ before after, columns = before ++ c :: after ∧
    ∀ d ∈ before ++ after, l.column? t d.element ≠ .ok (some k)

/-- The only column of a header is the key column if it is one. -/
theorem KeyAssertion.only {t : Tree} {l : TableLayout} {k : Nat}
    (hkey : l.keyColumn? t [c] = .ok (some (k, c))) (hcommand : c.command = .assertEquals) :
    KeyAssertion t l [c] k c :=
  ⟨hkey, hcommand, [], [], rfl, fun _ hd => absurd hd List.not_mem_nil⟩

section Matched

variable [Fixture φ] {t₀ : Tree} {l : TableLayout} {table row cell : NodeId} {k : Nat}
  {columns calls : List Occurrence} {spared : List NodeId}

/-- The cell that the assertion of the key column is moved to is a bystander of the other calls of
the row. -/
theorem bystander_cell {t : Tree} {cs : List Occurrence} (ht : t.Sound) (hrow : t.Standing row)
    (hcell : cell ∈ cellsOf t row) (hcs : ∀ c ∈ cs, c.element ∈ cellsOf t row ∧ c.element ≠ cell) :
    Bystander True (cs.map Occurrence.element) cell t := by
  obtain ⟨hchild, -, hkind⟩ := TableLayout.mem_cellsOf.mp hcell
  have hstanding := hrow.child hchild
  have hcells : ∀ {m}, m ∈ cs.map Occurrence.element → m ∈ cellsOf t row ∧ m ≠ cell := by
    intro m hm
    obtain ⟨c, hc, rfl⟩ := List.mem_map.mp hm
    exact hcs c hc
  refine ⟨ht, fun hm => (TableLayout.mem_cellsOf.mp (hcells hm).1).2.1, ht.standing_lt hstanding,
    TableLayout.not_row_of_isCell hkind, fun hm => (hcells hm).2 rfl, fun _ => hstanding,
    fun {m} _ hm => ?_⟩
  have hm' := (TableLayout.mem_cellsOf.mp (hcells hm).1).1
  refine ⟨fun hu => (hcells hm).2 ?_, fun hu => (hcells hm).2 ?_⟩
  · exact (ht.branch_unique (hrow.child hm') hchild hm' hu .self).symm
  · exact ht.branch_unique hstanding hm' hchild hu .self

/-- What has become of the assertion of the key column on a matched row whose calls start to run in
`s₀`: it is one of these calls, stands at the cell, was evaluated after what runs ahead of it, and
met the key for a text. -/
def Reasserted (env : Surroundings) (c₀ : Occurrence) (key : String) (cell : NodeId)
    (calls : List Occurrence) (s₀ s s' : RunState φ) : Prop :=
  ∃ before c after s₁, calls = before ++ c :: after ∧ Moved c₀ cell c ∧
    (ahead env calls before).Yields
      { s₀ with held := calls.map Occurrence.element ++ s₀.held } () s₁ ∧
    Asserted env c key { s₁ with visits := s₁.visits ++ [(.execute, c)] } s s'

/-- What is done before without an outcome at the cell does not matter. -/
theorem Reasserted.after (h : Reasserted env c₀ key cell calls s₀ s₁ s')
    (hsame : s₁.record.outcomesAt cell = s.record.outcomesAt cell) :
    Reasserted env c₀ key cell calls s₀ s s' := by
  obtain ⟨before, c, after, s₂, hcalls, hmove, hahead, hasserted⟩ := h
  have helement : c.element = cell := congrArg Occurrence.element hmove
  exact ⟨before, c, after, s₂, hcalls, hmove, hahead, hasserted.after (helement ▸ hsame)⟩

/-- Nor does what is done later without one, and without another value kept. -/
theorem Reasserted.before (h : Reasserted env c₀ key cell calls s₀ s s₁)
    (hkept : ∀ c ∈ calls, s'.kept.lookup c.slot = s₁.kept.lookup c.slot)
    (hsame : s'.record.outcomesAt cell = s₁.record.outcomesAt cell) :
    Reasserted env c₀ key cell calls s₀ s s' := by
  obtain ⟨before, c, after, s₂, hcalls, hmove, hahead, hasserted⟩ := h
  have helement : c.element = cell := congrArg Occurrence.element hmove
  have hmem : c ∈ calls := hcalls ▸ List.mem_append_right _ List.mem_cons_self
  exact ⟨before, c, after, s₂, hcalls, hmove, hahead,
    hasserted.before (hkept c hmem) (helement ▸ hsame)⟩

/-- A table is none of its own cells. -/
theorem table_ne_cell (ht : t₀.Sound) (hrow : t₀.Found table "tr" row)
    (hcell : cell ∈ cellsOf t₀ row) : table ≠ cell := fun he =>
  ht.not_under_child hrow.standing (TableLayout.mem_cellsOf.mp hcell).1 (he ▸ hrow.under)

omit [Fixture φ] in
/-- A row that shows a key stands, and has the cells that it had at the start. -/
theorem row_shown (hpass : Passing spared t₀ s.tree) (ht : t₀.Sound)
    (hfound : ∀ x ∈ spared, t₀.Found table "tr" x) (hrow : row ∈ spared)
    (hshows : TableLayout.keyText s.tree k row = .ok key) :
    s.tree.Standing row ∧ cellsOf s.tree row = cellsOf t₀ row ∧ keyOf s.tree k row = key := by
  obtain ⟨hlive, hkey⟩ := TableLayout.keyText_eq_ok.mp hshows
  have hlt := Nat.lt_of_lt_of_le (ht.standing_lt (hfound row hrow).standing) hpass.onward.size_le
  have hstanding := (hpass.sound.isLive_iff hlt).mp hlive
  exact ⟨hstanding, hpass.cells hrow hstanding, hkey.symm⟩

/-- **The assertion of the key column runs on the row** that was matched, and meets the text that
the row was matched by. -/
theorem row_asserts (hpass : Passing spared t₀ s.tree) (ht : t₀.Sound)
    (hfound : ∀ x ∈ spared, t₀.Found table "tr" x) (hheader : l.header ∈ spared)
    (hrow : row ∈ spared) (hcolumns : ∀ o ∈ columns, o.element < t₀.nodes.size)
    (hkey : KeyAssertion t₀ l columns k c₀) (hcell : (cellsOf t₀ row)[k]? = some cell)
    (hslots : s.SlotsFree) (hshows : TableLayout.keyText s.tree k row = .ok key)
    (hmoved : (retarget l columns row).Yields s calls s₁)
    (hran : (holding (calls.map Occurrence.element) (runRow env calls (pure ()))).Yields s₁ () s') :
    Reasserted env c₀ key cell calls s₁ s s' := by
  obtain ⟨hkept, hnodup, hfresh⟩ := retarget_fresh hmoved
  obtain ⟨hquiet, placed, hplaced, hall⟩ := retarget_spec hmoved
  obtain ⟨s₂, hrun, htidy⟩ := yields_holding.mp hran
  have htidied := tidied_of_tidy htidy
  obtain ⟨hstanding, hcells, hkeyOf⟩ := row_shown hpass ht hfound hrow hshows
  have hplaced₀ := hpass.inRow ht (fun x hx => (hfound x hx).standing) hheader hrow hcolumns hplaced
  obtain ⟨before, after, rfl, hsole⟩ := hkey.sole
  obtain ⟨placed₁, placed₂, rfl, hothers⟩ :=
    inRow_sole hplaced₀ (((ht.nodup row).filter _).filter _)
    (keyColumn?_spec hkey.key) hcell hsole
  obtain ⟨calls₁, c, calls₂, rfl, hmove, hapart⟩ := moved_sole hall hothers
  have helement : c.element = cell := congrArg Occurrence.element hmove
  have hcommand : c.command = .assertEquals :=
    (congrArg Occurrence.command hmove).trans hkey.command
  have hmem : c ∈ calls₁ ++ c :: calls₂ := List.mem_append_right _ List.mem_cons_self
  rw [← hcells] at hcell
  have hcellmem : cell ∈ cellsOf s.tree row := List.mem_of_getElem? hcell
  have hother : ∀ d ∈ calls₁ ++ calls₂, d ∈ calls₁ ++ c :: calls₂ := fun d hd =>
    (List.perm_middle.mem_iff).mpr (List.mem_cons_of_mem c hd)
  have hby : Bystander True ((calls₁ ++ calls₂).map Occurrence.element) c.element s₁.tree := by
    rw [hquiet.tree, helement]
    exact bystander_cell hpass.sound hstanding hcellmem fun d hd =>
      ⟨cell_of_moved hplaced hall (hother d hd), hapart d hd⟩
  have hslot : ∀ d ∈ calls₁ ++ calls₂, d.slot ≠ c.slot := fun d hd he => by
    have hperm : (c :: (calls₁ ++ calls₂)).map Occurrence.slot |>.Nodup :=
      (List.perm_middle.map Occurrence.slot).nodup_iff.mp hnodup
    exact (List.nodup_cons.mp hperm).1 (he ▸ List.mem_map_of_mem hd)
  have hfree : s₁.kept.lookup c.slot = none := by
    rw [hkept]
    exact hslots c.slot (hfresh c hmem).1
  obtain ⟨s₃, hahead, hasserted⟩ :=
    runRow_asserts
      (s := { s₁ with held := (calls₁ ++ c :: calls₂).map Occurrence.element ++ s₁.held })
      hcommand (fun d hd => ⟨List.mem_map_of_mem hd, hslot d hd⟩) hby hfree hrun
  -- the text of the cell is the key
  have htext : Text.normal (s₁.tree.text c.element) = key := by
    rw [← hkeyOf, hquiet.tree, helement]
    unfold keyOf
    rw [hcell, Option.map_some, Option.getD_some]
  rw [htext] at hasserted
  have hrecord : s₁.record.outcomesAt c.element = s.record.outcomesAt c.element := by
    rw [hquiet.record]
  have hmute : Mute { s₂ with held := s₁.held } s' := tidy_mute.keeps htidy
  exact ⟨calls₁, c, calls₂, s₃, rfl, hmove, hahead,
    (hasserted.after hrecord).before (by rw [hmute.kept]) (by rw [htidied.record])⟩

omit [Fixture φ] in
/-- On a row without a cell in the key column nothing runs, and its key is empty. -/
theorem row_keyless {c : Occurrence} (hpass : Passing spared t₀ s.tree) (ht : t₀.Sound)
    (hfound : ∀ x ∈ spared, t₀.Found table "tr" x) (hheader : l.header ∈ spared)
    (hrow : row ∈ spared) (hcolumns : ∀ o ∈ columns, o.element < t₀.nodes.size)
    (hkey : l.keyColumn? t₀ columns = .ok (some (k, c))) (hcell : (cellsOf t₀ row)[k]? = none)
    (hshows : TableLayout.keyText s.tree k row = .ok key)
    (hmoved : (retarget l columns row).Yields s calls s₁) : key = "" ∧ calls = [] := by
  obtain ⟨-, hcells, hkeyOf⟩ := row_shown hpass ht hfound hrow hshows
  obtain ⟨-, placed, hplaced, hall⟩ := retarget_spec hmoved
  have hplaced₀ := hpass.inRow ht (fun x hx => (hfound x hx).standing) hheader hrow hcolumns hplaced
  cases inRow_keyless hplaced₀ hkey hcell
  cases hall
  refine ⟨?_, rfl⟩
  rw [← hkeyOf]
  unfold keyOf
  rw [hcells, hcell, Option.map_none, Option.getD_none]

/-- The cell of a row that other rows are taken from is passed by. -/
theorem Matching.passes_cell {items : List Value} {free left : List NodeId} {last : NodeId}
    {fates : List Fate} {key? : Option (Nat × Occurrence)}
    (h : Matching env (fun calls => runRow env calls (pure ())) o columns name l key? items s free
      last fates left s')
    (ht : t₀.Sound) (hpass : Passing spared t₀ s.tree)
    (hfound : ∀ x ∈ free, t₀.Found o.element "tr" x) (hrow : t₀.Found o.element "tr" row)
    (hnot : row ∉ fates.filterMap Fate.taken?) (hcell : cell ∈ cellsOf t₀ row)
    (hlast : last < s.tree.nodes.size) : s'.record.outcomesAt cell = s.record.outcomesAt cell := by
  have htaken : ∀ r ∈ fates.filterMap Fate.taken?, r < t₀.nodes.size := fun r hr =>
    ht.standing_lt (hfound r (h.taken_subset hr)).standing
  have hoff := offRows_cell ht hpass.onward hpass.sound hcell htaken hnot hlast
  exact (h.passes (table_ne_cell ht hrow hcell) hoff).elsewhere.outcomesAt_eq

/-- **Each matched row is asserted again** if it has a cell in the key column, and what the other
rows do makes no difference to it. A row without such a cell has an empty key, and nothing runs on
it. -/
theorem Matching.asserts {items : List Value} {free left : List NodeId} {last : NodeId}
    {fates : List Fate} {i : Nat}
    (h : Matching env (fun calls => runRow env calls (pure ())) o columns name l (some (k, c₀))
      items s free last fates left s')
    (ht : t₀.Sound) (hfound : ∀ x ∈ l.header :: free, t₀.Found o.element "tr" x)
    (hnodup : (l.header :: free).Nodup) (hcolumns : ∀ o ∈ columns, o.element < t₀.nodes.size)
    (hlast : last < s.tree.nodes.size) (hpass : Passing (l.header :: free) t₀ s.tree)
    (hkey : KeyAssertion t₀ l columns k c₀) (hslots : s.SlotsFree)
    (hat : fates[i]? = some (.shown key row calls)) :
    ∃ item free₁ s₁ s₂ s₃ s₄, items[i]? = some item ∧
      Matching env (fun calls => runRow env calls (pure ())) o columns name l (some (k, c₀))
        (items.take i) s free last (fates.take i) free₁ s₁ ∧
      (askKey env o.element name (some (k, c₀)) item).Yields s₁ (some key) s₂ ∧
      (retarget l columns row).Yields s₂ calls s₃ ∧
      (holding (calls.map Occurrence.element) (runRow env calls (pure ()))).Yields s₃ () s₄ ∧
      (∀ c ∈ calls, ∀ p, (p, c) ∈ s'.visits) ∧
      (∀ cell, (cellsOf t₀ row)[k]? = some cell → Reasserted env c₀ key cell calls s₃ s s') ∧
      ((cellsOf t₀ row)[k]? = none → key = "" ∧ calls = []) := by
  obtain ⟨item, free₁, others, last₁, s₁, s₂, s₃, s₄, hitem, hfirst, hlast₁, hasked, htaken, hmoved,
    hran, hrest⟩ :=
    h.shown_at hat
  -- the items before it pass over the table
  have hpassedOver := hfirst.passedOver ht hfound hnodup hcolumns hlast hpass
  have hleft : free₁ ⊆ free := hfirst.left_subset
  have hfound₁ : ∀ x ∈ l.header :: free₁, t₀.Found o.element "tr" x := fun x hx =>
    hfound x (List.cons_subset_cons _ hleft hx)
  have hask := askKey_spec hasked
  have hpass₂ : Passing (l.header :: free₁) t₀ s₂.tree := hask.tree ▸ hpassedOver.passing
  have hlast₂ : last₁ < s₂.tree.nodes.size := by
    rw [hask.tree]
    rcases hlast₁ with rfl | ⟨key', hmem⟩
    · exact Nat.lt_of_lt_of_le hlast hpassedOver.onward.tree.size_le
    · exact hpassedOver.added hmem
  have hslots₂ : s₂.SlotsFree := (hslots.next hfirst.uses).next (.mute (askKey_mute.keeps hasked))
  -- then the row is taken, and passed over too
  obtain ⟨hperm, hsublist, hshows⟩ := htaken.some
  obtain ⟨hnodup₁, hbefore⟩ := hfirst.nodup_left hnodup
  have hnodupRow : (row :: l.header :: others).Nodup :=
    ((hperm.cons l.header).trans (.swap ..)).nodup_iff.mp hnodup₁
  obtain ⟨hnot, hnodupOthers⟩ := List.nodup_cons.mp hnodupRow
  have hmem₁ : row ∈ free₁ := hperm.mem_iff.mpr List.mem_cons_self
  have hrow : row ∈ l.header :: free₁ := List.mem_cons_of_mem _ hmem₁
  have hsub : ∀ x ∈ l.header :: others, x ∈ l.header :: free₁ :=
    (hsublist.cons_cons l.header).subset
  obtain ⟨hgo, hpass₄, -⟩ :=
    passing_row hpass₂ ht hfound₁ List.mem_cons_self hrow hcolumns hsub hnot .pure hmoved hran
  have hlast₄ := Nat.lt_of_lt_of_le hlast₂ hgo.tree.size_le
  have hspared := row_spares hpass₂.sound .pure hmoved hran
  have hlater := hrest.passedOver ht (fun x hx => hfound₁ x (hsub x hx)) hnodupOthers hcolumns
    hlast₄ hpass₄
  refine ⟨item, free₁, s₁, s₂, s₃, s₄, hitem, hfirst, hasked, hmoved, hran,
    fun c hc p => hlater.onward.visits.subset (hspared.visited c hc p), fun cell hcell => ?_,
    fun hcell => ?_⟩
  · have hcellmem : cell ∈ cellsOf t₀ row := List.mem_of_getElem? hcell
    have hfoundRow := hfound₁ row hrow
    have hfirstSame : s₁.record.outcomesAt cell = s.record.outcomesAt cell :=
      hfirst.passes_cell ht hpass (fun x hx => hfound x (List.mem_cons_of_mem _ hx)) hfoundRow
        (hbefore row hmem₁) hcellmem hlast
    have hrestSame : s'.record.outcomesAt cell = s₄.record.outcomesAt cell :=
      hrest.passes_cell ht hpass₄
        (fun x hx => hfound₁ x (hsub x (List.mem_cons_of_mem _ hx))) hfoundRow
        (fun hmem => hnot (List.mem_cons_of_mem _ (hrest.taken_subset hmem))) hcellmem hlast₄
    have htable := table_ne_cell ht hfoundRow hcellmem
    have haskSame := (hask.adds.mono fun x hx he => htable (hx.symm.trans he)).outcomesAt_eq
    have hslot : ∀ c ∈ calls, c.slot < s₄.nextSlot := fun c hc => by
      have hmore : Uses (fun _ => True) s₃ s₄ :=
        (holding_always (fun h _ _ => .mute h) (runRow_uses fun _ _ => trivial)).keeps hran
      exact Nat.lt_of_lt_of_le ((retarget_fresh hmoved).2.2 c hc).2 hmore.nextSlot
    have hasserted := row_asserts hpass₂ ht hfound₁ List.mem_cons_self hrow hcolumns hkey hcell
      hslots₂ hshows hmoved hran
    exact (hasserted.before (fun c hc => hrest.uses.kept_eq (hslot c hc)) hrestSame).after
      (haskSame.trans hfirstSame)
  · exact row_keyless hpass₂ ht hfound₁ List.mem_cons_self hrow hcolumns hkey.key hcell hshows
      hmoved

/-- How an item takes its row in a comparison: the items before it lead to `s₁`, where the key is
what the expression of the key column comes to for the item; then the commands of the header are
moved to the row, and from `s₃` on they run there. -/
structure TakesRow (env : Surroundings) (o : Occurrence) (columns : List Occurrence) (name : String)
    (items : List Value) (a : Reconciliation) (c₀ : Occurrence) (s : RunState φ) (i : Nat)
    (key : String) (row : NodeId) (calls : List Occurrence) (s₁ s₂ s₃ : RunState φ) : Prop where
  comes : ComesTo env (fun calls => runRow env calls (pure ())) o columns name items a s i s₁
  asked : ∃ item v, items[i]? = some item ∧ key = Text.normal v.display ∧
    (do bindVariable name item; evaluateAt env o.element c₀.expression : Run φ (Option Value)).Yields
      s₁ (some v) s₂
  moved : (retarget a.layout columns row).Yields s₂ calls s₃
  ran : ∃ s₄, (holding (calls.map Occurrence.element) (runRow env calls (pure ()))).Yields s₃ () s₄

/-- A key that was asked for is what the expression of the key column comes to once the loop
variable is bound. -/
theorem asked_of_askKey {table : NodeId} {item : Value} {s₂ : RunState φ}
    (h : (askKey env table name (some (k, c₀)) item).Yields s (some key) s₂) :
    ∃ v, key = Text.normal v.display ∧
      (do bindVariable name item; evaluateAt env table c₀.expression : Run φ (Option Value)).Yields
        s (some v) s₂ := by
  obtain ⟨_, s₁, hbind, hitem⟩ := yields_bind.mp h
  obtain ⟨v?, s₃, heval, hpure⟩ := yields_bind.mp hitem
  obtain ⟨hdisplay, rfl⟩ := yields_pure.mp hpure
  obtain ⟨v, rfl, hv⟩ := Option.map_eq_some_iff.mp hdisplay.symm
  exact ⟨v, hv.symm, yields_bind.mpr ⟨_, s₁, hbind, heval⟩⟩

/-- A whole comparison asserts each matched row again, what it does with the rows left over
included. -/
theorem reconcile_asserts {items : List Value} {a : Reconciliation} {i : Nat}
    (h : (reconcile env (fun calls => runRow env calls (pure ())) o columns name
      items).Yields s a s')
    (hs : s.tree.Sound) (ho : s.tree.isElement o.element = true)
    (hcolumns : ∀ c ∈ columns, s.tree.isElement c.element = true) (hslots : s.SlotsFree)
    (hkey : KeyAssertion s.tree a.layout columns k c₀)
    (hat : a.fates[i]? = some (.shown key row calls)) :
    ∃ s₁ s₂ s₃, TakesRow env o columns name items a c₀ s i key row calls s₁ s₂ s₃ ∧
      (∀ c ∈ calls, ∀ p, (p, c) ∈ s'.visits) ∧
      (∀ cell, (cellsOf s.tree row)[k]? = some cell → Reasserted env c₀ key cell calls s₃ s s') ∧
      ((cellsOf s.tree row)[k]? = none → key = "" ∧ calls = []) := by
  obtain ⟨key?, s₅, s₆, hlayout, hcolumn, -, hmatching, hsurplus, htidy⟩ := reconcile_parts h
  cases Except.ok.inj (hkey.key.symm.trans hcolumn)
  obtain ⟨-, hnodup, hfound⟩ := hs.layout_spec (Tree.lt_size_of_isElement ho) hlayout
  have hlast := hfound _ (List.getLastD_mem_cons (l := a.layout.rows) (a := a.layout.header))
  obtain ⟨item, free₁, s₁, s₂, s₃, s₄, hitem, hfirst, hasked, hmoved, hran, hvisited, hasserts,
    hkeyless⟩ :=
    hmatching.asserts hs hfound hnodup (fun c hc => Tree.lt_size_of_isElement (hcolumns c hc))
      (hs.standing_lt hlast.standing) (.start hs) hkey hslots hat
  obtain ⟨v, hv, hevaluated⟩ := asked_of_askKey hasked
  have hmute : Mute { s₆ with held := s.held } s' := tidy_mute.keeps htidy
  have htidied := tidied_of_tidy htidy
  refine ⟨s₁, s₂, s₃, ⟨⟨_, free₁, hcolumn, hfirst.yields⟩, ⟨item, v, hitem, hv, hevaluated⟩,
    hmoved, s₄, hran⟩,
    fun c hc p => ?_, fun cell hcell => ?_, hkeyless⟩
  · rw [htidied.visits]
    exact (recordSurplus_notes hsurplus).visits.subset (hvisited c hc p)
  · -- the cell is no row, so it is not left over
    have hnot : cell ∉ a.surplus := fun hc => by
      have hrow := (hfound cell (List.mem_cons_of_mem _ (hmatching.left_subset hc))).isRow
      rw [TableLayout.not_row_of_isCell (TableLayout.mem_cellsOf.mp
        (List.mem_of_getElem? hcell)).2.2] at hrow
      cases hrow
    have hadds := (recordSurplus_adds hsurplus).mono fun x hx (he : x.element = cell) =>
      hnot (he ▸ hx)
    have hmatched : Reasserted env c₀ key cell calls s₃ s s₅ := (hasserts cell hcell).after rfl
    have hreasserted := hmatched.before
      (fun c _ => by rw [(recordSurplus_mute.keeps hsurplus).kept]) hadds.outcomesAt_eq
    exact hreasserted.before (fun c _ => by rw [hmute.kept]) (by rw [htidied.record])

/-- **Row keys and assertions agree.** What is displayed as a text is confirmed by it, the absent
value apart. So when the comparing phase of a `verifyRows` ends whose key column holds one command,
an assertion, each row that was matched to an item and has a cell in the key column has had this
assertion at this cell, in all its phases: it was evaluated where the run of the row had come to it,
and if the value is again displayed as the key, a success is recorded at the cell, or a failure for
the absent value, and nothing else. A row without such a cell was matched by the empty key, and no
call ran on it. -/
theorem matched_rows_reasserted {inside : List Call} {sequence : String} {items : List Value}
    (hs : s.tree.Sound) (ho : s.tree.isElement o.element = true)
    (hinside : ∀ c ∈ inside, s.tree.isElement c.head.element = true) (hslots : s.SlotsFree)
    (hcommand : o.command = .verifyRows) (hkept : s.kept.lookup o.slot = some (.array items))
    (hbinding : splitBinding o.expression = .ok (name, sequence))
    (h : (runCall env .verify (.mk o inside)).Yields s () s') :
    (∀ (v : Value) (t : String), v.Legible → Text.normal v.display = Text.normal t →
      (v.confirms t = true ↔ v ≠ .null)) ∧
    ∃ a, (reconcile env (fun calls => runRow env calls (pure ())) o (inside.map Call.head) name
        items).Yields { s with visits := s.visits ++ [(.verify, o)] } a s' ∧
      ∀ k c₀, KeyAssertion s.tree a.layout (inside.map Call.head) k c₀ →
        ∀ (i : Nat) key row calls, a.fates[i]? = some (.shown key row calls) →
          ∃ s₁ s₂ s₃ : RunState φ, TakesRow env o (inside.map Call.head) name items a c₀
              { s with visits := s.visits ++ [(.verify, o)] } i key row calls s₁ s₂ s₃ ∧
            (∀ cell, (cellsOf s.tree row)[k]? = some cell →
              ∃ before c after s₄ s₅, calls = before ++ c :: after ∧ Moved c₀ cell c ∧
                (∀ p, (p, c) ∈ s'.visits) ∧
                (ahead env calls before).Yields
                  { s₃ with held := calls.map Occurrence.element ++ s₃.held } () s₄ ∧
                (evaluateAt env cell c₀.expression).Yields
                  { s₄ with visits := s₄.visits ++ [(.execute, c)] } (s'.kept.lookup c.slot) s₅ ∧
                ∀ v, s'.kept.lookup c.slot = some v → v.Legible → Text.normal v.display = key →
                  (v ≠ .null → s'.record.outcomesAt cell = s.record.outcomesAt cell ++ [.success]) ∧
                  (v = .null → s'.record.outcomesAt cell = s.record.outcomesAt cell ++
                    [.failure "" "null"])) ∧
            ((cellsOf s.tree row)[k]? = none → key = "" ∧ calls = []) := by
  obtain ⟨a, hreconcile⟩ := reconcile_of_runCall hcommand hkept hbinding h
  refine ⟨fun v t => Value.confirms_iff_of_shown, a, hreconcile,
    fun k c₀ hkey i key row calls hat => ?_⟩
  have hcolumns : ∀ c ∈ inside.map Call.head, s.tree.isElement c.element = true := fun c hc => by
    obtain ⟨c', hc', rfl⟩ := List.mem_map.mp hc
    exact hinside c' hc'
  obtain ⟨s₁, s₂, s₃, htakes, hvisited, hasserts, hkeyless⟩ :=
    reconcile_asserts hreconcile hs ho hcolumns hslots hkey hat
  refine ⟨s₁, s₂, s₃, htakes, fun cell hcell => ?_, hkeyless⟩
  obtain ⟨before, c, after, s₄, rfl, hmove, hahead, hasserted⟩ := hasserts cell hcell
  have helement : c.element = cell := congrArg Occurrence.element hmove
  have hexpression : c.expression = c₀.expression := by rw [show c = _ from hmove]
  obtain ⟨s₅, hevaluated⟩ := hasserted.evaluated
  rw [helement, hexpression] at hevaluated
  refine ⟨before, c, after, s₄, s₅, rfl, hmove,
    hvisited c (List.mem_append_right _ List.mem_cons_self), hahead,
    hevaluated, fun v hv hlegible hshown => ?_⟩
  have hjudged := hasserted.judged v hv
  rw [helement] at hjudged
  have hagree :=
    Value.confirms_iff_of_shown (t := key) hlegible (by rw [← hshown, Text.normal_normal])
  unfold Value.judged at hjudged
  refine ⟨fun hne => ?_, fun he => ?_⟩
  · rwa [if_pos (hagree.mpr hne)] at hjudged
  · rw [if_neg fun hconfirms => hagree.mp hconfirms he] at hjudged
    have hblank : key = "" := by
      rw [← hshown, he]
      cbv
    rw [hjudged, hblank, he]
    rfl

end Matched

end Run

namespace Sample

theorem listed_slotsFree : listed.SlotsFree := fun slot hslot => by
  have hne : slot ≠ 0 := by
    rintro rfl
    exact absurd hslot (by decide)
  show List.lookup slot [(0, Value.array [.string "a", .string "b"])] = none
  rw [List.lookup_cons, beq_false_of_ne hne]
  rfl

/-- The assertion of the header, moved to the first cell of the first row. -/
def renamed : Occurrence := { naming with element := 6, slot := 100 }

theorem names_keyColumn : (⟨2, [5, 8]⟩ : TableLayout).keyColumn? names [naming] =
    .ok (some (0, naming)) := by cbv

theorem listed_ends :
    ((Run.runCall surroundings .verify (.mk listing [.mk naming []])).result listed).1 = .ok () := by
  decide +kernel

theorem listed_kept :
    ((Run.runCall surroundings .verify (.mk listing [.mk naming []])).result listed).2.kept.lookup
    renamed.slot = some (.string "a") := by cbv

theorem listed_account :
    ((Run.reconcile surroundings (fun calls => Run.runRow surroundings calls (pure ()))
      listing [naming]
    "x" [.string "a", .string "b"]).result { listed with visits := [(.verify, listing)] }).1 =
      .ok ⟨⟨2, [5, 8]⟩, 0, [.shown "a" 5 [renamed], .missing "b" 11], [8]⟩ := by decide +kernel

/-- A table with the header `Name` and one row, which is blank. -/
def blanks : Tree :=
  ⟨#[⟨.document, [1], .top, false⟩, ⟨.element "table" [], [2, 5], .below 0, false⟩,
  ⟨.element "tr" [], [3], .below 1, false⟩, ⟨.element "th" [], [4], .below 2, false⟩,
  ⟨.text "Name", [], .below 3, false⟩,
  ⟨.element "tr" [], [6], .below 1, false⟩, ⟨.element "td" [], [], .below 5, false⟩]⟩

/-- The same table, but its row has no cell. -/
def cellless : Tree :=
  ⟨#[⟨.document, [1], .top, false⟩, ⟨.element "table" [], [2, 5], .below 0, false⟩,
  ⟨.element "tr" [], [3], .below 1, false⟩, ⟨.element "th" [], [4], .below 2, false⟩,
  ⟨.text "Name", [], .below 3, false⟩,
  ⟨.element "tr" [], [], .below 1, false⟩]⟩

end Sample

/-- The item `a` takes the row `a`, and the assertion of the header is a success at the cell of this
row. -/
theorem Run.matched_rows_reasserted_names : Sample.names.Sound ∧ Sample.listed.SlotsFree ∧
    ∃ s', (runCall Sample.surroundings .verify (.mk Sample.listing [.mk Sample.naming []])).Yields
      Sample.listed () s' ∧
      s'.record.outcomesAt 6 = [.success] := by
  have hbinding : splitBinding Sample.listing.expression = .ok ("x", "xs") := by cbv
  have hshown : Text.normal (Value.string "a").display = "a" := by cbv
  have hcell : (cellsOf Sample.names 5)[0]? = some 6 := by cbv
  have hinside :
      ∀ c ∈ [Call.mk Sample.naming []], Sample.names.isElement c.head.element = true := by
    intro c hc
    rw [List.mem_singleton.mp hc]
    rfl
  obtain ⟨-, a, hreconcile, hmatched⟩ :=
    matched_rows_reasserted (s := Sample.listed) (o := Sample.listing) Sample.names_sound
    rfl hinside Sample.listed_slotsFree rfl rfl hbinding (yields_result Sample.listed_ends)
  cases (congrArg Prod.fst hreconcile).symm.trans Sample.listed_account
  obtain ⟨_, _, _, -, hasserts, -⟩ :=
    hmatched 0 Sample.naming (.only Sample.names_keyColumn rfl) 0 "a" 5 _ rfl
  obtain ⟨before, c, after, _, _, hcalls, -, -, -, -, houtcomes⟩ := hasserts 6 hcell
  obtain rfl : Sample.renamed = c := by
    have hmem : c ∈ [Sample.renamed] := hcalls ▸ List.mem_append_right _ List.mem_cons_self
    exact (List.mem_singleton.mp hmem).symm
  have hvalue : Value.string "a" ≠ .null := by simp
  exact ⟨Sample.names_sound, Sample.listed_slotsFree, _, yields_result Sample.listed_ends,
    (houtcomes (.string "a") Sample.listed_kept trivial hshown).1 hvalue⟩

/-- The blank row shows the absent value and is matched to it, but the assertion that gave the key
fails at its cell: only the word `null` confirms the absent value. And a row that lacks the cell is
matched as if it were blank, without an assertion. -/
theorem Run.null_row_fails :
    (∃ a s', (reconcile Sample.surroundings (fun calls =>
      runRow Sample.surroundings calls (pure ())) Sample.listing
        [Sample.naming] "x" [.null]).Yields (Sample.start Sample.blanks) a s' ∧
      KeyAssertion Sample.blanks a.layout [Sample.naming] 0 Sample.naming ∧
      .shown "" 5 [Sample.renamed] ∈ a.fates ∧
      s'.kept.lookup Sample.renamed.slot = some .null ∧
      s'.record.outcomesAt 6 = [.failure "" "null"]) ∧
    (Value.null.Legible ∧ Text.normal Value.null.display = Text.normal "" ∧
      Value.null.confirms "" = false) ∧
    ∃ a s', (reconcile Sample.surroundings (fun calls => runRow Sample.surroundings calls (pure ()))
      Sample.listing
        [Sample.naming] "x" [.string ""]).Yields (Sample.start Sample.cellless) a s' ∧
      KeyAssertion Sample.cellless a.layout [Sample.naming] 0 Sample.naming ∧
      .shown "" 5 [] ∈ a.fates ∧
      s'.record.outcomes = [] := by
  have hcolumn : (⟨2, [5]⟩ : TableLayout).keyColumn? Sample.blanks [Sample.naming] = .ok
      (some (0, Sample.naming)) := by cbv
  have hcolumn' : (⟨2, [5]⟩ : TableLayout).keyColumn? Sample.cellless [Sample.naming] = .ok
      (some (0, Sample.naming)) := by cbv
  have hjudged : Value.null.confirms "" = false := by cbv
  have hends : (fun r => (r.1, r.2.kept.lookup Sample.renamed.slot, r.2.record.outcomesAt 6))
      ((reconcile Sample.surroundings (fun calls => runRow Sample.surroundings calls (pure ()))
        Sample.listing
        [Sample.naming] "x" [.null]).result (Sample.start Sample.blanks)) =
      (.ok ⟨⟨2, [5]⟩, 0, [.shown "" 5 [Sample.renamed]], []⟩, some .null,
        [.failure "" "null"]) := by cbv
  have hends' : (fun r => (r.1, r.2.record.outcomes))
      ((reconcile Sample.surroundings (fun calls => runRow Sample.surroundings calls (pure ()))
        Sample.listing
        [Sample.naming] "x" [.string ""]).result (Sample.start Sample.cellless)) =
      (.ok ⟨⟨2, [5]⟩, 0, [.shown "" 5 []], []⟩, []) := by decide +kernel
  refine ⟨⟨_, _, yields_result (congrArg Prod.fst hends), .only hcolumn rfl,
    List.mem_cons_self, ?_, ?_⟩,
    ⟨trivial, rfl, hjudged⟩,
    ⟨_, _, yields_result (congrArg Prod.fst hends'), .only hcolumn' rfl, List.mem_cons_self, ?_⟩⟩
  · exact congrArg (fun x => x.2.1) hends
  · exact congrArg (fun x => x.2.2) hends
  · exact congrArg Prod.snd hends'

end LiveSpec
