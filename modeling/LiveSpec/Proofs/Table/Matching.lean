import LiveSpec.Proofs.Run.Onward
import LiveSpec.Proofs.Table.Dealing
import LiveSpec.Proofs.Table.NewRow

/-!
# The comparison of items with rows, taken apart

`Matching` is the trace of the loop over the items: one constructor for each fate of an item, with
the parts of the run that lead to it. `matching_of_yields` says that every comparison that ends has
such a trace, so that whatever the loop keeps is proved by induction on it, one case for each fate.
Before it stand the parts: taking a row, moving the commands of the header to its cells, adding a
row.
-/

namespace LiveSpec

open Markup (NodeId Tree TreeError)
open TableLayout (keyText cellsOf)

namespace Run

variable {φ : Type} {s s' : RunState φ} {l : TableLayout} {column : Nat} {key : String}
  {row last : NodeId}

/-! ## Taking a row -/

/-- What taking a row for a key comes to: the first row with the key, or none if there is none. -/
inductive Taken (t : Tree) (column : Nat) (key : String) :
    List NodeId → Option NodeId → List NodeId → Prop
  | none : Taken t column key [] none []
  | here {row : NodeId} {rest : List NodeId} (shows : keyText t column row = .ok key) :
    Taken t column key (row :: rest) (some row) rest
  | later {row : NodeId} {rest others : List NodeId} {found : Option NodeId} {k : String}
    (shows : keyText t column row = .ok k) (other : k ≠ key) :
    Taken t column key rest found others → Taken t column key (row :: rest) found (row :: others)

/-- Taking a row looks at the tree and changes nothing. -/
theorem takeRow_spec {free others : List NodeId} {found : Option NodeId}
    (h : (takeRow column key free).Yields s (found, others) s') :
    s' = s ∧ Taken s.tree column key free found others := by
  induction free generalizing found others s' with
  | nil =>
    obtain ⟨heq, rfl⟩ := yields_pure.mp h
    cases heq
    exact ⟨rfl, .none⟩
  | cons row rest ih =>
    obtain ⟨k, _, hfind, hrest⟩ := yields_bind.mp h
    obtain ⟨hk, rfl⟩ := yields_find.mp hfind
    split at hrest
    · next he =>
      obtain ⟨heq, rfl⟩ := yields_pure.mp hrest
      cases heq
      exact ⟨rfl, .here (he ▸ hk)⟩
    · next hne =>
      obtain ⟨⟨found', others'⟩, _, htake, hpure⟩ := yields_bind.mp hrest
      obtain ⟨rfl, htaken⟩ := ih htake
      obtain ⟨heq, rfl⟩ := yields_pure.mp hpure
      cases heq
      exact ⟨rfl, .later hk hne htaken⟩

/-- A row that is taken comes from the free ones and shows the key. -/
theorem Taken.some {t : Tree} {free others : List NodeId}
    (h : Taken t column key free (some row) others) :
    free.Perm (row :: others) ∧ others.Sublist free ∧ keyText t column row = .ok key := by
  generalize hf : Option.some row = found at h
  induction h with
  | none => cases hf
  | here hk => cases hf; exact ⟨.refl _, List.sublist_cons_self .., hk⟩
  | @later r _ _ _ _ _ _ _ ih =>
    obtain ⟨hperm, hsub, hk⟩ := ih hf
    exact ⟨(hperm.cons r).trans (.swap ..), hsub.cons_cons r, hk⟩

/-- If no row is taken, all are left, and all show other keys. -/
theorem Taken.none_of {t : Tree} {free others : List NodeId}
    (h : Taken t column key free .none others) :
    others = free ∧ ∀ r ∈ free, ∃ k, keyText t column r = .ok k ∧ k ≠ key := by
  generalize hf : (Option.none : Option NodeId) = found at h
  induction h with
  | none => exact ⟨rfl, by simp⟩
  | here hk => cases hf
  | later hk hne _ ih =>
    obtain ⟨rfl, hall⟩ := ih hf
    refine ⟨rfl, fun r hr => ?_⟩
    rcases List.mem_cons.mp hr with rfl | hr
    · exact ⟨_, hk, hne⟩
    · exact hall r hr

/-- What a key comes to is the answer when a row is asked for. -/
theorem Taken.yields {free others : List NodeId} {found : Option NodeId}
    (h : Taken s.tree column key free found others) :
    (takeRow column key free : Run φ _).Yields s (found, others) s := by
  induction h with
  | none => exact yields_pure.mpr ⟨rfl, rfl⟩
  | here shows =>
    refine yields_bind.mpr ⟨_, s, yields_find.mpr ⟨shows, rfl⟩, ?_⟩
    rw [if_pos rfl]
    exact yields_pure.mpr ⟨rfl, rfl⟩
  | later shows other _ ih =>
    refine yields_bind.mpr ⟨_, s, yields_find.mpr ⟨shows, rfl⟩, ?_⟩
    rw [if_neg other]
    exact yields_bind.mpr ⟨_, s, ih, yields_pure.mpr ⟨rfl, rfl⟩⟩

/-! ## Moving the commands of the header -/

/-- A command with another element and another slot. -/
def Moved (o : Occurrence) (cell : NodeId) (c : Occurrence) : Prop :=
  c = { o with element := cell, slot := c.slot }

/-- Header calls are moved into a row quietly, to the cells of their columns. -/
theorem retarget_spec {columns calls : List Occurrence}
    (h : (retarget l columns row).Yields s calls s') :
    Quiet s s' ∧ ∃ placed, l.inRow s.tree columns row = .ok placed ∧
      List.Forall₂ (fun x c => Moved x.1 x.2 c) placed calls := by
  refine ⟨retarget_quiet h, ?_⟩
  obtain ⟨placed, s₁, hfind, hmap⟩ := yields_bind.mp h
  obtain ⟨hplaced, -⟩ := yields_find.mp hfind
  refine ⟨placed, hplaced, ?_⟩
  clear hplaced hfind h
  induction placed generalizing calls s₁ s' with
  | nil =>
    rw [List.mapM_nil] at hmap
    obtain ⟨rfl, -⟩ := yields_pure.mp hmap
    exact .nil
  | cons x placed ih =>
    rw [List.mapM_cons] at hmap
    obtain ⟨c, s₂, hone, hmore⟩ := yields_bind.mp hmap
    obtain ⟨cs, s₃, hrest, hpure⟩ := yields_bind.mp hmore
    obtain ⟨slot, s₄, -, hmoved⟩ := yields_bind.mp hone
    obtain ⟨rfl, -⟩ := yields_pure.mp hmoved
    obtain ⟨rfl, -⟩ := yields_pure.mp hpure
    exact .cons rfl (ih s₂ hrest)

/-- The calls of a row stand at cells of it. -/
theorem cell_of_moved {t : Tree} {columns calls : List Occurrence}
    {placed : List (Occurrence × NodeId)} (hplaced : l.inRow t columns row = .ok placed)
    (hmoved : List.Forall₂ (fun x c => Moved x.1 x.2 c) placed calls) {c : Occurrence}
    (hc : c ∈ calls) : c.element ∈ cellsOf t row := by
  obtain ⟨x, hx, hmove⟩ := exists_left_of_mem hmoved hc
  rw [show c.element = x.2 from congrArg Occurrence.element hmove]
  exact ((Tree.mem_inRow hplaced).mp hx).2.mem

/-- Each command of the header that has a cell in a row is among the calls of the row. -/
theorem moved_of_hasCell {t : Tree} {columns calls : List Occurrence}
    {placed : List (Occurrence × NodeId)} (hplaced : l.inRow t columns row = .ok placed)
    (hmoved : List.Forall₂ (fun x c => Moved x.1 x.2 c) placed calls) {o : Occurrence}
    {cell : NodeId} (ho : o ∈ columns) (hcell : t.HasCell l row o cell) :
    ∃ c ∈ calls, Moved o cell c :=
  exists_right_of_mem hmoved ((Tree.mem_inRow hplaced).mpr ⟨ho, hcell⟩)

/-! ## Holding elements -/

/-- What is held during a part is held for that part only. -/
theorem yields_holding {α : Type} {ns : List NodeId} {part : Run φ α} {a : α} :
    (holding ns part).Yields s a s' ↔
    ∃ s₁, part.Yields { s with held := ns ++ s.held } a s₁ ∧
      tidy.Yields { s₁ with held := s.held } () s' := by
  constructor
  · intro h
    obtain ⟨before, s₀, hget, h₁⟩ := yields_bind.mp h
    obtain ⟨rfl, rfl⟩ := yields_get.mp hget
    obtain ⟨_, s₁, hheld, h₂⟩ := yields_bind.mp h₁
    obtain ⟨_, s₂, hpart, h₃⟩ := yields_bind.mp h₂
    obtain ⟨_, s₃, hback, h₄⟩ := yields_bind.mp h₃
    obtain ⟨_, s₄, htidy, hpure⟩ := yields_bind.mp h₄
    obtain ⟨rfl, rfl⟩ := yields_pure.mp hpure
    cases yields_modify.mp hheld
    cases yields_modify.mp hback
    exact ⟨s₂, hpart, htidy⟩
  · rintro ⟨s₁, hpart, htidy⟩
    refine yields_bind.mpr ⟨_, s, yields_get.mpr ⟨rfl, rfl⟩,
      yields_bind.mpr ⟨⟨⟩, _, yields_modify.mpr rfl, ?_⟩⟩
    refine yields_bind.mpr ⟨a, s₁, hpart, yields_bind.mpr ⟨⟨⟩, _, yields_modify.mpr rfl, ?_⟩⟩
    exact yields_bind.mpr ⟨(), s', htidy, yields_pure.mpr ⟨rfl, rfl⟩⟩

theorem tidied_of_tidy {held : List NodeId} (h : tidy.Yields { s with held := held } () s') :
    Tidied s s' := by
  rw [yields_modify.mp h]
  exact ⟨⟨_, rfl⟩, rfl, rfl⟩

/-- What it takes to hold elements while a part lasts: at first nothing but the list of what is held
changes, and at last what nobody holds is let go. -/
theorem holding_spec {α : Type} {ns : List NodeId} {part : Run φ α} {a : α}
    (h : (holding ns part).Yields s a s') :
    ∃ s₁ s₂, Quiet s s₁ ∧ part.Yields s₁ a s₂ ∧ Tidied s₂ s' := by
  obtain ⟨s₂, hpart, htidy⟩ := yields_holding.mp h
  exact ⟨{ s with held := ns ++ s.held }, s₂, ⟨rfl, rfl, rfl⟩, hpart, tidied_of_tidy htidy⟩

/-! ## Adding a row -/

/-- The row that is added for an item: it stands after another one, and nothing else is noted than
that it is missing. -/
structure MissingAdded (last row : NodeId) (key : String) (s s' : RunState φ) : Prop where
  tree : TableLayout.RowAdded last row s.tree s'.tree
  visits : s'.visits = s.visits
  outcomes : s'.record.outcomes = s.record.outcomes ++ [⟨row, .missingRow key⟩]

/-- A missing row is recorded at the row that was put in. -/
theorem recordMissingRow_spec {env : Surroundings} {u : Unit}
    (h : (recordMissingRow env row key).Yields s u s') :
    s'.tree = s.tree ∧ s'.visits = s.visits ∧
    s'.record.outcomes = s.record.outcomes ++ [⟨row, .missingRow key⟩] := by
  obtain ⟨_, s₁, hnote, h₁⟩ := yields_bind.mp h
  obtain ⟨_, s₂, hspot, htell⟩ := yields_bind.mp h₁
  cases yields_modify.mp hnote
  obtain ⟨-, rfl⟩ := yields_look.mp hspot
  have hq := (tell_quiet (by simp [Event.channel])).keeps htell
  exact ⟨hq.tree, hq.visits, by rw [hq.record]; rfl⟩

/-- The cell of the keys gets the key of the item, if the row has such a cell. -/
def fillKey (column : Nat) (key : String) (row : NodeId) (t : Tree) : Tree :=
  match (cellsOf t row)[column]? with
  | some cell => t.setText cell key
  | none => t

/-- A row is put in place, its cell of the keys is filled, and the row is recorded as missing. -/
theorem addMissingRow_parts {env : Surroundings}
    (h : (addMissingRow env l column key last).Yields s row s') :
    ∃ t, l.appendRow s.tree last = .ok (row, t) ∧ s'.tree = fillKey column key row t ∧
      s'.visits = s.visits ∧
      s'.record.outcomes = s.record.outcomes ++ [⟨row, .missingRow key⟩] := by
  obtain ⟨⟨row', t⟩, s₀, hfind, h₁⟩ := yields_bind.mp h
  obtain ⟨happend, rfl⟩ := yields_find.mp hfind
  dsimp only at h₁
  obtain ⟨_, s₁, hchange, h₂⟩ := yields_bind.mp h₁
  obtain ⟨row₁, s₂, hrow, h₃⟩ := yields_bind.mp h₂
  obtain ⟨cs, s₃, hcells, h₄⟩ := yields_bind.mp h₃
  obtain ⟨rfl, rfl⟩ := yields_pure.mp hrow
  obtain ⟨hcs, rfl⟩ := yields_find.mp hcells
  cases yields_change.mp hchange
  obtain ⟨-, rfl⟩ := TableLayout.cells_eq_ok.mp hcs
  -- what is left once the cell of the key has its text
  have hdone : ∀ {s₄ : RunState φ} {r : NodeId},
      (do recordMissingRow env row₁ key; pure row₁ : Run φ NodeId).Yields s₄ r s' →
      r = row₁ ∧ s'.tree = s₄.tree ∧ s'.visits = s₄.visits ∧
        s'.record.outcomes = s₄.record.outcomes ++ [⟨row₁, .missingRow key⟩] := fun {s₄ r} hy => by
    obtain ⟨_, s₅, hrecorded, hpure⟩ := yields_bind.mp hy
    obtain ⟨rfl, rfl⟩ := yields_pure.mp hpure
    exact ⟨rfl, recordMissingRow_spec hrecorded⟩
  cases hc : (cellsOf t row₁)[column]? with
  | none =>
    dsimp only at h₄
    rw [hc] at h₄
    obtain ⟨rfl, htree, hrest⟩ := hdone h₄
    refine ⟨t, happend, ?_, hrest⟩
    unfold fillKey
    rw [hc]
    exact htree
  | some cell =>
    dsimp only at h₄
    rw [hc] at h₄
    obtain ⟨_, s₄, hfill, h₅⟩ := yields_bind.mp h₄
    cases yields_change.mp hfill
    obtain ⟨rfl, htree, hrest⟩ := hdone h₅
    refine ⟨t, happend, ?_, hrest⟩
    unfold fillKey
    rw [hc]
    exact htree

/-- A missing row is put in after the last and filled with the key. -/
theorem addMissingRow_spec {env : Surroundings} (hs : s.tree.Sound)
    (hlast : last < s.tree.nodes.size) (h : (addMissingRow env l column key last).Yields s row s') :
    MissingAdded last row key s s' := by
  obtain ⟨t, happend, htree, hvisits, houtcomes⟩ := addMissingRow_parts h
  have hadded := TableLayout.rowAdded hs hlast happend
  refine ⟨?_, hvisits, houtcomes⟩
  rw [htree]
  unfold fillKey
  split
  · next cell hcell =>
    exact hadded.setText hs (TableLayout.mem_cellsOf.mp (List.mem_of_getElem? hcell)).1 key
  · exact hadded

/-! ## The key of an item -/

/-- What evaluating for an element leaves: an exception there if there is no value, and nothing if
there is one. -/
structure Evaluated {α : Type} (n : NodeId) (v? : Option α) (s s' : RunState φ) : Prop where
  tree : s'.tree = s.tree
  visits : s'.visits = s.visits
  outcomes : ∃ xs : List Recorded, s'.record.outcomes = s.record.outcomes ++ xs ∧
    match v? with
    | some _ => xs = []
    | none => ∃ expression error, xs = [⟨n, .exception expression error⟩]

/-- What is quiet has evaluated with no error. -/
theorem Evaluated.of_quiet {α : Type} {n : NodeId} {v : α} (h : Quiet s s') :
    Evaluated n (some v) s s' :=
  ⟨h.tree, h.visits, [], by rw [h.record, List.append_nil], rfl⟩

/-- What is quiet may come before an evaluation. -/
theorem Evaluated.after {α : Type} {n : NodeId} {v? : Option α} {s₁ : RunState φ} (hq : Quiet s s₁)
    (h : Evaluated n v? s₁ s') : Evaluated n v? s s' :=
  ⟨h.tree.trans hq.tree, h.visits.trans hq.visits, hq.record ▸ h.outcomes⟩

/-- An exception that is recorded is an evaluation without a value. -/
theorem recordException_spec {env : Surroundings} {n : NodeId} {expression : String}
    {error : EvaluationError} {u : Unit} {α : Type}
    (h : (recordException env n expression error).Yields s u s') :
    Evaluated n (none : Option α) s s' := by
  obtain ⟨_, s₁, hnote, h₁⟩ := yields_bind.mp h
  obtain ⟨_, s₂, hspot, htell⟩ := yields_bind.mp h₁
  cases yields_modify.mp hnote
  obtain ⟨-, rfl⟩ := yields_look.mp hspot
  have hq := (tell_quiet (by simp [Event.channel])).keeps htell
  exact ⟨hq.tree, hq.visits, [⟨n, .exception expression error⟩], by rw [hq.record]; rfl,
    expression, error, rfl⟩

/-- An evaluation at an element yields a value, or records an exception there. -/
theorem evaluateAt_spec [Fixture φ] {env : Surroundings} {n : NodeId} {source : String}
    {v? : Option Value} (h : (evaluateAt env n source).Yields s v? s') : Evaluated n v? s s' := by
  obtain ⟨_, s₁, hbind, h₁⟩ := yields_bind.mp h
  obtain ⟨answer, s₂, heval, h₂⟩ := yields_bind.mp h₁
  have hq : Quiet s s₂ :=
    trans_of Quiet (bindElement_quiet.keeps hbind) (evaluate_quiet.keeps heval)
  cases answer with
  | ok v =>
    obtain ⟨rfl, rfl⟩ := yields_pure.mp h₂
    exact .of_quiet hq
  | error e =>
    obtain ⟨_, s₃, hrecord, hpure⟩ := yields_bind.mp h₂
    obtain ⟨rfl, rfl⟩ := yields_pure.mp hpure
    exact .after hq (recordException_spec hrecord)

/-- What is made of a value does not matter for the record. -/
theorem Evaluated.map {α β : Type} {n : NodeId} {v? : Option α} (h : Evaluated n v? s s')
    (f : α → β) :
    Evaluated n (v?.map f) s s' := by
  refine ⟨h.tree, h.visits, ?_⟩
  obtain ⟨xs, hxs, hkind⟩ := h.outcomes
  refine ⟨xs, hxs, ?_⟩
  cases v? <;> exact hkind

/-- The loop variable is bound and the key is asked for. -/
def askKey [Fixture φ] (env : Surroundings) (table : NodeId) (name : String)
    (key? : Option (Nat × Occurrence)) (item : Value) : Run φ (Option String) := do
  bindVariable name item
  itemKey env table key? item

/-- A key is asked for at the table. -/
theorem askKey_spec [Fixture φ] {env : Surroundings} {table : NodeId} {name : String}
    {key? : Option (Nat × Occurrence)} {item : Value} {k? : Option String}
    (h : (askKey env table name key? item).Yields s k? s') :
    Evaluated table k? s s' := by
  obtain ⟨_, s₁, hbind, h₁⟩ := yields_bind.mp h
  have hq : Quiet s s₁ := bindVariable_quiet.keeps hbind
  cases key? with
  | none =>
    obtain ⟨rfl, rfl⟩ := yields_pure.mp h₁
    exact .of_quiet hq
  | some k =>
    obtain ⟨v?, s₂, heval, hpure⟩ := yields_bind.mp h₁
    obtain ⟨rfl, rfl⟩ := yields_pure.mp hpure
    exact .after hq ((evaluateAt_spec heval).map _)

/-! ## The loop -/

/-- The trace of the loop over the items, from a state with the free rows and the row that the next
missing one goes after, to the fates, the rows that are left, and the last state. -/
inductive Matching [Fixture φ] (env : Surroundings) (runRow : List Occurrence → Run φ Unit)
    (o : Occurrence)
    (columns : List Occurrence) (name : String) (l : TableLayout)
    (key? : Option (Nat × Occurrence)) :
    List Value → RunState φ → List NodeId → NodeId → List Fate → List NodeId → RunState φ → Prop
  | done {s : RunState φ} {free : List NodeId} {last : NodeId} :
    Matching env runRow o columns name l key? [] s free last [] free s
  | keyless {item : Value} {items : List Value} {s s₁ s' : RunState φ} {free left : List NodeId}
    {last : NodeId}
    {fates : List Fate} (asked : (askKey env o.element name key? item).Yields s none s₁)
    (rest : Matching env runRow o columns name l key? items s₁ free last fates left s') :
    Matching env runRow o columns name l key? (item :: items) s free last
      (.keyless :: fates) left s'
  | shown {item : Value} {items : List Value} {s s₁ s₂ s₃ s' : RunState φ}
    {free others left : List NodeId}
    {last row : NodeId} {key : String} {calls : List Occurrence} {fates : List Fate}
    (asked : (askKey env o.element name key? item).Yields s (some key) s₁)
    (taken : Taken s₁.tree ((key?.map Prod.fst).getD 0) key free (some row) others)
    (moved : (retarget l columns row).Yields s₁ calls s₂)
    (ran : (holding (calls.map Occurrence.element) (runRow calls)).Yields s₂ () s₃)
    (rest : Matching env runRow o columns name l key? items s₃ others last fates left s') :
    Matching env runRow o columns name l key? (item :: items) s free last
      (.shown key row calls :: fates) left s'
  | missing {item : Value} {items : List Value} {s s₁ s₂ s' : RunState φ} {free left : List NodeId}
    {last row : NodeId} {key : String} {fates : List Fate}
    (asked : (askKey env o.element name key? item).Yields s (some key) s₁)
    (taken : Taken s₁.tree ((key?.map Prod.fst).getD 0) key free none free)
    (added : (addMissingRow env l ((key?.map Prod.fst).getD 0) key last).Yields s₁ row s₂)
    (rest : Matching env runRow o columns name l key? items s₂ free row fates left s') :
    Matching env runRow o columns name l key? (item :: items) s free last
      (.missing key row :: fates) left s'

section Trace

variable [Fixture φ] {env : Surroundings} {runRow : List Occurrence → Run φ Unit} {o : Occurrence}
  {columns : List Occurrence} {name : String} {key? : Option (Nat × Occurrence)}
  {items : List Value} {free left : List NodeId} {fates : List Fate}

/-- The rows that were taken and those that are left are the rows that were free. -/
theorem Matching.perm (h : Matching env runRow o columns name l key? items s free last
    fates left s') :
    free.Perm (fates.filterMap Fate.taken? ++ left) := by
  induction h with
  | done => exact .refl _
  | keyless _ _ ih | missing _ _ _ _ ih => exact ih
  | shown _ taken _ _ _ ih => exact taken.some.1.trans (ih.cons _)

/-- The rows that are left are among those that were free. -/
theorem Matching.left_subset (h : Matching env runRow o columns name l key? items s free last
    fates left s') :
    left ⊆ free := fun _ hr => h.perm.mem_iff.mpr (List.mem_append_right _ hr)

/-- A row that is taken was free. -/
theorem Matching.taken_subset (h : Matching env runRow o columns name l key? items s free last
    fates left s') :
    fates.filterMap Fate.taken? ⊆ free := fun _ hr => h.perm.mem_iff.mpr (List.mem_append_left _ hr)

/-- Of different rows those that are left are different, and none of them was taken. -/
theorem Matching.nodup_left {header : NodeId}
    (h : Matching env runRow o columns name l key? items s free last fates left s')
    (hnodup : (header :: free).Nodup) :
    (header :: left).Nodup ∧ ∀ r ∈ left, r ∉ fates.filterMap Fate.taken? := by
  have hall : (header :: (fates.filterMap Fate.taken? ++ left)).Nodup :=
    (h.perm.cons header).nodup_iff.mp hnodup
  obtain ⟨hheader, hrows⟩ := List.nodup_cons.mp hall
  obtain ⟨-, hleft, hapart⟩ := List.nodup_append.mp hrows
  exact ⟨List.nodup_cons.mpr ⟨fun hmem => hheader (List.mem_append_right _ hmem), hleft⟩,
    fun r hr htaken => hapart r htaken r hr rfl⟩

/-- **A comparison that ends has a trace.** -/
theorem matching_of_yields
    (h : (matchItems env runRow o columns name l key? items free last).Yields s (fates, left) s') :
    Matching env runRow o columns name l key? items s free last fates left s' := by
  induction items generalizing s free last fates with
  | nil =>
    obtain ⟨heq, rfl⟩ := yields_pure.mp h
    cases heq
    exact .done
  | cons item items ih =>
    obtain ⟨_, s₁, hbind, h₁⟩ := yields_bind.mp h
    obtain ⟨k?, s₂, hkey, h₂⟩ := yields_bind.mp h₁
    have hasked : (askKey env o.element name key? item).Yields s k? s₂ :=
      yields_bind.mpr ⟨_, s₁, hbind, hkey⟩
    cases k? with
    | none =>
      obtain ⟨⟨fates', left'⟩, s₃, hrest, hpure⟩ := yields_bind.mp h₂
      obtain ⟨heq, rfl⟩ := yields_pure.mp hpure
      cases heq
      exact .keyless hasked (ih hrest)
    | some key =>
      obtain ⟨⟨found, others⟩, s₃, htake, h₃⟩ := yields_bind.mp h₂
      obtain ⟨rfl, htaken⟩ := takeRow_spec htake
      cases found with
      | some row =>
        obtain ⟨calls, s₄, hmoved, h₄⟩ := yields_bind.mp h₃
        obtain ⟨_, s₅, hran, h₅⟩ := yields_bind.mp h₄
        obtain ⟨⟨fates', left'⟩, s₆, hrest, hpure⟩ := yields_bind.mp h₅
        obtain ⟨heq, rfl⟩ := yields_pure.mp hpure
        cases heq
        exact .shown hasked htaken hmoved hran (ih hrest)
      | none =>
        obtain ⟨row, s₄, hadded, h₄⟩ := yields_bind.mp h₃
        obtain ⟨⟨fates', left'⟩, s₅, hrest, hpure⟩ := yields_bind.mp h₄
        obtain ⟨heq, rfl⟩ := yields_pure.mp hpure
        cases heq
        obtain ⟨rfl, -⟩ := htaken.none_of
        exact .missing hasked htaken hadded (ih hrest)

/-- **A trace is that of a comparison.** -/
theorem Matching.yields (h : Matching env runRow o columns name l key? items s free last
    fates left s') :
    (matchItems env runRow o columns name l key? items free last).Yields s (fates, left) s' := by
  induction h with
  | done => exact yields_pure.mpr ⟨rfl, rfl⟩
  | keyless asked _ ih =>
    obtain ⟨_, s₁, hbind, hkey⟩ := yields_bind.mp asked
    refine yields_bind.mpr ⟨_, s₁, hbind, yields_bind.mpr ⟨none, _, hkey, ?_⟩⟩
    exact yields_bind.mpr ⟨_, _, ih, yields_pure.mpr ⟨rfl, rfl⟩⟩
  | @shown _ _ _ _ _ _ _ _ _ _ _ _ key _ _ asked taken moved ran _ ih =>
    obtain ⟨_, s₁, hbind, hkey⟩ := yields_bind.mp asked
    refine yields_bind.mpr ⟨_, s₁, hbind, yields_bind.mpr ⟨some key, _, hkey, ?_⟩⟩
    refine yields_bind.mpr ⟨_, _, taken.yields, yields_bind.mpr ⟨_, _, moved, ?_⟩⟩
    exact yields_bind.mpr ⟨⟨⟩, _, ran, yields_bind.mpr ⟨_, _, ih, yields_pure.mpr ⟨rfl, rfl⟩⟩⟩
  | @missing _ _ _ _ _ _ _ _ _ _ key _ asked taken added _ ih =>
    obtain ⟨_, s₁, hbind, hkey⟩ := yields_bind.mp asked
    refine yields_bind.mpr ⟨_, s₁, hbind, yields_bind.mpr ⟨some key, _, hkey, ?_⟩⟩
    refine yields_bind.mpr ⟨_, _, taken.yields, yields_bind.mpr ⟨_, _, added, ?_⟩⟩
    exact yields_bind.mpr ⟨_, _, ih, yields_pure.mpr ⟨rfl, rfl⟩⟩

/-- **A trace can be cut** after any number of items. The row that the next missing one goes after
is then the one of the start, or one that was added before the cut. -/
theorem Matching.cut (h : Matching env runRow o columns name l key? items s free last fates left s')
    (i : Nat) :
    ∃ free₁ last₁ s₁,
      Matching env runRow o columns name l key? (items.take i) s free last (fates.take i) free₁ s₁ ∧
      Matching env runRow o columns name l key? (items.drop i) s₁ free₁ last₁
        (fates.drop i) left s' ∧
      (last₁ = last ∨ ∃ key, .missing key last₁ ∈ fates.take i) := by
  induction h generalizing i with
  | @done s free last =>
    exact ⟨free, last, s, by simpa using .done, by simpa using .done, .inl rfl⟩
  | @keyless _ _ s _ _ free _ last _ asked rest ih =>
    cases i with
    | zero => exact ⟨free, last, s, .done, .keyless asked rest, .inl rfl⟩
    | succ i =>
      obtain ⟨free₁, last₁, s₁, hfirst, hrest, hlast⟩ := ih i
      exact ⟨free₁, last₁, s₁, .keyless asked hfirst, hrest, hlast.imp_right fun ⟨key, hmem⟩ =>
        ⟨key, List.mem_cons_of_mem _ hmem⟩⟩
  | @shown _ _ s _ _ _ _ free _ _ last _ _ _ _ asked taken moved ran rest ih =>
    cases i with
    | zero => exact ⟨free, last, s, .done, .shown asked taken moved ran rest, .inl rfl⟩
    | succ i =>
      obtain ⟨free₁, last₁, s₁, hfirst, hrest, hlast⟩ := ih i
      exact ⟨free₁, last₁, s₁, .shown asked taken moved ran hfirst, hrest,
        hlast.imp_right fun ⟨key, hmem⟩ =>
        ⟨key, List.mem_cons_of_mem _ hmem⟩⟩
  | @missing _ _ s _ _ _ free _ last row key _ asked taken added rest ih =>
    cases i with
    | zero => exact ⟨free, last, s, .done, .missing asked taken added rest, .inl rfl⟩
    | succ i =>
      obtain ⟨free₁, last₁, s₁, hfirst, hrest, hlast⟩ := ih i
      refine ⟨free₁, last₁, s₁, .missing asked taken added hfirst, hrest, .inr ?_⟩
      rcases hlast with rfl | ⟨key', hmem⟩
      · exact ⟨key, List.mem_cons_self⟩
      · exact ⟨key', List.mem_cons_of_mem _ hmem⟩

/-- What a trace says of the item at a place: it is asked for its key where the items before it lead
to. -/
theorem Matching.asked_at {fate : Fate} {i : Nat}
    (h : Matching env runRow o columns name l key? items s free last fates left s')
    (hat : fates[i]? = some fate) :
    ∃ item free₁ s₁ s₂, items[i]? = some item ∧
      Matching env runRow o columns name l key? (items.take i) s free last (fates.take i) free₁ s₁ ∧
      (askKey env o.element name key? item).Yields s₁ fate.key? s₂ := by
  obtain ⟨free₁, last₁, s₁, hfirst, hrest, -⟩ := h.cut i
  obtain ⟨hlt, rfl⟩ := List.getElem?_eq_some_iff.mp hat
  rw [List.drop_eq_getElem_cons hlt] at hrest
  generalize hitems : items.drop i = its at hrest
  have hitem : items[i]? = its.head? := by rw [← hitems, List.head?_drop]
  cases its with
  | nil => cases hrest
  | cons item its =>
    refine ⟨item, free₁, s₁, ?_⟩
    generalize fates[i] = fate at hrest ⊢
    cases hrest with
    | keyless asked => exact ⟨_, hitem, hfirst, asked⟩
    | shown asked => exact ⟨_, hitem, hfirst, asked⟩
    | missing asked => exact ⟨_, hitem, hfirst, asked⟩

/-- What a trace says of a row that was taken: the items before lead to a state, then the item is
asked for its key, the commands of the header are moved to the row and run there, and the items
after it follow. -/
theorem Matching.shown_at {calls : List Occurrence} {i : Nat}
    (h : Matching env runRow o columns name l key? items s free last fates left s')
    (hat : fates[i]? = some (.shown key row calls)) :
    ∃ item free₁ others last₁ s₁ s₂ s₃ s₄, items[i]? = some item ∧
      Matching env runRow o columns name l key? (items.take i) s free last (fates.take i) free₁ s₁ ∧
      (last₁ = last ∨ ∃ key, .missing key last₁ ∈ fates.take i) ∧
      (askKey env o.element name key? item).Yields s₁ (some key) s₂ ∧
      Taken s₂.tree ((key?.map Prod.fst).getD 0) key free₁ (some row) others ∧
      (retarget l columns row).Yields s₂ calls s₃ ∧
      (holding (calls.map Occurrence.element) (runRow calls)).Yields s₃ () s₄ ∧
      Matching env runRow o columns name l key? (items.drop (i + 1)) s₄ others last₁
        (fates.drop (i + 1)) left s' := by
  obtain ⟨free₁, last₁, s₁, hfirst, hrest, hlast⟩ := h.cut i
  obtain ⟨hlt, hfate⟩ := List.getElem?_eq_some_iff.mp hat
  rw [List.drop_eq_getElem_cons hlt, hfate] at hrest
  generalize hitems : items.drop i = its at hrest
  have hitem : items[i]? = its.head? := by rw [← hitems, List.head?_drop]
  have htail : items.drop (i + 1) = its.tail := by rw [← hitems, List.tail_drop]
  rw [htail]
  cases hrest with
  | shown asked taken moved ran rest =>
    exact ⟨_, free₁, _, last₁, s₁, _, _, _, hitem, hfirst, hlast, asked, taken, moved, ran, rest⟩

end Trace

/-! ## The rows that are left over -/

/-- A surplus row is recorded at the row itself. -/
theorem recordSurplusRow_spec {env : Surroundings} {actual : String} {u : Unit}
    (h : (recordSurplusRow env row actual).Yields s u s') :
    s'.tree = s.tree ∧ s'.visits = s.visits ∧
    s'.record.outcomes = s.record.outcomes ++ [⟨row, .surplusRow actual⟩] := by
  obtain ⟨_, s₁, hnote, h₁⟩ := yields_bind.mp h
  obtain ⟨_, s₂, hspot, htell⟩ := yields_bind.mp h₁
  cases yields_modify.mp hnote
  obtain ⟨-, rfl⟩ := yields_look.mp hspot
  have hq := (tell_quiet (by simp [Event.channel])).keeps htell
  exact ⟨hq.tree, hq.visits, by rw [hq.record]; rfl⟩

/-- Each row that is left over is recorded with the text that it is known by. -/
theorem recordSurplus_spec {env : Surroundings} {rows : List NodeId} {u : Unit}
    (h : (recordSurplus env column rows).Yields s u s') :
    s'.tree = s.tree ∧ s'.visits = s.visits ∧ ∃ keys : List String,
      List.Forall₂ (fun r k => keyText s.tree column r = .ok k) rows keys ∧
      s'.record.outcomes = s.record.outcomes ++ (rows.zip keys).map fun x =>
        ⟨x.1, .surplusRow x.2⟩ := by
  induction rows generalizing s with
  | nil =>
    obtain ⟨-, rfl⟩ := yields_pure.mp h
    exact ⟨rfl, rfl, [], .nil, by simp⟩
  | cons row rows ih =>
    obtain ⟨key, s₀, hfind, h₁⟩ := yields_bind.mp h
    obtain ⟨hkey, rfl⟩ := yields_find.mp hfind
    obtain ⟨_, s₁, hrecord, hrest⟩ := yields_bind.mp h₁
    obtain ⟨htree, hvisits, houtcomes⟩ := recordSurplusRow_spec hrecord
    obtain ⟨htree', hvisits', keys, hkeys, houtcomes'⟩ := ih hrest
    rw [htree] at hkeys
    refine ⟨htree'.trans htree, hvisits'.trans hvisits, key :: keys, .cons hkey hkeys, ?_⟩
    rw [houtcomes', houtcomes]
    simp

/-! ## The whole comparison -/

section Whole

variable [Fixture φ] {env : Surroundings} {runRow : List Occurrence → Run φ Unit} {o : Occurrence}
  {columns : List Occurrence} {name : String} {items : List Value}

/-- In a comparison that starts in a state and has an account, the first `i` items lead to this
state: they got the rows that the account says, and no other item was asked for its key yet. -/
def ComesTo (env : Surroundings) (runRow : List Occurrence → Run φ Unit) (o : Occurrence)
    (columns : List Occurrence) (name : String) (items : List Value) (a : Reconciliation)
    (s : RunState φ) (i : Nat) (s₁ : RunState φ) : Prop :=
  ∃ key? free, a.layout.keyColumn? s.tree columns = .ok key? ∧
    (matchItems env runRow o columns name a.layout key? (items.take i) a.layout.rows
        (a.layout.rows.getLastD a.layout.header)).Yields
      { s with held := a.layout.header :: a.layout.rows ++ s.held } (a.fates.take i, free) s₁

/-- The parts of a comparison, with the states between them. -/
theorem reconcile_parts {a : Reconciliation}
    (h : (reconcile env runRow o columns name items).Yields s a s') :
    ∃ key? s₁ s₂, TableLayout.of s.tree o.element (columns.head?.map Occurrence.element) =
      .ok a.layout ∧
      a.layout.keyColumn? s.tree columns = .ok key? ∧ a.column = (key?.map Prod.fst).getD 0 ∧
      Matching env runRow o columns name a.layout key? items
        { s with held := a.layout.header :: a.layout.rows ++ s.held }
        a.layout.rows (a.layout.rows.getLastD a.layout.header) a.fates a.surplus s₁ ∧
      (recordSurplus env a.column a.surplus).Yields s₁ () s₂ ∧
      tidy.Yields { s₂ with held := s.held } () s' := by
  obtain ⟨l, s₀, hlayout, h₁⟩ := yields_bind.mp h
  obtain ⟨hl, rfl⟩ := yields_find.mp hlayout
  obtain ⟨s₂, hpart, htidy⟩ := yields_holding.mp h₁
  obtain ⟨key?, _, hkeyColumn, h₂⟩ := yields_bind.mp hpart
  obtain ⟨hkey, rfl⟩ := yields_find.mp hkeyColumn
  obtain ⟨⟨fates, free⟩, s₁, hmatch, h₃⟩ := yields_bind.mp h₂
  obtain ⟨_, s₃, hsurplus, hpure⟩ := yields_bind.mp h₃
  obtain ⟨rfl, rfl⟩ := yields_pure.mp hpure
  exact ⟨key?, s₁, _, hl, hkey, rfl, matching_of_yields hmatch, hsurplus, htidy⟩

/-- A comparison finds the layout and the column of the keys, deals the rows to the items, records
the rows that are left over, and lets go of what nobody holds. -/
theorem reconcile_spec {a : Reconciliation}
    (h : (reconcile env runRow o columns name items).Yields s a s') :
    ∃ key? s₁ s₂ s₃, TableLayout.of s.tree o.element (columns.head?.map Occurrence.element) =
      .ok a.layout ∧
      a.layout.keyColumn? s.tree columns = .ok key? ∧ a.column = (key?.map Prod.fst).getD 0 ∧
      Quiet s s₁ ∧
      Matching env runRow o columns name a.layout key? items s₁ a.layout.rows
        (a.layout.rows.getLastD a.layout.header) a.fates a.surplus s₂ ∧
      (recordSurplus env a.column a.surplus).Yields s₂ () s₃ ∧ Tidied s₃ s' := by
  obtain ⟨key?, s₁, s₂, hlayout, hkey, hcolumn, hmatching, hsurplus, htidy⟩ := reconcile_parts h
  exact ⟨key?, { s with held := a.layout.header :: a.layout.rows ++ s.held }, s₁, s₂, hlayout,
    hkey, hcolumn,
    ⟨rfl, rfl, rfl⟩, hmatching, hsurplus, tidied_of_tidy htidy⟩

/-- Rows are compared if there is a sequence to compare them with; else nothing is done. -/
theorem compareRows_spec {u : Unit} (h : (compareRows env runRow o columns).Yields s u s') :
    s' = s ∧ (∀ items name sequence, s.kept.lookup o.slot = some (.array items) →
        splitBinding o.expression ≠ .ok (name, sequence)) ∨
      ∃ items name sequence a, s.kept.lookup o.slot = some (.array items) ∧
        splitBinding o.expression = .ok (name, sequence) ∧
        (reconcile env runRow o columns name items).Yields s a s' := by
  obtain ⟨v?, s₀, hkept, h₁⟩ := yields_bind.mp h
  obtain ⟨rfl, rfl⟩ := yields_kept?.mp hkept
  split at h₁
  · next items name sequence hk hb =>
    obtain ⟨a, s₁, hreconcile, hpure⟩ := yields_bind.mp h₁
    obtain ⟨-, rfl⟩ := yields_pure.mp hpure
    exact .inr ⟨items, name, sequence, a, hk, hb, hreconcile⟩
  · next hno =>
    obtain ⟨-, rfl⟩ := yields_pure.mp h₁
    exact .inl ⟨rfl, fun items name sequence hk hb => hno items name sequence hk hb⟩

end Whole

/-- The comparing phase of a `verifyRows` with a sequence to compare is the comparison. -/
theorem reconcile_of_runCall [Fixture φ] {env : Surroundings} {o : Occurrence} {inside : List Call}
    {name sequence : String} {items : List Value} (hcommand : o.command = .verifyRows)
    (hkept : s.kept.lookup o.slot = some (.array items))
    (hbinding : splitBinding o.expression = .ok (name, sequence))
    (h : (runCall env .verify (.mk o inside)).Yields s () s') :
    ∃ a, (reconcile env (fun calls => runRow env calls (pure ())) o (inside.map Call.head) name
        items).Yields { s with visits := s.visits ++ [(.verify, o)] } a s' := by
  unfold runCall step act at h
  simp only [hcommand, Command.owns, if_true] at h
  rw [yields_visit] at h
  rcases compareRows_spec h with ⟨-, hno⟩ | ⟨items', name', sequence', a, hkept',
    hbinding', hreconcile⟩
  · exact absurd hbinding (hno items name sequence hkept)
  · cases hkept.symm.trans hkept'
    cases hbinding.symm.trans hbinding'
    exact ⟨a, hreconcile⟩

end Run
end LiveSpec
