import LiveSpec.Proofs.Run.Slots
import LiveSpec.Proofs.Table.Matching

/-!
# The slots of a row

The calls that are moved to a row get slots that nobody had before (`retarget_fresh`), and whatever
runs on the row keeps values there only (`Uses`, `runRow_uses`). So no call of a row writes over
what another one has kept, and no later row over what an earlier one has (`Matching.uses`).
-/

namespace LiveSpec

open Markup (NodeId)

variable {φ : Type} {s s' : RunState φ} {S : Nat → Prop} {slot : Nat}

/-- Two states between which values were kept in slots of a set only, and slots were only taken. -/
structure Uses (S : Nat → Prop) (s s' : RunState φ) : Prop where
  kept {slot : Nat} : ¬ S slot → s'.kept.lookup slot = s.kept.lookup slot
  nextSlot : s.nextSlot ≤ s'.nextSlot

instance : IsPreorder (RunState φ) (Uses S) where
  refl _ := ⟨fun _ => rfl, Nat.le_refl _⟩
  trans _ _ _ h h' :=
    ⟨fun hslot => (h'.kept hslot).trans (h.kept hslot), Nat.le_trans h.nextSlot h'.nextSlot⟩

namespace Uses

theorem keeping (hS : S slot) (h : Keeping slot s s') : Uses S s s' := by
  refine ⟨fun {other} hother => ?_, Nat.le_of_eq h.nextSlot.symm⟩
  obtain ⟨vs, hvs⟩ := h.kept
  have hnone : (vs.map (Prod.mk slot)).lookup other = none := by
    apply List.lookup_eq_none_iff.mpr
    intro entry hentry
    obtain ⟨v, -, rfl⟩ := List.mem_map.mp hentry
    simp only [bne_iff_ne, ne_eq]
    rintro rfl
    exact hother hS
  rw [hvs, List.lookup_append, hnone, Option.none_or]

theorem mute (h : Mute s s') : Uses S s s' :=
  ⟨fun _ => by rw [h.kept], Nat.le_of_eq h.nextSlot.symm⟩

theorem mono {S' : Nat → Prop} (h : Uses S s s') (hsub : ∀ slot, S slot → S' slot) : Uses S' s s' :=
  ⟨fun {slot} hslot => h.kept fun hS => hslot (hsub slot hS), h.nextSlot⟩

end Uses

/-- Between two states values were kept in slots that were taken since, and in no others. -/
def UsesNew (s s' : RunState φ) :
    Prop := Uses (fun slot => s.nextSlot ≤ slot ∧ slot < s'.nextSlot) s s'

instance : IsPreorder (RunState φ) UsesNew where
  refl _ := ⟨fun _ => rfl, Nat.le_refl _⟩
  trans s _ s₂ h h' := by
    show Uses (fun slot => s.nextSlot ≤ slot ∧ slot < s₂.nextSlot) s s₂
    refine trans_of (Uses _) (h.mono fun slot hslot => ?_) (h'.mono fun slot hslot => ?_)
    · exact ⟨hslot.1, Nat.lt_of_lt_of_le hslot.2 h'.nextSlot⟩
    · exact ⟨Nat.le_trans h.nextSlot hslot.1, hslot.2⟩

/-- What was kept before is kept. -/
theorem UsesNew.kept_eq (h : UsesNew s s') (hslot : slot < s.nextSlot) :
    s'.kept.lookup slot = s.kept.lookup slot :=
  h.kept fun hnew => Nat.not_lt.mpr hnew.1 hslot

/-- Nothing is kept in the slots that are not in use. -/
def RunState.SlotsFree (s : RunState φ) : Prop :=
  ∀ slot, s.nextSlot ≤ slot → s.kept.lookup slot = none

theorem RunState.SlotsFree.next (h : s.SlotsFree) (hs : UsesNew s s') :
    s'.SlotsFree := fun slot hslot =>
  (hs.kept fun hnew => Nat.not_lt.mpr hslot hnew.2).trans (h slot (Nat.le_trans hs.nextSlot hslot))

namespace Run

variable {env : Surroundings} {o : Occurrence} {p : Phase} {l : TableLayout}
  {columns calls : List Occurrence} {row : NodeId}

/-! ## Slots for the calls of a row -/

/-- The calls of a row get slots of their own, which nobody had before. -/
theorem retarget_fresh (h : (retarget l columns row).Yields s calls s') :
    s'.kept = s.kept ∧ (calls.map Occurrence.slot).Nodup ∧ ∀ c ∈ calls, s.nextSlot ≤ c.slot ∧
      c.slot < s'.nextSlot := by
  obtain ⟨placed, s₁, hfind, hmap⟩ := yields_bind.mp h
  obtain ⟨-, rfl⟩ := yields_find.mp hfind
  obtain ⟨calls', -, hslots, hresult⟩ := result_mapM_freshSlot placed s₁
  cases hresult.symm.trans hmap
  refine ⟨rfl, hslots ▸ List.nodup_range', fun c hc => ?_⟩
  have hmem : c.slot ∈ List.range' s₁.nextSlot calls.length := hslots ▸ List.mem_map_of_mem hc
  exact List.mem_range'_1.mp hmem

theorem retarget_uses : Always (Uses S) (retarget l columns row : Run φ _) := by
  have hfresh : Always (Uses S) (freshSlot : Run φ Nat) :=
    fun s => ⟨fun _ => rfl, Nat.le_succ s.nextSlot⟩
  exact .bind .find fun _ => .mapM fun _ _ => .bind hfresh fun _ => .pure

variable [Fixture φ]

/-! ## What runs on a row -/

section Within

variable {name : String} {key? : Option (Nat × Occurrence)} {items : List Value}

theorem askKey_mute {item : Value} {table : NodeId} :
    Always Mute (askKey env table name key? item : Run φ _) :=
  .bind bindVariable_mute fun _ => itemKey_mute

/-- Where nothing runs on the rows, nothing is kept for them. -/
theorem matchItems_uses {free : List NodeId} {last : NodeId} :
    Always (Uses S)
    (matchItems env (fun _ => pure ()) o columns name l key? items free last : Run φ _) := by
  induction items generalizing free last with
  | nil => exact .pure
  | cons item items ih =>
    refine .bind (bindVariable_mute.mono .mute) fun _ =>
      .bind (itemKey_mute.mono .mute) fun key? => ?_
    cases key? with
    | none => exact .bind ih fun _ => .pure
    | some key =>
      refine .bind takeRow_always fun found => ?_
      split
      · exact .bind retarget_uses fun calls =>
          .bind (holding_always (fun h _ _ => .mute h) .pure) fun _ => .bind ih fun _ => .pure
      · exact .bind (addMissingRow_mute.mono .mute) fun _ => .bind ih fun _ => .pure

theorem verifyRows_uses (ho : S o.slot) :
    Always (Uses S) (verifyRows env (fun _ between => between) o columns p : Run φ Unit) := by
  cases p with
  | setup => exact .pure
  | execute => exact produceItems_keeping.mono (.keeping ho)
  | verify =>
    refine .bind .kept? fun v? => ?_
    split
    · refine .bind (.bind .find fun l => holding_always (fun h _ _ => .mute h)
        (.bind .find fun key? => ?_)) fun _ => .pure
      exact .bind matchItems_uses fun _ => .bind (recordSurplus_mute.mono .mute) fun _ => .pure
    · exact .pure

end Within

theorem part_uses (ho : S o.slot) : Always (Uses S) (part env o p : Run φ Unit) := by
  by_cases hc : o.command = .verifyRows
  · unfold part
    rw [hc]
    exact verifyRows_uses ho
  · exact (part_keeping hc).mono (.keeping ho)

theorem stepAlone_uses (ho : S o.slot) : Always (Uses S) (stepAlone env p o : Run φ Unit) := by
  rw [stepAlone_eq]
  exact .bind (.modify fun s => ⟨fun _ => rfl, Nat.le_refl _⟩) fun _ => part_uses ho

/-- **The calls of a row keep values in their own slots only.** -/
theorem runRow_uses (hcalls : ∀ c ∈ calls, S c.slot) :
    Always (Uses S) (runRow env calls (pure ()) : Run φ Unit) := by
  have hstep (p : Phase) (c : Occurrence) (hc : c ∈ calls) :
      Always (Uses S) (stepAlone env p c : Run φ Unit) :=
    stepAlone_uses (hcalls c hc)
  refine .bind (.forM (hstep .setup)) fun _ => .bind (.forM fun c hc => ?_) fun _ =>
    .bind .pure fun _ =>
    .bind (.forM fun c hc => ?_) fun _ => .forM (hstep .verify)
  · exact hstep .execute c (List.mem_of_mem_filter hc)
  · exact hstep .execute c (List.mem_of_mem_filter hc)

/-- A row takes new slots, and values are kept in these. -/
theorem row_uses {s₁ : RunState φ} {ns : List NodeId}
    (hmoved : (retarget l columns row).Yields s calls s₁)
    (hran : (holding ns (runRow env calls (pure ()))).Yields s₁ () s') : UsesNew s s' := by
  have hcalls := (retarget_fresh hmoved).2.2
  have hrun : Uses (fun slot => s.nextSlot ≤ slot ∧ slot < s₁.nextSlot) s₁ s' :=
    (holding_always (fun h _ _ => .mute h) (runRow_uses hcalls)).keeps hran
  exact trans_of (Uses _) (retarget_uses.keeps hmoved)
    (hrun.mono fun _ hslot => ⟨hslot.1, Nat.lt_of_lt_of_le hslot.2 hrun.nextSlot⟩)

/-- **The rows of a comparison keep values in new slots**, and so leave alone what was kept before.
-/
theorem Matching.uses {name : String} {key? : Option (Nat × Occurrence)} {items : List Value}
    {free left : List NodeId} {last : NodeId} {fates : List Fate}
    (h : Matching env (fun calls => runRow env calls (pure ())) o columns name l key? items s free
      last fates left s') :
    UsesNew s s' := by
  have hask {table : NodeId} {item : Value} :
      Keeps UsesNew (askKey env table name key? item : Run φ _) :=
    askKey_mute.keeps.mono .mute
  induction h with
  | done => exact refl_of UsesNew _
  | keyless hasked _ ih => exact trans_of UsesNew (hask hasked) ih
  | shown hasked _ hmoved hran _ ih =>
    exact trans_of UsesNew (hask hasked) (trans_of UsesNew (row_uses hmoved hran) ih)
  | missing hasked _ hadded _ ih =>
    exact trans_of UsesNew (hask hasked)
      (trans_of UsesNew (.mute (addMissingRow_mute.keeps hadded)) ih)

end Run
end LiveSpec
