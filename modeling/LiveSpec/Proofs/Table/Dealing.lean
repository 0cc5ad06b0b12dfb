import LiveSpec.Run.Rows

/-!
# Dealing rows to items

An item with a key takes a row that shows this key as long as there is one, whichever it is. `Dealt`
is this rule alone, without the run around it. It settles how many items with a key end with a row
and how many without, and how many rows with the key are left (`Dealt.counts`): the greedy choice
makes no difference, because the rows that show one key are all alike to it.
-/

namespace LiveSpec

open Markup (NodeId)

namespace Fate

/-- The key of an item, if it had a value. -/
def key? : Fate → Option String
  | .keyless => none
  | .shown key _ _ => some key
  | .missing key _ => some key

/-- The row that an item took. -/
def taken? : Fate → Option NodeId
  | .shown _ row _ => some row
  | _ => none

/-- The key of an item that no row was left for. -/
def missed? : Fate → Option String
  | .missing key _ => some key
  | _ => none

end Fate

/-- Rows are dealt to items: what became of each item, and the rows that are left. -/
inductive Dealt (shows : NodeId → String) : List NodeId → List Fate → List NodeId → Prop
  | done {free : List NodeId} : Dealt shows free [] free
  | keyless {free left : List NodeId} {fates : List Fate} (rest : Dealt shows free fates left) :
    Dealt shows free (.keyless :: fates) left
  | shown {free others left : List NodeId} {row : NodeId} {key : String} {calls : List Occurrence}
    {fates : List Fate}
    (taken : free.Perm (row :: others)) (same : shows row = key)
      (rest : Dealt shows others fates left) :
    Dealt shows free (.shown key row calls :: fates) left
  | missing {free left : List NodeId} {row : NodeId} {key : String} {fates : List Fate}
    (none : ∀ r ∈ free, shows r ≠ key) (rest : Dealt shows free fates left) :
    Dealt shows free (.missing key row :: fates) left

namespace Dealt

variable {shows : NodeId → String} {free left : List NodeId} {fates : List Fate}

/-- The rows that were taken and those that are left are all the rows there were. -/
theorem perm (h : Dealt shows free fates left) :
    free.Perm (fates.filterMap Fate.taken? ++ left) := by
  induction h with
  | done => exact .refl _
  | keyless _ ih => exact ih
  | shown htaken _ _ ih => exact htaken.trans (ih.cons _)
  | missing _ _ ih => exact ih

/-- A row that was taken shows the key of the item that took it. -/
theorem shows_eq (h : Dealt shows free fates left) {key : String} {row : NodeId}
    {calls : List Occurrence} (hmem : .shown key row calls ∈ fates) : shows row = key := by
  induction h with
  | done => cases hmem
  | keyless _ ih =>
    rcases List.mem_cons.mp hmem with he | hmem
    · cases he
    · exact ih hmem
  | shown _ hsame _ ih =>
    rcases List.mem_cons.mp hmem with he | hmem
    · cases he
      exact hsame
    · exact ih hmem
  | missing _ _ ih =>
    rcases List.mem_cons.mp hmem with he | hmem
    · cases he
    · exact ih hmem

/-- **Conservation of items and rows.** Of the items with a key as many take a row as there are rows
for it, the others miss one, and the rows beyond the items are left. -/
theorem counts (h : Dealt shows free fates left) (k : String) :
    ((fates.filterMap Fate.taken?).map shows).count k =
      min ((fates.filterMap Fate.key?).count k) ((free.map shows).count k) ∧
    (fates.filterMap Fate.missed?).count k = (fates.filterMap Fate.key?).count
      k - (free.map shows).count k ∧
    (left.map shows).count k = (free.map shows).count k - (fates.filterMap Fate.key?).count k := by
  induction h with
  | done => simp
  | keyless _ ih => exact ih
  | @shown free others left row key calls fates htaken hsame _ ih =>
    have hrows : (free.map shows).count k = (shows row :: others.map shows).count k :=
      (htaken.map shows).count_eq k
    rw [hrows]
    simp only [List.filterMap_cons, Fate.taken?, Fate.key?, Fate.missed?, List.map_cons,
      List.count_cons, hsame]
    omega
  | @missing free left row key fates hnone _ ih =>
    have hzero : k = key → (free.map shows).count k = 0 := by
      rintro rfl
      refine List.count_eq_zero.mpr fun hmem => ?_
      obtain ⟨r, hr, he⟩ := List.mem_map.mp hmem
      exact hnone r hr he
    simp only [List.filterMap_cons, Fate.taken?, Fate.key?, Fate.missed?, List.count_cons]
    by_cases hk : k = key
    · have := hzero hk
      subst hk
      simp only [beq_self_eq_true, if_true]
      omega
    · have hne : (key == k) = false := beq_eq_false_iff_ne.mpr (Ne.symm hk)
      simpa [hne] using ih

end Dealt
end LiveSpec
