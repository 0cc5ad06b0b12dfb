import LiveSpec.Proofs.Results
import LiveSpec.Run.State

/-!
# Parts of a run that go well

`x.Yields s a s'` says that the part `x` of a run, started in the state `s`, ends without an error,
with the answer `a` and in the state `s'`. The first lemmas say this of each small part, as an
equivalence, so that a long part can be taken to pieces.

`Keeps R x` says that `x` leads from a state to one that is related to it by `R`, whatever its
answer. For a preorder it is enough to look at the pieces: `Keeps.bind`.
-/

namespace LiveSpec

open Markup (NodeId Tree TreeError)

/-- The state in which the text and the link of an element are bound. -/
def RunState.bound {φ : Type} (s : RunState φ) (n : NodeId) : RunState φ :=
  let text := s.scope.bind "TEXT" (.string (Text.normal (s.tree.text n)))
  { s with scope := text.bind "HREF" ((s.tree.attribute? n "href").elim .null .string) }

namespace Run

variable {φ α β : Type} {s s' : RunState φ}

/-- How the part ends: with an answer or an error, and in which state. -/
def result (x : Run φ α) (s : RunState φ) : Except Error α × RunState φ := (ExceptT.run x).run s

/-- The part ends without an error, with this answer and in this state. -/
def Yields (x : Run φ α) (s : RunState φ) (a : α) (s' : RunState φ) : Prop :=
  x.result s = (.ok a, s')

/-- A part that ends with an answer ends in the state that it leaves. -/
theorem yields_result {x : Run φ α} {a : α} (h : (x.result s).1 = .ok a) :
    x.Yields s a (x.result s).2 :=
  Prod.ext h rfl

/-- To give a value changes nothing. -/
theorem yields_pure {a b : α} : (pure a : Run φ α).Yields s b s' ↔ b = a ∧ s' = s := by
  constructor
  · intro h; cases h; exact ⟨rfl, rfl⟩
  · rintro ⟨rfl, rfl⟩; rfl

/-- What fails has no value. -/
theorem not_yields_throw {e : Error} {a : α} : ¬ (throw e : Run φ α).Yields s a s' :=
  fun h => by cases h

/-- Of two parts in a row the second one runs where the first one ended, if that has a value. -/
theorem result_bind {x : Run φ α} {f : α → Run φ β} :
    (x >>= f).result s = match x.result s with
      | (.ok a, s₁) => (f a).result s₁
      | (.error e, s₁) => (.error e, s₁) := by
  show (ExceptT.bindCont f (x.result s).1).run (x.result s).2 = _
  rcases x.result s with ⟨_ | a, s₁⟩ <;> rfl

/-- After a part that goes well the next one runs from the state that it left. -/
theorem result_bind_of {s₁ : RunState φ} {x : Run φ α} {f : α → Run φ β} {a : α}
    (h : x.result s = (.ok a, s₁)) :
    (x >>= f).result s = (f a).result s₁ := by
  rw [result_bind, h]

/-- A chain of two parts ends well if both do. -/
theorem yields_bind {x : Run φ α} {f : α → Run φ β} {b : β} :
    (x >>= f).Yields s b s' ↔ ∃ a s₁, x.Yields s a s₁ ∧ (f a).Yields s₁ b s' := by
  unfold Yields
  rw [result_bind]
  rcases x.result s with ⟨e | a, s₁⟩
  · refine ⟨fun h => ?_, fun ⟨a, s₂, h, _⟩ => ?_⟩
    · cases h
    · cases h
  · refine ⟨fun h => ⟨a, s₁, rfl, h⟩, fun ⟨_, _, h, h'⟩ => ?_⟩
    cases h
    exact h'

/-- Two chains end the same way if their first parts do, and the others from wherever those lead. -/
theorem result_bind_congr {x y : Run φ α} {f g : α → Run φ β} (h : x.result s = y.result s)
    (hrest : ∀ {a s₁}, y.Yields s a s₁ → (f a).result s₁ = (g a).result s₁) :
    (x >>= f).result s = (y >>= g).result s := by
  rw [result_bind, result_bind, h]
  rcases hy : y.result s with ⟨_ | a, s₁⟩
  · rfl
  · exact hrest hy

/-- Parts of a run that have the same results are the same. -/
theorem ext {x y : Run φ α} (h : ∀ s, x.result s = y.result s) : x = y := funext h

theorem yields_modify {f : RunState φ → RunState φ} {u : PUnit} :
    (modify f : Run φ PUnit).Yields s u s' ↔ s' = f s := by
  constructor
  · intro h; cases h; rfl
  · rintro rfl; rfl

theorem yields_get {a : RunState φ} : (get : Run φ (RunState φ)).Yields s a s' ↔
    a = s ∧ s' = s := by
  constructor
  · intro h; cases h; exact ⟨rfl, rfl⟩
  · rintro ⟨rfl, rfl⟩; rfl

theorem yields_set {t : RunState φ} {u : PUnit} : (set t : Run φ PUnit).Yields s u s' ↔ s' = t := by
  constructor
  · intro h; cases h; rfl
  · rintro rfl; rfl

/-- A new slot is the first one that is not in use. -/
theorem yields_freshSlot {n : Nat} : (freshSlot : Run φ Nat).Yields s n s' ↔
    n = s.nextSlot ∧ s' = { s with nextSlot := s.nextSlot + 1 } := by
  unfold freshSlot
  rw [yields_bind]
  constructor
  · rintro ⟨_, _, hget, hrest⟩
    obtain ⟨rfl, rfl⟩ := yields_get.mp hget
    obtain ⟨_, _, hset, hpure⟩ := yields_bind.mp hrest
    obtain ⟨rfl, rfl⟩ := yields_pure.mp hpure
    exact ⟨rfl, yields_set.mp hset⟩
  · rintro ⟨rfl, rfl⟩
    refine ⟨s, s, yields_get.mpr ⟨rfl, rfl⟩, yields_bind.mpr ⟨⟨⟩, _, yields_set.mpr rfl, ?_⟩⟩
    exact yields_pure.mpr ⟨rfl, rfl⟩

/-- What a slot keeps is read off the state. -/
theorem yields_kept? {slot : Nat} {v? : Option Value} :
    (kept? slot : Run φ (Option Value)).Yields s v? s' ↔ v? = s.kept.lookup slot ∧ s' = s := by
  constructor
  · intro h
    obtain ⟨_, _, hget, hpure⟩ := yields_bind.mp h
    obtain ⟨rfl, rfl⟩ := yields_get.mp hget
    exact yields_pure.mp hpure
  · rintro ⟨rfl, rfl⟩
    exact yields_bind.mpr ⟨_, _, yields_get.mpr ⟨rfl, rfl⟩, yields_pure.mpr ⟨rfl, rfl⟩⟩

theorem result_kept? {slot : Nat} : (kept? slot).result s = (.ok (s.kept.lookup slot), s) := rfl

/-! ## Parts that concern the tree -/

theorem result_look {f : Tree → α} : (look f).result s = (.ok (f s.tree), s) := rfl

/-- What is found in the tree is the answer, and what is missing is an error of the run. -/
theorem result_find {f : Tree → Except TreeError α} : (find f).result s = match f s.tree with
    | .ok a => (.ok a, s)
    | .error e => (.error (.element e), s) := by
  unfold find
  rw [result_bind]
  show Run.result (match f s.tree with | .ok a => pure a | .error e => throw (.element e)) s = _
  cases f s.tree <;> rfl

theorem yields_look {f : Tree → α} {a : α} : (look f).Yields s a s' ↔ a = f s.tree ∧ s' = s := by
  constructor
  · intro h; cases h; exact ⟨rfl, rfl⟩
  · rintro ⟨rfl, rfl⟩; rfl

/-- To find something in the tree changes nothing. -/
theorem yields_find {f : Tree → Except TreeError α} {a : α} :
    (find f).Yields s a s' ↔ f s.tree = .ok a ∧ s' = s := by
  unfold find
  rw [yields_bind]
  constructor
  · rintro ⟨_, _, h, h'⟩
    obtain ⟨rfl, rfl⟩ := yields_get.mp h
    split at h'
    · next hf =>
      obtain ⟨rfl, rfl⟩ := yields_pure.mp h'
      exact ⟨hf, rfl⟩
    · exact absurd h' not_yields_throw
  · rintro ⟨h, rfl⟩
    refine ⟨s', s', yields_get.mpr ⟨rfl, rfl⟩, ?_⟩
    rw [h]
    exact yields_pure.mpr ⟨rfl, rfl⟩

theorem yields_change {f : Tree → Tree} {u : Unit} :
    (change f).Yields s u s' ↔ s' = { s with tree := f s.tree } :=
  yields_modify

/-- A change that may fail succeeds where the edit does. -/
theorem yields_attempt {f : Tree → Except TreeError Tree} {u : Unit} :
    (attempt f).Yields s u s' ↔ ∃ t, f s.tree = .ok t ∧ s' = { s with tree := t } := by
  unfold attempt
  rw [yields_bind]
  constructor
  · rintro ⟨t, _, h, h'⟩
    obtain ⟨h, rfl⟩ := yields_find.mp h
    exact ⟨t, h, yields_change.mp h'⟩
  · rintro ⟨t, h, rfl⟩
    exact ⟨t, s, yields_find.mpr ⟨h, rfl⟩, yields_change.mpr rfl⟩

/-! ## Parts that concern the scope -/

/-- The variables of an element are bound in the scope, and nothing else changes. -/
theorem result_bindElement {n : NodeId} : (bindElement n).result s = (.ok (), s.bound n) := rfl

/-- An evaluation always ends, with a value or an error as its answer, and changes the scope alone.
-/
theorem result_evaluate [Fixture φ] {source : String} : (evaluate source).result s =
    (.ok (s.scope.evaluate source).1, { s with scope := (s.scope.evaluate source).2 }) := rfl

/-- So does giving a value to what a text names. -/
theorem result_assign [Fixture φ] {source : String} {v : Value} : (assign source v).result s =
    (.ok (s.scope.assign source v).1, { s with scope := (s.scope.assign source v).2 }) := rfl

/-! ## What a part keeps -/

/-- The part leads to states that are related to the one that it started in. -/
def Keeps (R : RunState φ → RunState φ → Prop) (x : Run φ α) : Prop :=
  ∀ ⦃s a s'⦄, x.Yields s a s' → R s s'

namespace Keeps

variable {R : RunState φ → RunState φ → Prop} {x : Run φ α} {f : α → Run φ β}

/-- What a part keeps, weaker relations are kept by it as well. -/
theorem mono {R' : RunState φ → RunState φ → Prop} (hx : Keeps R x)
    (h : ∀ {s s'}, R s s' → R' s s') : Keeps R' x :=
  fun _ _ _ hy => h (hx hy)

/-- A part is left by an error at once, so it keeps anything. -/
theorem throw {e : Error} : Keeps R (throw e : Run φ α) := fun _ _ _ h => absurd h not_yields_throw

variable [IsPreorder (RunState φ) R]

theorem pure {a : α} : Keeps R (pure a : Run φ α) := fun s _ s' h => by
  obtain ⟨-, rfl⟩ := yields_pure.mp h
  exact refl_of R s'

/-- Parts that keep a preorder keep it one after the other. -/
theorem bind (hx : Keeps R x) (hf : ∀ a, Keeps R (f a)) : Keeps R (x >>= f) := fun s b s' h => by
  obtain ⟨a, s₁, ha, hb⟩ := yields_bind.mp h
  exact trans_of R (hx ha) (hf a hb)

theorem look {g : Tree → α} : Keeps R (Run.look g) := fun s _ s' h => by
  obtain ⟨-, rfl⟩ := yields_look.mp h
  exact refl_of R s'

theorem find {g : Tree → Except TreeError α} : Keeps R (Run.find g) := fun s _ s' h => by
  obtain ⟨-, rfl⟩ := yields_find.mp h
  exact refl_of R s'

theorem get : Keeps R (MonadState.get : Run φ (RunState φ)) := fun s _ s' h => by
  obtain ⟨-, rfl⟩ := yields_get.mp h
  exact refl_of R s'

theorem spot {n : NodeId} : Keeps R (Run.spot n : Run φ Spot) := look

/-- Parts of a list, one after the other. -/
theorem forM {xs : List β} {g : β → Run φ PUnit} (h : ∀ x ∈ xs, Keeps R (g x)) :
    Keeps R (xs.forM g) := by
  induction xs with
  | nil => exact pure
  | cons x xs ih =>
    exact bind (h x List.mem_cons_self) fun _ => ih fun y hy => h y (List.mem_cons_of_mem x hy)

/-- A list is gone through with a relation kept if each entry keeps it. -/
theorem mapM {γ : Type} {xs : List β} {g : β → Run φ γ} (h : ∀ x ∈ xs, Keeps R (g x)) :
    Keeps R (xs.mapM g) := by
  induction xs with
  | nil => exact pure
  | cons x xs ih =>
    rw [List.mapM_cons]
    exact bind (h x List.mem_cons_self) fun _ =>
      bind (ih fun y hy => h y (List.mem_cons_of_mem x hy)) fun _ => pure

end Keeps

/-! ## What a part keeps however it ends -/

/-- The part leads to states that are related to the one that it started in, whether it ends with an
answer or with an error. -/
def Always (R : RunState φ → RunState φ → Prop) (x : Run φ α) : Prop := ∀ s, R s (x.result s).2

namespace Always

variable {R : RunState φ → RunState φ → Prop} {x : Run φ α} {f : α → Run φ β}

/-- The same of what holds of failing parts too. -/
theorem mono {R' : RunState φ → RunState φ → Prop} (hx : Always R x)
    (h : ∀ {s s'}, R s s' → R' s s') : Always R' x :=
  fun s => h (hx s)

/-- What a part keeps on two accounts. -/
theorem and {R' : RunState φ → RunState φ → Prop} (h : Always R x) (h' : Always R' x) :
    Always (fun s s' => R s s' ∧ R' s s') x := fun s => ⟨h s, h' s⟩

/-- What holds however a part ends holds where it goes well. -/
theorem keeps (hx : Always R x) : Keeps R x := fun s _ s' hy => by
  have hs := hx s
  rw [show x.result s = _ from hy] at hs
  exact hs

/-- A change of the state that is in the relation. -/
theorem modify {g : RunState φ → RunState φ} (h : ∀ s, R s (g s)) :
    Always R (modify g : Run φ PUnit) := h

variable [IsPreorder (RunState φ) R]

theorem pure {a : α} : Always R (pure a : Run φ α) := refl_of R

theorem throw {e : Error} : Always R (throw e : Run φ α) := refl_of R

/-- What comes second is given only the answers that the first part can have. -/
theorem bind_yields (hx : Always R x) (hf : ∀ {s a s'}, x.Yields s a s' → Always R (f a)) :
    Always R (x >>= f) := by
  intro s
  have hs := hx s
  rw [result_bind]
  rcases hresult : x.result s with ⟨e | a, s₁⟩
  · rw [hresult] at hs
    exact hs
  · rw [hresult] at hs
    exact trans_of R hs (hf hresult s₁)

/-- A part that fails leaves what it had reached, so nothing is asked of what comes after it. -/
theorem bind (hx : Always R x) (hf : ∀ a, Always R (f a)) : Always R (x >>= f) :=
  bind_yields hx fun {_ a _} _ => hf a

theorem get : Always R (MonadState.get : Run φ (RunState φ)) := refl_of R

theorem look {g : Tree → α} : Always R (Run.look g) := refl_of R

theorem find {g : Tree → Except TreeError α} : Always R (Run.find g) := by
  refine bind get fun s => ?_
  split
  · exact pure
  · exact throw

theorem spot {n : NodeId} : Always R (Run.spot n : Run φ Spot) := look

theorem kept? {slot : Nat} : Always R (Run.kept? slot : Run φ (Option Value)) := refl_of R

/-- Parts of a list, one after the other. -/
theorem forM {xs : List β} {g : β → Run φ PUnit} (h : ∀ x ∈ xs, Always R (g x)) :
    Always R (xs.forM g) := by
  induction xs with
  | nil => exact pure
  | cons x xs ih =>
    exact bind (h x List.mem_cons_self) fun _ => ih fun y hy => h y (List.mem_cons_of_mem x hy)

/-- A list is gone through with a relation if each entry is, up to the one that fails. -/
theorem mapM {γ : Type} {xs : List β} {g : β → Run φ γ} (h : ∀ x ∈ xs, Always R (g x)) :
    Always R (xs.mapM g) := by
  induction xs with
  | nil => exact pure
  | cons x xs ih =>
    rw [List.mapM_cons]
    exact bind (h x List.mem_cons_self) fun _ =>
      bind (ih fun y hy => h y (List.mem_cons_of_mem x hy)) fun _ => pure

end Always

end Run

/-! ## A run to try statements on -/

namespace Sample

/-- Surroundings without listeners and nested runs. -/
def surroundings : Surroundings :=
  ⟨[], ⟨["sample"]⟩, "Sample", .outermost, 0, fun name _ => return .error (.unknownRunner name)⟩

/-- The state at the start of a run over a tree, with a fixture without members. -/
def start (t : Tree) : RunState StockFixture :=
  ⟨t, ⟨.bare "Sample", []⟩, .empty, [], 100, [], [], [], .empty⟩

end Sample
end LiveSpec
