import LiveSpec.Engine

/-!
# Listeners in the place of others

`mapListeners g` puts the listener `g l` in the place of each listener `l`: in registrations and
extensions, at whatever depth these stand, in engines, and in what fixtures bring along. Nothing
else of what is registered depends on who listens, so the set of extensions is the same but for the
listeners (`ExtensionSet.of_mapListeners`).
-/

namespace LiveSpec

variable (g : Listener → Listener)

/-- The bus with other listeners in the same places. -/
def Bus.mapListeners (b : Bus) : Bus := b.map fun (c, l) => (c, g l)

mutual
/-- A registration of other listeners. -/
def Registration.mapListeners : Registration → Registration
  | .listeners ls => .listeners (Bus.mapListeners g ls)
  | .extension name items => .extension name (Registration.mapListenersAll items)
  | r => r
/-- Registrations of other listeners. -/
def Registration.mapListenersAll : List Registration → List Registration
  | [] => []
  | r :: rs => Registration.mapListeners r :: Registration.mapListenersAll rs
end

/-- An extension that registers other listeners. -/
def Extension.mapListeners (e : Extension) : Extension :=
  { e with items := Registration.mapListenersAll g e.items }

/-- A builder with which other listeners were registered. -/
def ExtensionBuilder.mapListeners (b : ExtensionBuilder) : ExtensionBuilder :=
  { b with listeners := Bus.mapListeners g b.listeners }

/-- A set with other listeners. -/
def ExtensionSet.mapListeners (set : ExtensionSet) : ExtensionSet :=
  { set with listeners := Bus.mapListeners g set.listeners }

/-- An engine with other listeners. -/
def Engine.mapListeners {φ : Type} (e : Engine φ) : Engine φ :=
  { e with extensions := e.extensions.map (Extension.mapListeners g) }

/-- Fixtures that bring along other listeners, and are the same otherwise. -/
@[reducible] def Fixture.mapListeners {φ : Type} (i : Fixture φ) : Fixture φ :=
  { i with extensions := fun f => (i.extensions f).map (Extension.mapListeners g) }

variable {g}

@[simp] theorem ExtensionBuilder.isSealed_mapListeners (b : ExtensionBuilder) :
    (b.mapListeners g).isSealed = b.isSealed := rfl

@[simp] theorem ExtensionBuilder.registry_mapListeners (b : ExtensionBuilder) :
    (b.mapListeners g).registry = b.registry := rfl

theorem Bus.on_mapListeners (b : Bus) (c : Channel) :
    (b.mapListeners g).on c = (b.on c).map fun (place, l) => (place, g l) := by
  unfold Bus.on Bus.mapListeners
  rw [List.zipIdx_map, List.filterMap_map, List.map_filterMap]
  congr 1
  funext ⟨⟨c', l⟩, place⟩
  simp only [Function.comp, Prod.map]
  split <;> rfl

namespace ExtensionBuilder

variable {α β : Type}

theorem run_bind {x : Building α} {f : α → Building β} {b : ExtensionBuilder} :
    (x >>= f).run b = match x.run b with
      | (.ok a, b') => (f a).run b'
      | (.error e, b') => (.error e, b') := by
  show (ExceptT.bindCont f (x.run b).1).run (x.run b).2 = _
  rcases x.run b with ⟨_ | a, b'⟩ <;> rfl

/-- The same change to builders that differ in the listeners alone: `y` goes with the other
listeners. It has the same answer, and leads again to builders that differ in the listeners alone.
-/
def Mirrors (g : Listener → Listener) (x y : Building α) : Prop :=
  ∀ b : ExtensionBuilder, y.run (b.mapListeners g) = ((x.run b).1, (x.run b).2.mapListeners g)

namespace Mirrors

theorem bind {x y : Building α} {f f' : α → Building β} (hx : Mirrors g x y)
    (hf : ∀ a, Mirrors g (f a) (f' a)) :
    Mirrors g (x >>= f) (y >>= f') := fun b => by
  rw [run_bind, run_bind, hx b]
  rcases x.run b with ⟨e | a, b'⟩
  · rfl
  · exact hf a b'

theorem pure {a : α} : Mirrors g (pure a) (pure a) := fun _ => rfl

theorem throw {e : Error} : Mirrors g (throw e : Building α) (throw e) := fun _ => rfl

/-- A change that does not look at the listeners. -/
theorem modify {f f' : ExtensionBuilder → ExtensionBuilder}
    (hf : ∀ b, f' (b.mapListeners g) = (f b).mapListeners g) :
    Mirrors g (modify f : Building PUnit) (modify f') :=
  fun b => congrArg (Prod.mk (Except.ok ())) (hf b)

theorem get {f f' : ExtensionBuilder → Building α}
    (hf : ∀ b, Mirrors g (f b) (f' (b.mapListeners g))) :
    Mirrors g (MonadState.get >>= f) (MonadState.get >>= f') := fun b => hf b b

theorem ensureOpen {what : String} :
    Mirrors g (ensureOpen what) (ensureOpen what) := get fun b => by
  rw [isSealed_mapListeners]
  split
  · exact throw
  · exact pure

theorem onRegistry {f : Registry → Except Error Registry} :
    Mirrors g (onRegistry f) (onRegistry f) := get fun b => by
  rw [registry_mapListeners]
  cases f b.registry with
  | ok r => exact fun _ => rfl
  | error e => exact throw

theorem addListeners {ls : Bus} :
    Mirrors g (ls.forM addListener) ((ls.mapListeners g).forM addListener) := by
  induction ls with
  | nil => exact pure
  | cons l ls ih =>
    refine bind (bind ensureOpen fun _ => modify fun b => ?_) fun _ => ih
    simp [mapListeners, Bus.mapListeners]

mutual

theorem add : (r : Registration) → Mirrors g (add r) (add (r.mapListeners g))
  | .command _ _ _ | .modifier _ _ => bind ensureOpen fun _ => onRegistry
  | .listeners _ => addListeners
  | .linkedCss _ _ | .embeddedCss _ | .linkedScript _ _ | .embeddedScript _ | .copy _ (some _) =>
    bind ensureOpen fun _ => modify fun _ => rfl
  | .copy _ none => bind ensureOpen fun _ => throw
  | .extension _ items => bind ensureOpen fun _ => addAll items
  | .refused _ => throw

theorem addAll :
    (rs : List Registration) → Mirrors g (addAll rs) (addAll (Registration.mapListenersAll g rs))
  | [] => pure
  | r :: rs => bind (add r) fun _ => addAll rs

end

/-- What is handed out at the end. -/
theorem build {x y : Building Unit} (h : Mirrors g x y) :
    ((do y; build : Building _).run .empty).1 =
    ((do x; build : Building _).run .empty).1.map (ExtensionSet.mapListeners g) := by
  have hy := h empty
  rw [run_bind, run_bind, show y.run empty = _ from hy]
  rcases x.run empty with ⟨e | _, ⟨registry, listeners, head, assets, _ | _⟩⟩ <;> rfl

end Mirrors
end ExtensionBuilder

theorem Extension.toRegistration_mapListeners (es : List Extension) :
    (es.map (Extension.mapListeners g)).map toRegistration =
      Registration.mapListenersAll g (es.map toRegistration) := by
  induction es with
  | nil => rfl
  | cons e es ih => exact congrArg (_ :: ·) ih

open ExtensionBuilder in
/-- Who listens makes no other difference to what is registered. -/
theorem ExtensionSet.of_mapListeners (es : List Extension) :
    of (es.map (Extension.mapListeners g)) = (of es).map (ExtensionSet.mapListeners g) := by
  have h := ((Mirrors.add (g := g) Extension.builtIn.toRegistration).bind fun _ =>
    .addAll (es.map Extension.toRegistration)).build
  rw [← Extension.toRegistration_mapListeners, bind_assoc, bind_assoc] at h
  exact h

end LiveSpec
