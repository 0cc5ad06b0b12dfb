import LiveSpec.Proofs.Evaluation.Mentioned

/-!
# What is set can be got

A value can be given to a variable and to a property of the fixture (`Place`). A text names such a
place if it is read as the variable or the property alone; every other text is refused, and changes
nothing (`Scope.assign_of_none`).

What the places hold after a write is said by one equation (`Scope.holds?_assign`): the place that
the text names has the value, the others have what they had. It asks of a fixture that a property
that is written is read back and that no other property changes (`KeepsWrites`), which is so for
tables and for data. By induction each place holds what was written last to it
(`Scope.holds?_assignAll`).
-/

namespace LiveSpec

/-- What a value can be given to. -/
inductive Place where
  | variable (name : String)
  | property (name : String)
deriving DecidableEq

namespace Place

/-- The expression that stands for a place. -/
def expr : Place → Expr
  | .variable name => .variable name
  | .property name => .property name

/-- The place that a statement names and does nothing with. -/
def ofStatement? : Statement → Option Place
  | .eval (.variable name) => some (.variable name)
  | .eval (.property name) => some (.property name)
  | _ => none

/-- The place that a text names. -/
def ofText? (text : String) : Option Place := (Statement.read text).toOption.bind ofStatement?

variable {place : Place} {st : Statement} {text : String}

theorem ofStatement?_eq_some : ofStatement? st = some place ↔ st = .eval place.expr := by
  constructor
  · intro h
    unfold ofStatement? at h
    split at h <;> cases h <;> rfl
  · rintro rfl
    cases place <;> rfl

theorem ofText?_eq_some : ofText? text = some place ↔
    Statement.read text = .ok (.eval place.expr) := by
  unfold ofText?
  cases Statement.read text with
  | error fault => simp [Except.toOption]
  | ok st => simp [Except.toOption, ofStatement?_eq_some]

/-- What a fixture is asked for by a write to a place. -/
def requests (v : Value) : Place → List Request
  | .variable _ => []
  | .property name => [.write name v]

end Place

/-- Among fixtures of a kind, properties can be written: a write succeeds and leaves a fixture of
the kind, the value is read back, and no other property changes. -/
structure KeepsWrites {φ : Type} [Fixture φ] (kind : φ → Prop) : Prop where
  succeeds {f : φ} (h : kind f) (member : String) (v : Value) :
    (Fixture.setProperty f member v).1 = .ok ()
  stays {f : φ} (h : kind f) (member : String) (v : Value) : kind (Fixture.setProperty f member v).2
  reads {f : φ} (h : kind f) (member other : String) (v : Value) :
    Fixture.property (Fixture.setProperty f member v).2 other =
      if member = other then .ok v else Fixture.property f other

/-- Says whether a fixture has properties at all. -/
def StockFixture.hasProperties : StockFixture → Bool
  | .table .. | .data .. => true
  | .bare _ => false

/-- The properties of tables and of data can be written. -/
theorem StockFixture.keepsWrites : KeepsWrites fun f : StockFixture => f.hasProperties = true where
  succeeds {f} h member v := by
    cases f with
    | table | data => rfl
    | bare => cases h
  stays {f} h member v := by
    cases f with
    | table | data => rfl
    | bare => cases h
  reads {f} h member other v := by
    cases f with
    | table | data =>
      by_cases hmember : member = other
      · simp [Fixture.property, Fixture.setProperty, property, setProperty,
          Entries.find?_put, hmember]
      · simp [Fixture.property, Fixture.setProperty, property, setProperty,
          Entries.find?_put, hmember]
    | bare => cases h

namespace Scope

section Fixtures

variable {φ : Type} [Fixture φ] {kind : φ → Prop} {s : Scope φ} {text : String}
  {place other : Place} {v : Value}

/-- What a place holds. -/
def holds? (s : Scope φ) : Place → Option Value
  | .variable name => s.bindings.find? name
  | .property name => (Fixture.property s.fixture name).toOption

/-- Gives a value to a place. -/
def give (s : Scope φ) (v : Value) : Place → Except FixtureError Unit × Scope φ
  | .variable name => (.ok (), s.bind name v)
  | .property name =>
    let (answer, f) := Fixture.setProperty s.fixture name v
    (answer, { s with fixture := f })

/-- Gives values to what texts name, one after the other; a text that cannot be set is passed over.
-/
def assignAll (s : Scope φ) (writes : List (String × Value)) : Scope φ :=
  writes.foldl (fun s w => (s.assign w.1 w.2).2) s

/-! ## One write -/

/-- A text that names a place gives it the value. -/
theorem assign_of_some (h : Place.ofText? text = some place) :
    s.assign text v = ((s.give v place).1.mapError (.ofFixture text), (s.give v place).2) := by
  unfold assign
  rw [Place.ofText?_eq_some.mp h]
  cases place <;> rfl

omit [Fixture φ] in
/-- **What names no place is refused,** with the same error in every scope, and changes nothing. -/
theorem assign_of_none (h : Place.ofText? text = none) :
    ∃ err, ∀ {φ : Type} [Fixture φ] (s : Scope φ) (v : Value),
      s.assign text v = (.error err, s) := by
  unfold Place.ofText? at h
  unfold assign
  cases hread : Statement.read text with
  | error fault => exact ⟨_, fun _ _ => rfl⟩
  | ok st =>
    rw [hread] at h
    have hst : Place.ofStatement? st = none := h
    cases st with
    | assign name e => exact ⟨_, fun _ _ => rfl⟩
    | eval e =>
      cases e with
      | «variable» name | property name => cases hst
      | _ => exact ⟨_, fun _ _ => rfl⟩

/-- A place has the value that it was given, and the others have what they had. -/
theorem holds?_give (hkind : KeepsWrites kind) (hs : kind s.fixture) :
    (s.give v place).2.holds? other = if place = other then some v else s.holds? other := by
  cases place with
  | «variable» name =>
    cases other with
    | «variable» n => simp [give, holds?, bind, Entries.find?_put]
    | property n => simp [give, holds?, bind]
  | property name =>
    cases other with
    | «variable» n => simp [give, holds?]
    | property n =>
      by_cases hname : name = n
      · simp [give, holds?, hkind.reads hs, hname, Except.toOption]
      · simp [give, holds?, hkind.reads hs, hname]

theorem give_fst (hkind : KeepsWrites kind) (hs : kind s.fixture) :
    (s.give v place).1 = .ok () := by
  cases place with
  | «variable» name => rfl
  | property name => exact hkind.succeeds hs name v

/-- **What the places hold after a write.** -/
theorem holds?_assign (hkind : KeepsWrites kind) (hs : kind s.fixture) :
    (s.assign text v).2.holds? other = if Place.ofText? text = some other then some v else
      s.holds? other := by
  cases h : Place.ofText? text with
  | none =>
    obtain ⟨err, herr⟩ := assign_of_none h
    rw [herr]
    rfl
  | some place =>
    rw [assign_of_some h]
    simp only [holds?_give hkind hs, Option.some.injEq]

/-- After a write the fixture is still one of the kind. -/
theorem kind_assign (hkind : KeepsWrites kind) (hs : kind s.fixture) (text : String) (v : Value) :
    kind (s.assign text v).2.fixture := by
  cases h : Place.ofText? text with
  | none =>
    obtain ⟨err, herr⟩ := assign_of_none h
    rw [herr]
    exact hs
  | some place =>
    rw [assign_of_some h]
    cases place with
    | «variable» name => exact hs
    | property name => exact hkind.stays hs name v

/-- A write succeeds exactly if the text names a place. -/
theorem assign_ok_iff (hkind : KeepsWrites kind) (hs : kind s.fixture) :
    (s.assign text v).1 = .ok () ↔ ∃ place, Place.ofText? text = some place := by
  cases h : Place.ofText? text with
  | none =>
    obtain ⟨err, herr⟩ := assign_of_none h
    simp [herr]
  | some place =>
    rw [assign_of_some h, give_fst hkind hs]
    simp [Except.mapError]

/-- To read what a place holds changes nothing and asks for nothing. -/
theorem evaluate_snd (h : Place.ofText? text = some place) : (s.evaluate text).2 = s := by
  rw [evaluate_of_read s (Place.ofText?_eq_some.mp h)]
  cases place with
  | «variable» name =>
    dsimp only [Statement.body, Place.expr, value]
    split <;> rfl
  | property name => rfl

/-- A text that names a place has the value that the place holds. -/
theorem evaluate_of_holds (h : Place.ofText? text = some place) (hv : s.holds? place = some v) :
    s.evaluate text = (.ok v, s) := by
  refine Prod.ext ?_ (evaluate_snd h)
  rw [evaluate_of_read s (Place.ofText?_eq_some.mp h)]
  cases place with
  | «variable» name =>
    have hv : s.bindings.find? name = some v := hv
    simp only [Statement.body, Place.expr, value, hv]
  | property name =>
    have hv : (Fixture.property s.fixture name).toOption = some v := hv
    dsimp only [Statement.body, Place.expr, value]
    cases hproperty : Fixture.property s.fixture name with
    | error e =>
      rw [hproperty] at hv
      cases hv
    | ok w =>
      rw [hproperty] at hv
      cases hv
      rfl

/-- A write asks a fixture for at most one thing, and never for a call. -/
theorem assign_watched : s.watched.assign text v =
    ((s.assign text v).1,
      ⟨⟨(s.assign text v).2.fixture, (Place.ofText? text).elim [] (Place.requests v)⟩,
      (s.assign text v).2.bindings⟩) := by
  cases h : Place.ofText? text with
  | none =>
    obtain ⟨err, herr⟩ := assign_of_none h
    rw [herr, herr]
    rfl
  | some place =>
    rw [assign_of_some h, assign_of_some h]
    cases place <;> rfl

/-! ## Many writes -/

/-- The value of the last write to a place, that is, of the last one whose text names it. These are
the writes to the place that succeed (`assign_ok_iff`). -/
def lastWrite? (place : Place) (writes : List (String × Value)) : Option Value :=
  (writes.reverse.find? fun w => Place.ofText? w.1 = some place).map Prod.snd

theorem kind_assignAll (hkind : KeepsWrites kind) (hs : kind s.fixture)
    (writes : List (String × Value)) :
    kind (s.assignAll writes).fixture := by
  induction writes generalizing s with
  | nil => exact hs
  | cons w writes ih => exact ih (kind_assign hkind hs w.1 w.2)

/-- **Each place holds what was written last to it,** or else what it held before. -/
theorem holds?_assignAll (hkind : KeepsWrites kind) (hs : kind s.fixture)
    (writes : List (String × Value)) :
    (s.assignAll writes).holds? place = (lastWrite? place writes).or (s.holds? place) := by
  induction writes generalizing s with
  | nil => rfl
  | cons w writes ih =>
    obtain ⟨text, v⟩ := w
    -- the first write comes last in the reversed list, so it counts only if no later one names the
    -- place
    refine (ih (kind_assign hkind hs text v)).trans ?_
    rw [holds?_assign hkind hs, lastWrite?, lastWrite?, List.reverse_cons, List.find?_append,
      Option.map_or,
      Option.or_assoc]
    by_cases htext : Place.ofText? text = some place
    · simp [htext]
    · simp [htext]

/-! ## All that is to be said of one write -/

/-- A write that succeeds can be got back and changes nothing else; one that does not succeed
changes nothing. -/
structure Assigned (s : Scope φ) (text : String) (v : Value) : Prop where
  /-- It succeeds exactly if the text is read as a variable or as a property alone. -/
  succeeds : (s.assign text v).1 = .ok () ↔
    ∃ name, Statement.read text = .ok (.eval (.variable name)) ∨
      Statement.read text = .ok (.eval (.property name))
  /-- Then the text has the value, and to read it changes nothing. -/
  gets : (s.assign text v).1 = .ok () → (s.assign text v).2.evaluate text = (.ok v,
    (s.assign text v).2)
  /-- Every place that the text does not name holds what it held. -/
  others {place : Place} : Place.ofText? text ≠ some place →
    (s.assign text v).2.holds? place = s.holds? place
  /-- Neither the write nor the reading after it calls a method. -/
  calls : (s.assign text v).1 = .ok () →
    ∀ r ∈ ((s.watched.assign text v).2.evaluate text).2.requests, r.isCall = false
  /-- A write that does not succeed changes nothing and asks the fixture for nothing. -/
  refused : (s.assign text v).1 ≠ .ok () →
    (s.assign text v).2 = s ∧ (s.watched.assign text v).2.requests = []
  /-- To be watched makes no difference. -/
  unwatched : (s.watched.assign text v).1 = (s.assign text v).1 ∧
    (s.watched.assign text v).2.unwatched = (s.assign text v).2

/-- **Each write to a fixture of a kind that keeps writes is such a write.** -/
theorem assigned (hkind : KeepsWrites kind) (hs : kind s.fixture) (text : String) (v : Value) :
    s.Assigned text v where
  succeeds := by
    rw [assign_ok_iff hkind hs]
    constructor
    · rintro ⟨place, hplace⟩
      cases place with
      | «variable» name => exact ⟨name, .inl (Place.ofText?_eq_some.mp hplace)⟩
      | property name => exact ⟨name, .inr (Place.ofText?_eq_some.mp hplace)⟩
    · rintro ⟨name, hread | hread⟩
      · exact ⟨.variable name, Place.ofText?_eq_some.mpr hread⟩
      · exact ⟨.property name, Place.ofText?_eq_some.mpr hread⟩
  gets hok := by
    obtain ⟨place, hplace⟩ := (assign_ok_iff hkind hs).mp hok
    exact evaluate_of_holds hplace (by rw [holds?_assign hkind hs, if_pos hplace])
  others hother := by rw [holds?_assign hkind hs, if_neg hother]
  calls hok := by
    obtain ⟨place, hplace⟩ := (assign_ok_iff hkind hs).mp hok
    rw [evaluate_snd hplace, assign_watched, hplace]
    cases place with
    | «variable» name => exact nofun
    | property name => exact List.forall_mem_singleton.mpr rfl
  refused hfails := by
    have hnone : Place.ofText? text = none :=
      Option.eq_none_iff_forall_ne_some.mpr fun place h =>
        hfails ((assign_ok_iff hkind hs).mpr ⟨place, h⟩)
    obtain ⟨err, herr⟩ := assign_of_none hnone
    rw [herr, herr]
    exact ⟨rfl, rfl⟩
  unwatched := by
    rw [assign_watched]
    exact ⟨rfl, rfl⟩

/-- Says that in a scope what is set can be got: after any writes each variable and each property
holds what was written last to it, if anything was, and every further write succeeds, is read back
or is refused as it should. -/
def KeepsAssigned (s : Scope φ) : Prop :=
  ∀ writes : List (String × Value),
    (∀ place, (s.assignAll writes).holds? place = (lastWrite? place writes).or (s.holds? place)) ∧
    ∀ text v, (s.assignAll writes).Assigned text v

theorem keepsAssigned (hkind : KeepsWrites kind) (hs : kind s.fixture) :
    s.KeepsAssigned := fun writes =>
  ⟨fun _ => holds?_assignAll hkind hs writes, assigned hkind (kind_assignAll hkind hs writes)⟩

end Fixtures

/-- **What is set can be got.** In a scope with a fixture of a kind that keeps writes, whatever its
methods do, after any writes a write succeeds exactly if the text is a bare variable or a bare
property, the text then has the value, and nothing else has changed; a write that is refused changes
nothing. Each variable and each property holds what was written last to it, if anything was. Tables
and data are of such a kind. -/
theorem assign_then_evaluate :
    (∀ {φ : Type} [Fixture φ] {kind : φ → Prop}, KeepsWrites kind → ∀ s : Scope φ, kind s.fixture →
      s.KeepsAssigned) ∧
    ∀ s : Scope StockFixture, s.fixture.hasProperties = true → s.KeepsAssigned :=
  ⟨fun hkind _ hs => keepsAssigned hkind hs, fun _ hs => keepsAssigned StockFixture.keepsWrites hs⟩

/-- A variable and a property of the same name are written in turn, and a call cannot be set. -/
theorem assign_then_evaluate_turns :
    Sample.row.fixture.hasProperties = true ∧
    (Sample.row.assignAll [("#x", .int 1), ("x", .int 2), ("g()", .int 9), ("#x", .int 3)]).holds?
      (.variable "x") =
      some (.int 3) ∧
    (Sample.row.assignAll [("#x", .int 1), ("x", .int 2), ("g()", .int 9), ("#x", .int 3)]).holds?
      (.property "x") =
      some (.int 2) ∧
    ((Sample.row.assign "#x" (.int 1)).2.evaluate "#x").1 = .ok (.int 1) ∧
    (Sample.row.assign "g()" (.int 9)).2 = Sample.row := by
  have hname : Token.IsRun "x" := by decide +kernel
  have hvariable : Statement.read "#x" = .ok (.eval (.variable "x")) :=
    Statement.read_reference hname
  have hproperty : Statement.read "x" = .ok (.eval (.property "x")) := by
    have hspaced : Spaced [.ident "x"] "x".toList := .token (.ident (by decide +kernel)) .nil
    rw [hspaced.read (by simp)]
    rfl
  have hcall : Statement.read "g()" = .ok (.eval (.call "g" [])) := by
    have hspaced : Spaced [.ident "g", .leftParen, .rightParen] "g()".toList :=
      .token (.ident (by decide +kernel)) <| .token (.mark rfl) <| .token (.mark rfl) .nil
    rw [hspaced.read (by simp [Token.Beside, Token.isMark])]
    rfl
  have hkeeps : Sample.row.KeepsAssigned := assign_then_evaluate.2 Sample.row rfl
  obtain ⟨hholds, -⟩ := hkeeps [("#x", .int 1), ("x", .int 2), ("g()", .int 9), ("#x", .int 3)]
  obtain ⟨-, hassigned⟩ := hkeeps []
  have hset : (Sample.row.assign "#x" (.int 1)).1 = .ok () :=
    (hassigned "#x" (.int 1)).succeeds.mpr ⟨"x", .inl hvariable⟩
  have hrefused : (Sample.row.assign "g()" (.int 9)).1 ≠ .ok () := by
    intro hok
    obtain ⟨name, hread | hread⟩ := (hassigned "g()" (.int 9)).succeeds.mp hok
    · cases hcall.symm.trans hread
    · cases hcall.symm.trans hread
  refine ⟨rfl, (hholds _).trans ?_, (hholds _).trans ?_,
    congrArg Prod.fst ((hassigned _ _).gets hset),
    ((hassigned _ _).refused hrefused).1⟩
  · simp [lastWrite?, Place.ofText?, hvariable, Except.toOption, Place.ofStatement?]
  · simp [lastWrite?, Place.ofText?, hvariable, hproperty, hcall, Except.toOption,
      Place.ofStatement?]

end Scope
end LiveSpec
