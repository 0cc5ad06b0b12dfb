import LiveSpec.Proofs.Run.Parts

/-!
# How a spy hears of an event

A spy that hears of an event can change the document first, if the document was just parsed
(`reshape`). Then it takes note of the event and objects to it or does not (`attend`); later than in
parsing, and if it is one that leaves documents as they are, that is all (`result_hear`). The lemmas
say in which state it leaves the run: the log has the event at its end, and the record is as before.
-/

namespace LiveSpec

variable {φ : Type} {s s' : RunState φ}

/-- The state after a spy has taken note of an event, in the log and for itself. -/
def RunState.noted (s : RunState φ) (place : Nat) (label : String) (e : Event) : RunState φ :=
  { s with
    heard := (place, e) :: s.heard
    world := { s.world with log := s.world.log ++ [.heard label e] } }

/-- A listener that leaves the document as it is. -/
def Listener.LeavesTree : Listener → Prop
  | .silent => True
  | .spy s => s.retouch = ⟨none, none⟩

instance : DecidablePred Listener.LeavesTree
  | .silent => .isTrue trivial
  | .spy s => inferInstanceAs (Decidable (s.retouch = ⟨none, none⟩))

/-- What a spy that sits at a place of the bus objects to, after it has taken note of an event. -/
def Spy.objects (spy : Spy) (place : Nat) (s : RunState φ) : Option String :=
  (spy.objection (s.heard.filterMap fun (p, e) => if p = place then some e else none).reverse).or
    (spy.recollection s.world.events)

/-- Who hears of the events of a channel was registered for it. -/
theorem Bus.mem_of_mem_on {bus : Bus} {c : Channel} {place : Nat} {l : Listener}
    (h : (place, l) ∈ bus.on c) :
    (c, l) ∈ bus := by
  unfold Bus.on at h
  obtain ⟨⟨⟨c', l'⟩, i⟩, hmem, hsome⟩ := List.mem_filterMap.mp h
  dsimp only at hsome
  split at hsome
  · next hc =>
    cases hsome
    exact hc ▸ List.fst_mem_of_mem_zipIdx hmem
  · cases hsome

namespace Run

/-- What a spy does to the document when it hears of an event: something in parsing, nothing later.
-/
def reshape (spy : Spy) (e : Event) : Run φ Unit :=
  if e.channel = .parsing then do
    match retouch (← get).tree spy with
    | .ok t => change fun _ => t
    | .error cause => throw (.listener "spy" cause.message)
  else pure ()

/-- How a spy takes note of an event, and objects to it or does not. -/
def attend (place : Nat) (spy : Spy) (e : Event) : Run φ Unit := do
  modify fun s => s.noted place spy.label e
  match spy.objects place (← get) with
  | some message => throw (.listener spy.label message)
  | none => pure ()

theorem hear_spy {place : Nat} {spy : Spy} {e : Event} :
    (hear place (.spy spy) e : Run φ Unit) = (do reshape spy e; attend place spy e) := by
  unfold hear reshape
  dsimp only
  split
  · rw [bind_assoc]
    refine bind_congr fun s => ?_
    cases retouch s.tree spy <;> rfl
  · rfl

theorem yields_reshape {spy : Spy} {e : Event} {u : Unit} (h : (reshape spy e).Yields s u s') :
    ∃ t, s' = { s with tree := t } := by
  unfold reshape at h
  split at h
  · obtain ⟨_, _, hget, hrest⟩ := yields_bind.mp h
    obtain ⟨rfl, rfl⟩ := yields_get.mp hget
    split at hrest
    · exact ⟨_, yields_change.mp hrest⟩
    · exact absurd hrest not_yields_throw
  · exact ⟨s.tree, (yields_pure.mp h).2⟩

theorem result_attend {place : Nat} {spy : Spy} {e : Event} :
    (attend place spy e).result s = match spy.objects place (s.noted place spy.label e) with
      | some message => (.error (.listener spy.label message), s.noted place spy.label e)
      | none => (.ok (), s.noted place spy.label e) := by
  show Run.result (match spy.objects place (s.noted place spy.label e)
      with | some m => _ | none => _) _ = _
  cases spy.objects place (s.noted place spy.label e) <;> rfl

/-- A spy that accepts an event has taken note of it; in parsing it can have changed the tree. -/
theorem yields_hear {place : Nat} {spy : Spy} {e : Event} {u : Unit}
    (h : (hear place (.spy spy) e).Yields s u s') :
    ∃ t, s' = { s with tree := t }.noted place spy.label e := by
  rw [hear_spy] at h
  obtain ⟨_, s₁, hreshape, hattend⟩ := yields_bind.mp h
  obtain ⟨t, rfl⟩ := yields_reshape hreshape
  unfold Yields at hattend
  rw [result_attend] at hattend
  split at hattend <;> cases hattend
  exact ⟨t, rfl⟩

/-- A spy that leaves the document as it is, as all do later than in parsing, takes note of an
event, and that is all. -/
theorem result_hear {place : Nat} {spy : Spy} {e : Event}
    (h : e.channel = .parsing → (Listener.spy spy).LeavesTree) :
    (hear place (.spy spy) e).result s = (attend place spy e).result s := by
  have hreshape : (reshape spy e : Run φ Unit).result s = (.ok (), s) := by
    unfold reshape
    split
    · next hparsing =>
      have hretouch : retouch s.tree spy = .ok s.tree := by
        unfold retouch
        rw [show spy.retouch = ⟨none, none⟩ from h hparsing]
        rfl
      show Run.result (match retouch s.tree spy with | .ok t => _ | .error cause => _) s = _
      rw [hretouch]
      rfl
    · rfl
  rw [hear_spy, result_bind, hreshape]

theorem record_hear {place : Nat} {l : Listener} {e : Event} {u : Unit}
    (h : (hear place l e).Yields s u s') :
    s'.record = s.record := by
  cases l with
  | silent => rw [(yields_pure.mp h).2]
  | spy spy =>
    obtain ⟨t, rfl⟩ := yields_hear h
    rfl

theorem record_tell {bus : Bus} {e : Event} {u : Unit} (h : (tell bus e).Yields s u s') :
    s'.record = s.record := by
  have hkeeps : Keeps (fun s s' : RunState φ => s'.record = s.record) (tell bus e) :=
    .forM fun _ _ _ _ _ h => record_hear h
  exact hkeeps h

/-! ## What telling leaves alone -/

/-- A state that differs from another one in what listeners heard of an event, and in the tree if
the document was just parsed. -/
structure Overheard (e : Event) (s s' : RunState φ) : Prop where
  tree : e.channel = .parsing ∨ s'.tree = s.tree
  scope : s'.scope = s.scope
  record : s'.record = s.record
  kept : s'.kept = s.kept
  nextSlot : s'.nextSlot = s.nextSlot
  held : s'.held = s.held
  visits : s'.visits = s.visits
  outputs : s'.world.outputs = s.world.outputs
  log : ∃ heard : List (String × Event), s'.world.log = s.world.log ++ heard.map fun h =>
    .heard h.1 h.2

instance {e : Event} : IsPreorder (RunState φ) (Overheard e) where
  refl _ := ⟨.inr rfl, rfl, rfl, rfl, rfl, rfl, rfl, rfl, [], (List.append_nil _).symm⟩
  trans _ _ _ h h' := by
    obtain ⟨xs, hxs⟩ := h.log
    obtain ⟨ys, hys⟩ := h'.log
    refine ⟨?_, h'.scope.trans h.scope, h'.record.trans h.record, h'.kept.trans h.kept,
      h'.nextSlot.trans h.nextSlot,
      h'.held.trans h.held, h'.visits.trans h.visits, h'.outputs.trans h.outputs, xs ++ ys, ?_⟩
    · rcases h.tree with hparsing | htree
      · exact .inl hparsing
      · exact h'.tree.imp_right fun htree' => htree'.trans htree
    · rw [hys, hxs, List.map_append, List.append_assoc]

theorem reshape_overheard {spy : Spy} {e : Event} :
    Always (Overheard e) (reshape spy e : Run φ Unit) := by
  unfold reshape
  split
  · next hparsing =>
    refine .bind .get fun s => ?_
    split
    · exact .modify fun _ => ⟨.inl hparsing, rfl, rfl, rfl, rfl, rfl, rfl, rfl, [],
        (List.append_nil _).symm⟩
    · exact .throw
  · exact .pure

theorem attend_overheard {place : Nat} {spy : Spy} {e : Event} :
    Always (Overheard e) (attend place spy e : Run φ Unit) := by
  refine .bind (.modify fun _ => ?_) fun _ => .bind .get fun s => ?_
  · exact ⟨.inr rfl, rfl, rfl, rfl, rfl, rfl, rfl, rfl, [(spy.label, e)], rfl⟩
  · split
    · exact .throw
    · exact .pure

/-- Telling leaves what the run found out alone, whether or not a listener refuses the event. -/
theorem tell_overheard {bus : Bus} {e : Event} :
    Always (Overheard e) (tell bus e : Run φ Unit) := by
  refine .forM fun listener _ => ?_
  obtain ⟨place, l⟩ := listener
  cases l with
  | silent => exact .pure
  | spy spy =>
    show Always (Overheard e) (hear place (.spy spy) e)
    rw [hear_spy]
    exact .bind reshape_overheard fun _ => attend_overheard

end Run
end LiveSpec
