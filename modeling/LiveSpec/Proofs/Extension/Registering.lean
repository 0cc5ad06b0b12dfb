import LiveSpec.Proofs.Extension.Assembly
import LiveSpec.Proofs.Store.Writing
import LiveSpec.Proofs.Text.SameName

/-!
# Registering commands and modifiers

A registry keeps three lists: commands under their keys, modifiers, and the namespaces in use. To
enter a command or a modifier is to change one after the other, the namespaces first
(`Registry.enter`); since a key that is taken is found before anything is written, what is refused
leaves no trace (`Registry.run_enter`). After any calls the three lists agree: they are what the
entries make of them that were not refused, each of which is the first with its key
(`Registry.keys_taken_once`).
-/

namespace LiveSpec.Registry

open ExtensionBuilder (assembled)

/-- Something to register. -/
inductive Entry where
  | command (ns name : String) (c : Command)
  | modifier (ns name : String)

namespace Entry

/-- The key that an entry takes into use. -/
def key : Entry → CommandKey
  | command ns name _ | modifier ns name => .of ns name

/-- The command that is registered. -/
def command? : Entry → Option Command
  | command _ _ c => some c
  | modifier _ _ => none

/-- The registry with one more entry. -/
def register (r : Registry) : Entry → Except Error Registry
  | command ns name c => r.register ns name c
  | modifier ns name => r.registerModifier ns name

/-- An entry as a registration of an extension. -/
def toRegistration : Entry → Registration
  | command ns name c => .command ns name c
  | modifier ns name => .modifier ns name

theorem key?_toRegistration (e : Entry) : e.toRegistration.key? = some e.key := by
  cases e <;> rfl

theorem command?_toRegistration (e : Entry) :
    e.toRegistration.command? = e.command?.map (e.key, ·) := by
  cases e <;> rfl

theorem modifier?_toRegistration (e : Entry) :
    e.toRegistration.modifier? = if e.command?.isNone then some e.key else none := by
  cases e <;> rfl

end Entry

/-! ## One write after the other -/

/-- Changes to a registry that can be refused. What was written before stays written. -/
abbrev Entering := ExceptT Error (StateM Registry)

/-- Takes a key into use, and with it its namespace. -/
def takeKey (k : CommandKey) : Entering Unit := do
  let r ← get
  if (r.lookup? k).isSome || r.isModifier k then throw (.duplicateCommand k.ns k.name)
  if !r.hasNamespace k.ns then modify fun r => { r with namespaces := r.namespaces ++ [k.ns] }

/-- Enters a command or a modifier under its key. -/
def enter : Entry → Entering Unit
  | .command ns name c => do
    takeKey (.of ns name)
    modify fun r => { r with commands := r.commands ++ [(.of ns name, c)] }
  | .modifier ns name => do
    takeKey (.of ns name)
    modify fun r => { r with modifiers := r.modifiers ++ [.of ns name] }

/-- Enters one after the other, whatever becomes of each: those that were not refused. -/
def enterEach : List Entry → StateM Registry (List Entry)
  | [] => return []
  | e :: es => do
    match ← (enter e).run with
    | .ok () => return e :: (← enterEach es)
    | .error _ => enterEach es

/-- How a change ends that comes to `answer`: what is refused leaves no trace. -/
def after (r : Registry) : Except Error Registry → Except Error Unit × Registry
  | .ok r' => (.ok (), r')
  | .error err => (.error err, r)

variable {r : Registry} {e : Entry} {es kept : List Entry} {k : CommandKey}

/-- Taking a key leaves the registry as the claim tells. -/
theorem run_takeKey (r : Registry) (k : CommandKey) : (takeKey k).run r = r.after (r.claim k) := by
  have hget : (takeKey k).run r = (do
      if (r.lookup? k).isSome || r.isModifier k then throw (.duplicateCommand k.ns k.name)
      if !r.hasNamespace k.ns then modify fun r => { r with namespaces := r.namespaces ++ [k.ns] } :
        Entering Unit).run r := rfl
  rw [hget]
  unfold claim
  by_cases htaken : ((r.lookup? k).isSome || r.isModifier k) = true
  · rw [if_pos htaken, if_pos htaken]
    rfl
  · rw [if_neg htaken, if_neg htaken]
    cases hns : r.hasNamespace k.ns <;> rfl

/-- **Write by write.** To enter something comes to what registering it does at once, and nothing is
written where it is refused. -/
theorem run_enter (r : Registry) (e : Entry) : (enter e).run r = r.after (e.register r) := by
  cases e with
  | command ns name c =>
    show (takeKey _ >>= _ : Entering Unit).run r = _
    rw [run_bind_state, run_takeKey, Entry.register, Registry.register]
    cases r.claim (.of ns name) <;> rfl
  | modifier ns name =>
    show (takeKey _ >>= _ : Entering Unit).run r = _
    rw [run_bind_state, run_takeKey, Entry.register, Registry.registerModifier]
    cases r.claim (.of ns name) <;> rfl

/-- Entries are tried one at a time, and those that are rejected leave nothing behind. -/
theorem run_enterEach_cons (r : Registry) (e : Entry) (es : List Entry) :
    (enterEach (e :: es)).run r = match e.register r with
      | .ok r' => (e :: ((enterEach es).run r').1, ((enterEach es).run r').2)
      | .error _ => (enterEach es).run r := by
  show StateT.run (match ((enter e).run r).1 with
    | .ok () => (do return e :: (← enterEach es))
    | .error _ => enterEach es : StateM Registry (List Entry)) ((enter e).run r).2 = _
  rw [run_enter]
  cases e.register r <;> rfl

/-! ## What the entries make of a registry -/

/-- The registry of entries that were not refused. -/
def holding (kept : List Entry) : Registry := (assembled (kept.map Entry.toRegistration)).registry

theorem keys_toRegistration (kept : List Entry) :
    (kept.map Entry.toRegistration).filterMap Registration.key? = kept.map Entry.key := by
  rw [List.filterMap_map, ← List.filterMap_eq_map]
  exact congrArg (List.filterMap · kept) (funext Entry.key?_toRegistration)

/-- A key is taken if an entry that is kept has it. -/
theorem isTaken_holding (kept : List Entry) (k : CommandKey) :
    ((holding kept).lookup? k).isSome = true ∨ (holding kept).isModifier k = true ↔
      k ∈ kept.map Entry.key := by
  have htaken := ExtensionBuilder.isTaken_assembled (kept.map Entry.toRegistration) k
  rwa [Bool.or_eq_true, keys_toRegistration] at htaken

/-- One more entry is refused exactly where its key is taken. -/
theorem register_holding (kept : List Entry) (e : Entry) : e.register (holding kept) =
    if e.key ∈ kept.map Entry.key then .error (.duplicateCommand e.key.ns e.key.name)
    else .ok (holding (kept ++ [e])) := by
  have hclaim := ExtensionBuilder.claim_assembled (kept.map Entry.toRegistration) e.key
  rw [keys_toRegistration] at hclaim
  have hnext : holding (kept ++ [e]) =
      (assembled (kept.map Entry.toRegistration ++ [e.toRegistration])).registry := by
    unfold holding
    rw [List.map_append, List.map_singleton]
  rw [hnext, ExtensionBuilder.assembled_concat, keys_toRegistration]
  unfold holding
  cases e with
  | command ns name c =>
    show (assembled _).registry.claim (.of ns name) >>= _ = _
    rw [show CommandKey.of ns name = (Entry.command ns name c).key from rfl, hclaim]
    split
    · rfl
    · simp only [Entry.toRegistration, Registration.command?, Registration.modifier?,
        Registration.key?,
        Option.toList_some, Option.toList_none, List.append_nil]
      rfl
  | modifier ns name =>
    show (assembled _).registry.claim (.of ns name) >>= _ = _
    rw [show CommandKey.of ns name = (Entry.modifier ns name).key from rfl, hclaim]
    split
    · rfl
    · simp only [Entry.toRegistration, Registration.command?, Registration.modifier?,
        Registration.key?,
        Option.toList_some, Option.toList_none, List.append_nil]
      rfl

/-- The commands are those of the entries kept, in order. -/
theorem commands_holding (kept : List Entry) :
    (holding kept).commands = kept.filterMap fun e => e.command?.map (e.key, ·) := by
  show (kept.map Entry.toRegistration).filterMap Registration.command? = _
  rw [List.filterMap_map]
  exact congrArg (List.filterMap · kept) (funext Entry.command?_toRegistration)

/-- So are the modifiers. -/
theorem modifiers_holding (kept : List Entry) :
    (holding kept).modifiers = kept.filterMap fun e => if e.command?.isNone then
      some e.key else none := by
  show (kept.map Entry.toRegistration).filterMap Registration.modifier? = _
  rw [List.filterMap_map]
  exact congrArg (List.filterMap · kept) (funext Entry.modifier?_toRegistration)

/-- A namespace is listed once, where it came first. -/
theorem namespaces_holding (kept : List Entry) :
    (holding kept).namespaces = (kept.map (·.key.ns)).eraseDups := by
  show (((kept.map Entry.toRegistration).filterMap Registration.key?).map (·.ns)).eraseDups = _
  rw [keys_toRegistration, List.map_map]
  rfl

theorem find?_eq_none_of_not_mem (h : k ∉ kept.map Entry.key) : kept.find? (·.key = k) = none :=
  List.find?_eq_none.mpr fun e he hk => h (List.mem_map.mpr ⟨e, he, of_decide_eq_true hk⟩)

/-- A key leads to the command of the entry that took it. -/
theorem lookup?_holding (hkept : (kept.map Entry.key).Nodup) (k : CommandKey) :
    (holding kept).lookup? k = (kept.find? (·.key = k)).bind Entry.command? := by
  unfold lookup?
  rw [commands_holding]
  induction kept with
  | nil => rfl
  | cons e kept ih =>
    obtain ⟨hfresh, hrest⟩ := List.nodup_cons.mp hkept
    by_cases hk : e.key = k
    · rw [List.find?_cons_of_pos (by simpa using hk), Option.bind_some]
      cases hcommand : e.command? with
      | some c =>
        rw [List.filterMap_cons_some (by rw [hcommand]; rfl), List.lookup_cons, hk]
        simp
      | none =>
        rw [List.filterMap_cons_none (by rw [hcommand]; rfl), ih hrest,
          find?_eq_none_of_not_mem (hk ▸ hfresh)]
        rfl
    · rw [List.find?_cons_of_neg (by simpa using hk), ← ih hrest]
      cases hcommand : e.command? with
      | some c =>
        rw [List.filterMap_cons_some (by rw [hcommand]; rfl), List.lookup_cons,
          beq_false_of_ne (Ne.symm hk)]
      | none => rw [List.filterMap_cons_none (by rw [hcommand]; rfl)]

/-- A key is that of a modifier where a modifier took it. -/
theorem isModifier_holding (hkept : (kept.map Entry.key).Nodup) (k : CommandKey) :
    (holding kept).isModifier k = (kept.find? (·.key = k)).any (·.command?.isNone) := by
  unfold isModifier
  rw [modifiers_holding]
  induction kept with
  | nil => rfl
  | cons e kept ih =>
    obtain ⟨hfresh, hrest⟩ := List.nodup_cons.mp hkept
    by_cases hk : e.key = k
    · rw [List.find?_cons_of_pos (by simpa using hk), Option.any_some]
      cases hmodifier : e.command?.isNone with
      | true =>
        rw [List.filterMap_cons_some (by rw [hmodifier]; rfl), hk]
        simp
      | false =>
        rw [List.filterMap_cons_none (by rw [hmodifier]; rfl), ih hrest,
          find?_eq_none_of_not_mem (hk ▸ hfresh)]
        rfl
    · rw [List.find?_cons_of_neg (by simpa using hk), ← ih hrest]
      cases hmodifier : e.command?.isNone with
      | true =>
        rw [List.filterMap_cons_some (by rw [hmodifier]; rfl), List.contains_cons,
          beq_false_of_ne (Ne.symm hk)]
        rfl
      | false => rw [List.filterMap_cons_none (by rw [hmodifier]; rfl)]

/-! ## Any calls -/

/-- Entering two lists is entering one after the other. -/
theorem run_enterEach_append (r : Registry) (es es' : List Entry) : (enterEach (es ++ es')).run r =
    (((enterEach es).run r).1 ++ ((enterEach es').run ((enterEach es).run r).2).1,
      ((enterEach es').run ((enterEach es).run r).2).2) := by
  induction es generalizing r with
  | nil => rfl
  | cons e es ih =>
    rw [List.cons_append, run_enterEach_cons, run_enterEach_cons]
    cases e.register r with
    | ok r' => simp only [ih r', List.cons_append]
    | error err => exact ih r

/-- Whatever is entered next, the registry holds what was not refused: of all entries with one key
the first. -/
theorem run_enterEach_holding (es : List Entry) {kept : List Entry}
    (hkept : (kept.map Entry.key).Nodup) :
    ∃ more, (enterEach es).run (holding kept) = (more, holding (kept ++ more)) ∧
      ((kept ++ more).map Entry.key).Nodup ∧
      ∀ k, (kept ++ more).find? (·.key = k) = (kept ++ es).find? (·.key = k) := by
  induction es generalizing kept with
  | nil => exact ⟨[], by rw [List.append_nil]; rfl, by rwa [List.append_nil], fun _ => rfl⟩
  | cons e es ih =>
    rw [run_enterEach_cons, register_holding]
    by_cases htaken : e.key ∈ kept.map Entry.key
    · rw [if_pos htaken]
      obtain ⟨more, hrun, hnodup, hfind⟩ := ih hkept
      refine ⟨more, hrun, hnodup, fun k => (hfind k).trans ?_⟩
      -- An entry that is refused is not the first with its key.
      rw [List.find?_append, List.find?_append]
      by_cases hk : e.key = k
      · obtain ⟨first, hfirst, hkey⟩ := List.mem_map.mp htaken
        have hsome : (kept.find? (·.key = k)).isSome :=
          List.find?_isSome.mpr ⟨first, hfirst, decide_eq_true (hkey.trans hk)⟩
        rw [Option.or_of_isSome hsome, Option.or_of_isSome hsome]
      · rw [List.find?_cons_of_neg (by simpa using hk)]
    · rw [if_neg htaken]
      have hnext : ((kept ++ [e]).map Entry.key).Nodup := by
        rw [List.map_append]
        exact List.nodup_append'.mpr ⟨hkept, List.nodup_singleton _,
          List.disjoint_singleton.mpr htaken⟩
      obtain ⟨more, hrun, hnodup, hfind⟩ := ih hnext
      refine ⟨e :: more, ?_, ?_, fun k => ?_⟩
      · simp only [hrun, List.append_assoc, List.singleton_append]
      · rwa [List.append_cons]
      · rw [List.append_cons, hfind k, ← List.append_cons]

theorem nodup_eraseDups (names : List String) : names.eraseDups.Nodup := by
  induction names using List.reverseRecOn with
  | nil => exact List.nodup_nil
  | append_singleton names name ih =>
    rw [ExtensionBuilder.eraseDups_concat]
    split
    · exact ih
    · next hnew =>
      rw [List.contains_iff_mem] at hnew
      exact List.nodup_append'.mpr ⟨ih, List.nodup_singleton _, List.disjoint_singleton.mpr hnew⟩

/-- What is held as a modifier is not held as a command. -/
theorem lookup?_of_isModifier_holding (hkept : (kept.map Entry.key).Nodup)
    (hk : (holding kept).isModifier k = true) : (holding kept).lookup? k = none := by
  rw [isModifier_holding hkept] at hk
  rw [lookup?_holding hkept]
  cases hfirst : kept.find? (·.key = k) with
  | none => rfl
  | some e =>
    rw [hfirst, Option.any_some, Option.isNone_iff_eq_none] at hk
    exact hk

/-- The namespaces in use are those of the keys that are taken. -/
theorem mem_namespaces_holding {ns : String} : ns ∈ (holding kept).namespaces ↔
    ∃ k, k.ns = ns ∧ (((holding kept).lookup? k).isSome = true ∨
      (holding kept).isModifier k = true) := by
  rw [namespaces_holding, List.mem_eraseDups, List.mem_map]
  constructor
  · rintro ⟨e, he, rfl⟩
    exact ⟨e.key, rfl, (isTaken_holding kept e.key).mpr (List.mem_map_of_mem he)⟩
  · rintro ⟨k, rfl, hk⟩
    obtain ⟨e, he, rfl⟩ := List.mem_map.mp ((isTaken_holding kept k).mp hk)
    exact ⟨e, he, rfl⟩

/-- **No key is taken twice.** After any calls, no key is that of a command and that of a modifier;
the namespaces in use are those of the entries that were not refused, each once, in the order of the
first entry in each; and what comes next is refused exactly where an entry of either kind had its
key before, which leaves no trace. A key leads to the command that was registered under it first.
Names that differ in the case of ASCII letters only make one key. -/
theorem keys_taken_once (es : List Entry) : ∃ kept r, (enterEach es).run empty = (kept, r) ∧
    (∀ k, r.isModifier k = true → r.lookup? k = none) ∧
    (r.namespaces.Nodup ∧ r.namespaces = (kept.map (·.key.ns)).eraseDups ∧
      (∀ ns, r.hasNamespace ns = true ↔ ns ∈ r.namespaces) ∧
      ∀ ns, ns ∈ r.namespaces ↔ ∃ k, k.ns = ns ∧
        ((r.lookup? k).isSome = true ∨ r.isModifier k = true)) ∧
    (∀ e, if e.key ∈ es.map Entry.key then
        e.register r = .error (.duplicateCommand e.key.ns e.key.name) ∧
          (enter e).run r = (.error (.duplicateCommand e.key.ns e.key.name), r)
      else ∃ r', e.register r = .ok r' ∧ (enter e).run r = (.ok (), r') ∧
        (enterEach (es ++ [e])).run empty = (kept ++ [e], r')) ∧
    (∀ k, r.lookup? k = (es.find? (·.key = k)).bind Entry.command? ∧
      r.isModifier k = (es.find? (·.key = k)).any (·.command?.isNone)) ∧
    ∀ ns name name', Text.sameName name name' = true →
      CommandKey.of ns name = CommandKey.of ns name' := by
  have hnone : (([] : List Entry).map Entry.key).Nodup := List.nodup_nil
  obtain ⟨kept, hrun, hkept, hfind⟩ := run_enterEach_holding es hnone
  simp only [List.nil_append] at hrun hkept hfind
  have hlookup := lookup?_holding hkept
  have hmodifier := isModifier_holding hkept
  have hkeys (k : CommandKey) : k ∈ kept.map Entry.key ↔ k ∈ es.map Entry.key := by
    have hsome (l : List Entry) : k ∈ l.map Entry.key ↔ (l.find? (·.key = k)).isSome := by
      simp [List.find?_isSome]
    rw [hsome, hsome]
    exact iff_of_eq (congrArg (Option.isSome · = true) (hfind k))
  refine ⟨kept, holding kept, hrun, fun k => lookup?_of_isModifier_holding hkept,
    ⟨?_, namespaces_holding kept, fun ns => List.contains_iff_mem,
      fun ns => mem_namespaces_holding⟩,
    fun e => ?_, fun k => ?_, ?_⟩
  · rw [namespaces_holding]
    exact nodup_eraseDups _
  · have hregister := register_holding kept e
    have henter := run_enter (holding kept) e
    by_cases htaken : e.key ∈ es.map Entry.key
    · rw [if_pos ((hkeys e.key).mpr htaken)] at hregister
      rw [if_pos htaken]
      exact ⟨hregister, by rw [henter, hregister]; rfl⟩
    · rw [if_neg fun h => htaken ((hkeys e.key).mp h)] at hregister
      rw [if_neg htaken]
      refine ⟨holding (kept ++ [e]), hregister, by rw [henter, hregister]; rfl, ?_⟩
      have hrun' : (enterEach es).run empty = (kept, holding kept) := hrun
      rw [run_enterEach_append, hrun', run_enterEach_cons, hregister]
      rfl
  · rw [hlookup, hmodifier]
    exact ⟨congrArg (Option.bind · Entry.command?) (hfind k),
      congrArg (Option.any (·.command?.isNone)) (hfind k)⟩
  · exact fun ns name name' h => congrArg (CommandKey.mk ns) (Text.lowerCase_eq_of_sameName h)

namespace Sample

/-- A key is tried again for a command and for a modifier, each time in other letters. -/
def rivals : List Entry :=
  [.command "n" "Note" .echo, .modifier "m" "kind", .command "n" "NOTE" .set, .modifier "n" "note",
    .command "m" "plain" .run]

end Sample

theorem keys_taken_once_rivals : ∃ kept r, (enterEach Sample.rivals).run empty = (kept, r) ∧
    r.namespaces = ["n", "m"] ∧ r.lookup? ⟨"n", "note"⟩ = some .echo ∧
    r.isModifier ⟨"m", "kind"⟩ = true ∧
    r.lookup? ⟨"m", "kind"⟩ = none ∧
    (enter (.modifier "n" "nOTE")).run r = (.error (.duplicateCommand "n" "note"), r) ∧
    CommandKey.of "n" "nOTE" = CommandKey.of "n" "Note" := by
  obtain ⟨kept, r, hrun, hdisjoint, ⟨-, hnamespaces, -⟩, hnext, hfind, hcase⟩ :=
    keys_taken_once Sample.rivals
  have hkept :
      kept = [.command "n" "Note" .echo, .modifier "m" "kind", .command "m" "plain" .run] :=
    (congrArg Prod.fst hrun).symm
  have hmodifier : r.isModifier ⟨"m", "kind"⟩ = true := (hfind _).2.trans (by rfl)
  have hrefused := hnext (.modifier "n" "nOTE")
  rw [if_pos (by decide)] at hrefused
  refine ⟨kept, r, hrun, ?_, (hfind _).1.trans (by rfl), hmodifier,
    hdisjoint _ hmodifier, hrefused.2,
    hcase "n" "nOTE" "Note" (by cbv)⟩
  rw [hnamespaces, hkept]
  rfl

end LiveSpec.Registry
