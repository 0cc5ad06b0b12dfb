import LiveSpec.Proofs.Listening.Replacing
import Mathlib.Data.List.Nodup

/-!
# What a builder hands out

An extension is a list of registrations, some of them extensions again. Its *leaves* are the
registrations in it that are no extensions, in order: they are tried one after the other, and the
first one that is refused ends the whole extension, at whatever depth it stands. A *ledger* of the
leaves that were accepted is therefore all there is to know about a builder that is not sealed: it
is the builder `assembled` from its ledger (`run_add_assembled`), and whether a leaf is refused
depends on the keys in the ledger alone.

A sealed builder refuses whatever is asked of it before it looks at anything else
(`run_add_sealed`).
-/

namespace LiveSpec

/-! ## The ledger -/

namespace Registration

/-- A registration that is no extension. -/
def IsLeaf : Registration → Prop
  | .extension _ _ => False
  | _ => True

mutual
/-- The registrations that are no extensions, in the order in which they are tried. -/
def leaves : Registration → List Registration
  | .extension _ items => leavesAll items
  | r => [r]
/-- The leaves of registrations, in order. -/
def leavesAll : List Registration → List Registration
  | [] => []
  | r :: rs => leaves r ++ leavesAll rs
end

/-- The key that a registration takes into use. -/
def key? : Registration → Option CommandKey
  | .command ns name _ | .modifier ns name => some (.of ns name)
  | _ => none

/-- The command that is registered. -/
def command? : Registration → Option (CommandKey × Command)
  | .command ns name c => some (.of ns name, c)
  | _ => none

/-- The modifier that is registered. -/
def modifier? : Registration → Option CommandKey
  | .modifier ns name => some (.of ns name)
  | _ => none

/-- The listeners that are registered. -/
def audience : Registration → Bus
  | .listeners ls => ls
  | _ => []

/-- What is added to the head of documents. -/
def headItem? : Registration → Option HeadEntry
  | .linkedCss target _ => some (.linkedCss target)
  | .embeddedCss text => some (.embeddedCss text)
  | .linkedScript target _ => some (.linkedScript target)
  | .embeddedScript text => some (.embeddedScript text)
  | _ => none

/-- The file that goes with the documents. -/
def asset? : Registration → Option Asset
  | .linkedCss target text | .linkedScript target text => some ⟨target, .ofText text⟩
  | .copy target (some bytes) => some ⟨target, bytes⟩
  | _ => none

/-- Why a leaf is refused by an open builder that accepted `kept`, if it is. -/
def objection? (kept : List Registration) : Registration → Option Error
  | .command ns name _ | .modifier ns name =>
    let k := CommandKey.of ns name
    if k ∈ kept.filterMap key? then some (.duplicateCommand k.ns k.name) else none
  | .copy _ none => some (.ofFile .notFound)
  | .refused message => some (.config message)
  | _ => none

/-- What a sealed builder calls a registration that it refuses. There is nothing to refuse where no
listener is registered, and an error is no registration. -/
def title? : Registration → Option String
  | .command _ name _ => some ("command '" ++ name ++ "'")
  | .modifier _ name => some ("modifier '" ++ name ++ "'")
  | .listeners ls => ls.head?.map fun l => l.1.title
  | .linkedCss target _ => some ("stylesheet " ++ target.path)
  | .embeddedCss _ => some "embedded stylesheet"
  | .linkedScript target _ => some ("script " ++ target.path)
  | .embeddedScript _ => some "embedded script"
  | .copy target _ => some ("resource " ++ target.path)
  | .extension name _ => some ("extension '" ++ name ++ "'")
  | .refused _ => none

/-- Tries leaves in order, up to the first that is refused: the answer, and the ledger afterwards.
-/
def settle (kept : List Registration) : List Registration → Except Error Unit × List Registration
  | [] => (.ok (), kept)
  | r :: rs =>
    match r.objection? kept with
    | some e => (.error e, kept)
    | none => settle (kept ++ [r]) rs

/-- Tries registrations one after the other, whatever becomes of each: the answers, and the ledger
afterwards. -/
def ledger (kept : List Registration) : List Registration →
    List (Except Error Unit) × List Registration
  | [] => ([], kept)
  | r :: rs =>
    let (answer, kept') := settle kept r.leaves
    let (answers, last) := ledger kept' rs
    (answer :: answers, last)

/-- A registration takes a key for a command or for a modifier. -/
theorem key?_eq_some {r : Registration} {k : CommandKey} :
    r.key? = some k ↔ (∃ c, r.command? = some (k, c)) ∨ r.modifier? = some k := by
  cases r <;> simp [key?, command?, modifier?]

/-- A leaf is all there is in it. -/
theorem IsLeaf.leaves_eq {r : Registration} (h : r.IsLeaf) : r.leaves = [r] := by
  cases r with
  | extension => exact h.elim
  | _ => rfl

/-- Settling goes through the registrations in order, and stops at the first that is rejected. -/
theorem settle_append (kept rs rs' : List Registration) :
    settle kept (rs ++ rs') = match settle kept rs with
      | (.ok (), kept') => settle kept' rs'
      | (.error e, kept') => (.error e, kept') := by
  induction rs generalizing kept with
  | nil => rfl
  | cons r rs ih =>
    simp only [List.cons_append, settle]
    cases r.objection? kept with
    | some e => rfl
    | none => exact ih _

/-- What was accepted are some of the leaves, in the order in which they were tried. -/
theorem exists_settle (kept rs : List Registration) :
    ∃ accepted, accepted <+: rs ∧ (settle kept rs).2 = kept ++ accepted := by
  induction rs generalizing kept with
  | nil => exact ⟨[], List.prefix_rfl, (List.append_nil _).symm⟩
  | cons r rs ih =>
    unfold settle
    cases r.objection? kept with
    | some e => exact ⟨[], List.nil_prefix, (List.append_nil _).symm⟩
    | none =>
      obtain ⟨accepted, hprefix, heq⟩ := ih (kept ++ [r])
      exact ⟨r :: accepted, List.cons_prefix_cons.mpr ⟨rfl, hprefix⟩,
        heq.trans (List.append_assoc ..)⟩

/-- What the ledger keeps is some of the leaves, in their order, after what was kept before. -/
theorem exists_ledger (kept rs : List Registration) :
    ∃ accepted, accepted.Sublist (leavesAll rs) ∧ (ledger kept rs).2 = kept ++ accepted := by
  induction rs generalizing kept with
  | nil => exact ⟨[], List.Sublist.refl _, (List.append_nil _).symm⟩
  | cons r rs ih =>
    obtain ⟨first, hfirst, heq⟩ := exists_settle kept r.leaves
    obtain ⟨others, hothers, heq'⟩ := ih (settle kept r.leaves).2
    exact ⟨first ++ others, hfirst.sublist.append hothers, by
      rw [← List.append_assoc, ← heq]; exact heq'⟩

/-- No key is in the ledger twice. -/
theorem nodup_settle {kept rs : List Registration} (h : (kept.filterMap key?).Nodup) :
    ((settle kept rs).2.filterMap key?).Nodup := by
  induction rs generalizing kept with
  | nil => exact h
  | cons r rs ih =>
    unfold settle
    cases hr : r.objection? kept with
    | some e => exact h
    | none =>
      refine ih ?_
      rw [List.filterMap_append]
      cases r with
      | command ns name _ | modifier ns name =>
        have hfree : CommandKey.of ns name ∉ kept.filterMap key? := fun hmem => by
          simp [objection?, hmem] at hr
        exact List.nodup_append'.mpr ⟨h, List.nodup_singleton _, List.disjoint_singleton.mpr hfree⟩
      | _ => exact (List.append_nil _).symm ▸ h

/-- No key is kept twice. -/
theorem nodup_ledger {kept rs : List Registration} (h : (kept.filterMap key?).Nodup) :
    ((ledger kept rs).2.filterMap key?).Nodup := by
  induction rs generalizing kept with
  | nil => exact h
  | cons r rs ih => exact ih (nodup_settle h)

end Registration

/-! ## The builder -/

namespace ExtensionBuilder

open Registration

/-- The open builder that accepted `kept`. -/
def assembled (kept : List Registration) : ExtensionBuilder where
  registry := ⟨kept.filterMap command?, kept.filterMap modifier?,
    ((kept.filterMap key?).map (·.ns)).eraseDups⟩
  listeners := kept.flatMap audience
  head := kept.filterMap headItem?
  assets := kept.filterMap asset?
  isSealed := false

/-- A builder that handed out its set. -/
def handedOut : ExtensionBuilder := { empty with isSealed := true }

/-- Applies registrations one after the other, whatever becomes of each. -/
def addEach : List Registration → StateM ExtensionBuilder (List (Except Error Unit))
  | [] => return []
  | r :: rs => do
    let answer ← (add r).run
    return answer :: (← addEach rs)

variable {b b' : ExtensionBuilder} {kept : List Registration} {r : Registration}

theorem run_ensureOpen {what : String} (hopen : b.isSealed = false) :
    (ensureOpen what).run b = (.ok (), b) := by
  show (if b.isSealed then (throw (.lateRegistration what) : Building Unit) else pure ()).run b = _
  rw [hopen]
  rfl

/-- A sealed builder rejects what it is asked to take. -/
theorem run_ensureOpen_sealed {what : String} (hsealed : b.isSealed = true) :
    (ensureOpen what).run b = (.error (.lateRegistration what), b) := by
  show (if b.isSealed then (throw (.lateRegistration what) : Building Unit) else pure ()).run b = _
  rw [hsealed]
  rfl

theorem run_open {what : String} {x : Building Unit} (hopen : b.isSealed = false) :
    (do ensureOpen what; x : Building Unit).run b = x.run b := by
  rw [run_bind, run_ensureOpen hopen]

/-- Nothing that comes late is run. -/
theorem run_late {what : String} {x : Building Unit} (hsealed : b.isSealed = true) :
    (do ensureOpen what; x : Building Unit).run b = (.error (.lateRegistration what), b) := by
  rw [run_bind, run_ensureOpen_sealed hsealed]

/-- An edit of the registry that fails leaves the builder as it was. -/
theorem run_onRegistry (f : Registry → Except Error Registry) : (onRegistry f).run b =
    match f b.registry with
      | .ok r => (.ok (), { b with registry := r })
      | .error e => (.error e, b) := by
  show (match f b.registry with
    | .ok r => set { b with registry := r }
    | .error e => throw e : Building Unit).run b = _
  cases f b.registry <;> rfl

/-- Listeners are taken in order. -/
theorem run_addListeners (ls : Bus) (hopen : b.isSealed = false) :
    (ls.forM addListener : Building Unit).run b = (.ok (),
      { b with listeners := b.listeners ++ ls }) := by
  induction ls generalizing b with
  | nil => rw [List.append_nil]; rfl
  | cons l ls ih =>
    have hfirst : (addListener l).run b = (.ok (), { b with listeners := b.listeners ++ [l] }) :=
      run_open hopen
    show (do addListener l; ls.forM addListener : Building Unit).run b = _
    rw [run_bind, hfirst, List.append_cons b.listeners l ls]
    exact ih hopen

/-! ## The keys -/

/-- A key is taken in the builder exactly if something kept has it. -/
theorem isTaken_assembled (kept : List Registration) (k : CommandKey) :
    (((assembled kept).registry.lookup? k).isSome ||
      (assembled kept).registry.isModifier k) = true ↔
      k ∈ kept.filterMap key? := by
  unfold Registry.lookup? Registry.isModifier
  rw [Bool.or_eq_true, List.lookup_isSome_iff, List.contains_iff_mem]
  constructor
  · rintro (⟨⟨k', c⟩, hmem, hk⟩ | hmem)
    · obtain ⟨r, hr, hcommand⟩ := List.mem_filterMap.mp hmem
      exact List.mem_filterMap.mpr ⟨r, hr, key?_eq_some.mpr (.inl ⟨c, eq_of_beq hk ▸ hcommand⟩)⟩
    · obtain ⟨r, hr, hmodifier⟩ := List.mem_filterMap.mp hmem
      exact List.mem_filterMap.mpr ⟨r, hr, key?_eq_some.mpr (.inr hmodifier)⟩
  · intro hmem
    obtain ⟨r, hr, hk⟩ := List.mem_filterMap.mp hmem
    rcases key?_eq_some.mp hk with ⟨c, hcommand⟩ | hmodifier
    · exact .inl ⟨(k, c), List.mem_filterMap.mpr ⟨r, hr, hcommand⟩, beq_self_eq_true k⟩
    · exact .inr (List.mem_filterMap.mpr ⟨r, hr, hmodifier⟩)

/-- A name at the end is taken over unless it came before. -/
theorem eraseDups_concat (names : List String) (name : String) :
    (names ++ [name]).eraseDups = if names.eraseDups.contains name then names.eraseDups else
      names.eraseDups ++ [name] := by
  rw [List.eraseDups_append, List.cons_removeAll]
  by_cases h : name ∈ names
  · simp [h, List.removeAll]
  · simp [h, List.removeAll, List.eraseDups_cons]

/-- An open builder takes the keys into use that are not in its ledger. -/
theorem claim_assembled (kept : List Registration) (k : CommandKey) :
    (assembled kept).registry.claim k =
    if k ∈ kept.filterMap key? then .error (.duplicateCommand k.ns k.name)
    else .ok { (assembled kept).registry with namespaces :=
      ((kept.filterMap key? ++ [k]).map (·.ns)).eraseDups } := by
  unfold Registry.claim
  by_cases hk : k ∈ kept.filterMap key?
  · rw [if_pos ((isTaken_assembled kept k).mpr hk), if_pos hk]
  · rw [if_neg fun h => hk ((isTaken_assembled kept k).mp h), if_neg hk, List.map_append,
      List.map_singleton,
      eraseDups_concat]
    show (if ((kept.filterMap key?).map (·.ns)).eraseDups.contains k.ns then _ else _) = _
    split <;> rfl

/-! ## One registration, and many -/

/-- What one more registration adds. -/
theorem assembled_concat (kept : List Registration) (r : Registration) : assembled (kept ++ [r]) =
    { registry := ⟨(assembled kept).registry.commands ++ r.command?.toList,
        (assembled kept).registry.modifiers ++ r.modifier?.toList,
        ((kept.filterMap key? ++ r.key?.toList).map (·.ns)).eraseDups⟩,
      listeners := (assembled kept).listeners ++ r.audience, head :=
        (assembled kept).head ++ r.headItem?.toList,
      assets := (assembled kept).assets ++ r.asset?.toList, isSealed := false } := by
  have one {α : Type} (f : Registration → Option α) : [r].filterMap f = (f r).toList := by
    rw [List.filterMap_cons, List.filterMap_nil]
    cases f r <;> rfl
  unfold assembled
  simp only [List.filterMap_append, List.flatMap_append, List.flatMap_singleton, one]

/-- A registration that takes no key into use changes no namespaces. -/
theorem assembled_concat_of_keyless (hr : r.key? = none) : assembled (kept ++ [r]) =
    { assembled kept with
      listeners := (assembled kept).listeners ++ r.audience, head :=
  (assembled kept).head ++ r.headItem?.toList,
      assets := (assembled kept).assets ++ r.asset?.toList } := by
  have hnone : r.command? = none ∧ r.modifier? = none := by
    cases r <;> first | exact ⟨rfl, rfl⟩ | cases hr
  rw [assembled_concat, hr, hnone.1, hnone.2]
  simp only [Option.toList_none, List.append_nil]
  rfl

/-- A leaf is rejected as the ledger objects to it, or kept at the end. -/
theorem run_leaf_assembled (hr : r.IsLeaf) (kept : List Registration) :
    (add r).run (assembled kept) = match r.objection? kept with
      | some e => (.error e, assembled kept)
      | none => (.ok (), assembled (kept ++ [r])) := by
  have hopen : (assembled kept).isSealed = false := rfl
  cases r with
  | extension => exact hr.elim
  | command ns name | modifier ns name =>
    rw [add, run_open hopen, run_onRegistry, objection?, assembled_concat]
    simp only [Registry.register, Registry.registerModifier, claim_assembled]
    by_cases hk : CommandKey.of ns name ∈ kept.filterMap key?
    · simp only [if_pos hk]
      rfl
    · simp only [if_neg hk, command?, modifier?, key?, audience, headItem?, asset?,
        Option.toList_none, Option.toList_some,
        List.append_nil]
      rfl
  | listeners ls =>
    show _ = (Except.ok (), assembled _)
    rw [add, run_addListeners ls hopen, assembled_concat_of_keyless rfl]
    simp only [headItem?, asset?, Option.toList_none, List.append_nil]
    rfl
  | copy target content =>
    cases content with
    | none => exact run_open hopen
    | some text =>
      show _ = (Except.ok (), assembled _)
      rw [add, run_open hopen, assembled_concat_of_keyless rfl]
      simp only [audience, headItem?, asset?, Option.toList_none, Option.toList_some,
        List.append_nil]
      rfl
  | refused message => rfl
  | _ =>
    show _ = (Except.ok (), assembled _)
    rw [add, run_open hopen, assembled_concat_of_keyless rfl]
    simp only [audience, headItem?, asset?, Option.toList_none, Option.toList_some, List.append_nil]
    rfl

/-- A leaf does to the builder what settling does to the ledger. -/
theorem run_leaf_settles (hr : r.IsLeaf) (kept : List Registration) :
    (add r).run (assembled kept) = ((settle kept r.leaves).1,
      assembled (settle kept r.leaves).2) := by
  rw [run_leaf_assembled hr, hr.leaves_eq, settle]
  split <;> rfl

mutual

/-- An open builder goes with its ledger. -/
theorem run_add_assembled : (r : Registration) → ∀ kept,
    (add r).run (assembled kept) = ((settle kept r.leaves).1, assembled (settle kept r.leaves).2)
  | .extension _ items, kept => by
    rw [add, run_open rfl]
    exact run_addAll_assembled items kept
  | .command _ _ _, kept | .modifier _ _, kept | .listeners _, kept | .linkedCss _ _,
    kept | .embeddedCss _, kept
  | .linkedScript _ _, kept | .embeddedScript _, kept | .copy _ _, kept | .refused _, kept =>
    run_leaf_settles (by trivial) kept

/-- So does a sequence of registrations that stops at the first error. -/
theorem run_addAll_assembled : (rs : List Registration) → ∀ kept,
    (addAll rs).run (assembled kept) = ((settle kept (leavesAll rs)).1,
      assembled (settle kept (leavesAll rs)).2)
  | [], kept => rfl
  | r :: rs, kept => by
    rw [addAll, run_bind, run_add_assembled r, leavesAll, settle_append]
    rcases settle kept r.leaves with ⟨_ | _, kept'⟩
    · rfl
    · exact run_addAll_assembled rs kept'

end

/-- And so do registrations each on its own, errors collected. -/
theorem run_addEach_assembled (rs kept : List Registration) :
    (addEach rs).run (assembled kept) = ((ledger kept rs).1, assembled (ledger kept rs).2) := by
  induction rs generalizing kept with
  | nil => rfl
  | cons r rs ih =>
    show (let (answer, b) := (add r).run (assembled kept)
      let (answers, b') := (addEach rs).run b
      (answer :: answers, b')) = _
    rw [run_add_assembled r kept]
    simp only [ih]
    rfl

/-! ## What is refused -/

/-- A sealed builder refuses a registration before it looks at anything else. -/
theorem run_add_sealed {what : String} (hsealed : b.isSealed = true) (hr : r.title? = some what) :
    (add r).run b = (.error (.lateRegistration what), b) := by
  cases r with
  | listeners ls =>
    cases ls with
    | nil => cases hr
    | cons l ls =>
      cases hr
      show (do addListener l; ls.forM addListener : Building Unit).run b = _
      rw [run_bind, addListener, run_late hsealed]
  | refused => cases hr
  | copy target content =>
    cases hr
    cases content <;> exact run_late hsealed
  | _ =>
    cases hr
    exact run_late hsealed

/-- A registration that is refused changes nothing. -/
theorem unchanged_of_refused {e : Error} (hr : r.IsLeaf) (h : (add r).run b = (.error e, b')) :
    b' = b := by
  cases hb : b.isSealed with
  | true =>
    cases htitle : r.title? with
    | some what =>
      rw [run_add_sealed hb htitle] at h
      exact (congrArg Prod.snd h).symm
    | none =>
      cases r with
      | listeners ls =>
        cases ls with
        | nil => cases congrArg Prod.fst h
        | cons => cases htitle
      | refused => exact (congrArg Prod.snd h).symm
      | _ => cases htitle
  | false =>
    cases r with
    | extension => exact hr.elim
    | command | modifier =>
      rw [add, run_open hb, run_onRegistry] at h
      split at h
      · cases congrArg Prod.fst h
      · exact (congrArg Prod.snd h).symm
    | listeners ls =>
      rw [add, run_addListeners ls hb] at h
      cases congrArg Prod.fst h
    | copy target content =>
      cases content with
      | none =>
        rw [add, run_open hb] at h
        exact (congrArg Prod.snd h).symm
      | some =>
        rw [add, run_open hb] at h
        cases congrArg Prod.fst h
    | refused => exact (congrArg Prod.snd h).symm
    | _ =>
      rw [add, run_open hb] at h
      cases congrArg Prod.fst h

/-- Where registrations in a row are refused, those before the first refused one stay. -/
theorem exists_refused {rs : List Registration} {e : Error}
    (h : (addAll rs).run b = (.error e, b')) :
    ∃ before r after b₁, rs = before ++ r :: after ∧ (addAll before).run b = (.ok (), b₁) ∧
      (add r).run b₁ = (.error e, b') := by
  induction rs generalizing b with
  | nil => cases congrArg Prod.fst h
  | cons r rs ih =>
    rw [addAll, run_bind] at h
    cases hr : (add r).run b with
    | mk answer b₁ =>
      rw [hr] at h
      cases answer with
      | error e' =>
        cases h
        exact ⟨[], r, rs, b, rfl, rfl, hr⟩
      | ok =>
        obtain ⟨before, r', after, b₂, rfl, hbefore, hr'⟩ := ih h
        refine ⟨r :: before, r', after, b₂, rfl, ?_, hr'⟩
        rw [addAll, run_bind, hr]
        exact hbefore

end ExtensionBuilder

/-! ## The set -/

/-- A channel has the listeners that were registered for it, in order. -/
theorem Bus.map_snd_on (b : Bus) (c : Channel) :
    (b.on c).map Prod.snd = (b.filter fun l => l.1 = c).map Prod.snd := by
  have shifted (k : Nat) :
      ((b.zipIdx k).filterMap fun x => if x.1.1 = c then some (x.2, x.1.2) else none).map Prod.snd =
      (b.filter fun l => l.1 = c).map Prod.snd := by
    induction b generalizing k with
    | nil => rfl
    | cons l ls ih =>
      rw [List.zipIdx_cons, List.filterMap_cons, List.filter_cons]
      by_cases hl : l.1 = c
      · simp [hl, ih]
      · simp [hl, ih]
  exact shifted 0

/-- A set that holds the registrations in a list, and nothing else: all lists are in the order of
the registrations, and namespaces in the order of their first use. -/
structure ExtensionSet.Holds (set : ExtensionSet) (kept : List Registration) : Prop where
  commands : set.registry.commands = kept.filterMap Registration.command?
  modifiers : set.registry.modifiers = kept.filterMap Registration.modifier?
  namespaces : set.registry.namespaces = ((kept.filterMap Registration.key?).map (·.ns)).eraseDups
  listeners : ∀ c, (set.listeners.on c).map Prod.snd =
    ((kept.flatMap Registration.audience).filter fun l => l.1 = c).map Prod.snd
  head : set.head = kept.filterMap Registration.headItem?
  assets : set.assets = kept.filterMap Registration.asset?
  /-- No key is taken twice, so that each one leads to the command that was registered under it. -/
  lookup : ∀ k c, set.registry.lookup? k = some c ↔ ∃ r ∈ kept, r.command? = some (k, c)

namespace ExtensionBuilder

open Registration

/-- With no key kept twice, each command is looked up as it was registered. -/
theorem lookup_commands {kept : List Registration} (hkept : (kept.filterMap key?).Nodup)
    (k : CommandKey) (c : Command) :
    (kept.filterMap command?).lookup k = some c ↔ ∃ r ∈ kept, r.command? = some (k, c) := by
  induction kept with
  | nil => simp
  | cons r rs ih =>
    have htail : (rs.filterMap key?).Nodup :=
      hkept.sublist ((List.sublist_cons_self r rs).filterMap _)
    cases hr : r.command? with
    | none => rw [List.filterMap_cons_none hr, ih htail, List.exists_mem_cons_iff, hr,
      or_iff_right nofun]
    | some command =>
      obtain ⟨k', c'⟩ := command
      have hkey : r.key? = some k' := key?_eq_some.mpr (.inl ⟨c', hr⟩)
      rw [List.filterMap_cons_some hkey] at hkept
      rw [List.filterMap_cons_some hr, List.lookup_cons, List.exists_mem_cons_iff, hr, ← ih htail]
      by_cases hk : k = k'
      · subst hk
        have hnone : (rs.filterMap command?).lookup k ≠ some c := fun h => by
          obtain ⟨r', hr', hcommand⟩ := (ih htail).mp h
          exact (List.nodup_cons.mp hkept).1 (List.mem_filterMap.mpr ⟨r', hr',
            key?_eq_some.mpr (.inl ⟨c, hcommand⟩)⟩)
        simp [hnone]
      · have hne : (k == k') = false := beq_false_of_ne hk
        simp [hne, Ne.symm hk]

/-- Building hands out a set that holds what was kept, and leaves the builder sealed. -/
theorem build_assembled {kept : List Registration} (hkept : (kept.filterMap key?).Nodup) :
    ∃ set, build.run (assembled kept) = (.ok set, handedOut) ∧ set.Holds kept :=
  ⟨_, rfl, rfl, rfl, rfl, fun c => Bus.map_snd_on _ c, rfl, rfl, lookup_commands hkept⟩

/-- **What a builder hands out.** Whatever is registered with a builder, in whatever order and
inside whatever extensions, it answers each time what the ledger says, and the set that it hands out
first holds the registrations of the ledger: some of those that were tried, in the order in which
they were tried. A registration that is refused changes nothing, and an extension that is refused
keeps what stood in it before the refused item. From then on the builder refuses everything as late,
and nothing changes it any more. -/
theorem assembled_in_order (rs : List Registration) :
    (∃ set, (addEach rs).run empty = ((ledger [] rs).1, assembled (ledger [] rs).2) ∧
      build.run (assembled (ledger [] rs).2) = (.ok set, handedOut) ∧ set.Holds (ledger [] rs).2) ∧
    ((ledger [] rs).2.Sublist (leavesAll rs) ∧ ((ledger [] rs).2.filterMap key?).Nodup) ∧
    (∀ r b e b', r.IsLeaf → (add r).run b = (.error e, b') → b' = b) ∧
    (∀ name items b e b', b.isSealed = false →
      (add (.extension name items)).run b = (.error e, b') →
      ∃ before r after b₁, items = before ++ r :: after ∧ (addAll before).run b = (.ok (), b₁) ∧
        (add r).run b₁ = (.error e, b')) ∧
    (∀ r what, r.title? = some what →
      (add r).run handedOut = (.error (.lateRegistration what), handedOut)) ∧
    build.run handedOut = (.error (.lateRegistration "extension set"), handedOut) := by
  have hnodup : ((ledger [] rs).2.filterMap key?).Nodup := nodup_ledger List.nodup_nil
  refine ⟨?_, ⟨?_, hnodup⟩, fun r b e b' => unchanged_of_refused,
    fun name items b e b' hopen h => ?_,
    fun r what => run_add_sealed rfl, rfl⟩
  · obtain ⟨set, hbuild, hset⟩ := build_assembled hnodup
    exact ⟨set, run_addEach_assembled rs [], hbuild, hset⟩
  · obtain ⟨accepted, hsublist, heq⟩ := exists_ledger [] rs
    rw [heq, List.nil_append]
    exact hsublist
  · rw [add, run_open hopen] at h
    exact exists_refused h

/-- An extension inside another one takes a key again that differs in the case of its letters only.
-/
def doubling : List Registration :=
  [.command "n" "note" .echo,
    .extension "outer" [.embeddedCss "p",
      .extension "inner" [.modifier "m" "kind", .command "n" "Note" .set, .embeddedScript "f()"],
      .embeddedCss "q"],
    .file (.ofPath "missing.txt") none]

theorem assembled_in_order_doubling : ∃ set, ((addEach doubling).run empty).1 =
      [.ok (), .error (.duplicateCommand "n" "note"), .error (.ofFile .notFound)] ∧
    build.run ((addEach doubling).run empty).2 = (.ok set, handedOut) ∧
    set.registry.commands = [(⟨"n", "note"⟩, .echo)] ∧ set.registry.modifiers = [⟨"m", "kind"⟩] ∧
    set.registry.namespaces = ["n", "m"] ∧ set.head = [.embeddedCss "p"] ∧
    (add (.command "n" "note" .echo)).run handedOut = (.error (.lateRegistration "command 'note'"),
      handedOut) := by
  obtain ⟨⟨set, heach, hbuild, hset⟩, -, -, -, hlate, -⟩ := assembled_in_order doubling
  refine ⟨set, ?_, ?_, ?_, ?_, ?_, ?_, hlate _ _ rfl⟩
  · rw [heach]; rfl
  · rw [heach]; exact hbuild
  · rw [hset.commands]; rfl
  · rw [hset.modifiers]; rfl
  · rw [hset.namespaces]; decide
  · rw [hset.head]; rfl

end ExtensionBuilder
end LiveSpec
