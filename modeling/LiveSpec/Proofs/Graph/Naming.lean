import LiveSpec.Command.Graph
import LiveSpec.Proofs.Results
import LiveSpec.Proofs.Tree.Order

/-!
# What the names of an element stand for

Whether an element carries a command depends on its own name and on those of its attributes. A name
with a mark stands for a name in the namespace that the nearest declaration of the mark gives
(`Tree.Declared`), unless the mark is that of declarations. In a namespace in use it names a command
(`NamesCommand`), or a modifier, or it is unknown (`Unknown`).

`Fault` says which error an element is reported with: that of its first unknown name, else that it
carries more than one command. An element without fault carries one command or none. The search for
commands answers accordingly: `commandOf_eq_error_iff`, `commandOf_eq_some`, `commandOf_eq_none`.
-/

namespace LiveSpec

open Markup (NodeId Tree)

namespace Markup.Tree

variable {t : Tree} {n p : NodeId} {name v w : String} {d f : Nat}

/-- The value that an attribute has at a node or, if the node lacks it, at the nearest one above
that has it. -/
inductive Declared (t : Tree) (name : String) : NodeId → String → Prop
  | here {n : NodeId} {v : String} : t.attribute? n name = some v → Declared t name n v
  | above {n p : NodeId} {v : String} :
    t.attribute? n name = none → n ∈ (t.node p).children → Declared t name p v → Declared t name n v

theorem Coherent.inScope_iff (ht : t.Coherent) (hn : t.Depth n d) (hf : d < f) :
    t.inScope name f n = some v ↔ t.Declared name n v := by
  induction hn generalizing f with
  | @top r hr =>
    obtain ⟨f, rfl⟩ := Nat.exists_eq_succ_of_ne_zero (Nat.ne_of_gt hf)
    unfold inScope
    rw [above_top hr]
    constructor
    · intro h
      split at h
      · next hv => cases h; exact .here hv
      · cases h
    · intro h
      cases h with
      | here hv => rw [hv]
      | above _ hmem _ => exact absurd hmem (ht.top_not_listed hr)
  | @child p c d hp hc ih =>
    obtain ⟨f, rfl⟩ :=
      Nat.exists_eq_succ_of_ne_zero (Nat.ne_of_gt (Nat.lt_of_le_of_lt (Nat.zero_le _) hf))
    have hscope : t.inScope name f p = some v ↔ t.Declared name p v := ih (by omega)
    unfold inScope
    rw [ht.above_of_mem hp.standing hc]
    constructor
    · intro h
      split at h
      · next hv => cases h; exact .here hv
      · next hv => exact .above hv hc (hscope.mp h)
    · intro h
      cases h with
      | here hv => rw [hv]
      | above hv hmem hq =>
        rw [hv]
        exact hscope.mpr (ht.parent_unique hc hmem ▸ hq)

/-- **The namespace of a mark is that of its nearest declaration.** -/
theorem Coherent.namespace?_iff (ht : t.Coherent) (hn : t.Standing n) {mark : String} :
    t.namespace? n mark = some v ↔ t.Declared (declarationOf mark) n v := by
  obtain ⟨d, hd⟩ := hn.depth
  exact ht.inScope_iff hd (Nat.lt_succ_of_lt (ht.depth_lt hd))

end Markup.Tree

namespace CallGraph

variable {t : Tree} {r : Registry} {n : NodeId} {name ns localName : String} {e : Error}
  {key : CommandKey} {c : Command}

/-- The name `mark:localName`, where the mark stands for a namespace in use. -/
structure StandsFor (t : Tree) (r : Registry) (n : NodeId) (name ns localName : String) : Prop where
  spelled : ∃ mark, Markup.splitName name = (some mark, localName) ∧
    Text.sameName mark "xmlns" = false ∧
    t.Declared (Markup.declarationOf mark) n ns
  inUse : r.hasNamespace ns = true

/-- The name stands for one that is registered neither as a modifier nor as a command. -/
structure Unknown (t : Tree) (r : Registry) (n : NodeId) (name ns localName : String) : Prop
    extends StandsFor t r n name ns localName where
  noModifier : r.isModifier (.of ns localName) = false
  noCommand : r.lookup? (.of ns localName) = none

/-- The name stands for that of a command. -/
def NamesCommand (t : Tree) (r : Registry) (n : NodeId) (name : String) (key : CommandKey)
    (c : Command) : Prop :=
  ∃ ns localName, StandsFor t r n name ns localName ∧ key = .of ns localName ∧
    r.isModifier key = false ∧
    r.lookup? key = some c

/-- The names of an element: its own, then those of its attributes. -/
def names (t : Tree) (n : NodeId) : List String := t.name n :: (t.attributes n).map Prod.fst

/-- The element carries a command. -/
def Carries (t : Tree) (r : Registry) (n : NodeId) : Prop :=
  ∃ name ∈ names t n, ∃ key c, NamesCommand t r n name key c

/-- None of the names is unknown. -/
def AllKnown (t : Tree) (r : Registry) (n : NodeId) (ms : List String) : Prop :=
  ∀ m ∈ ms, ∀ ns localName, ¬ Unknown t r n m ns localName

/-- The keys of those names that name commands, in order. -/
inductive Keys (t : Tree) (r : Registry) (n : NodeId) : List String → List CommandKey → Prop
  | nil : Keys t r n [] []
  | skip {name : String} {ms : List String} {ks : List CommandKey} :
    (∀ key c, ¬ NamesCommand t r n name key c) → Keys t r n ms ks → Keys t r n (name :: ms) ks
  | take {name : String} {ms : List String} {ks : List CommandKey} {key : CommandKey}
    {c : Command} :
    NamesCommand t r n name key c → Keys t r n ms ks → Keys t r n (name :: ms) (key :: ks)

/-- The element cannot be given a call: one of its names is unknown, or it carries more than one
command. -/
def Invalid (t : Tree) (r : Registry) (n : NodeId) : Prop :=
  (∃ name ∈ names t n, ∃ ns localName, Unknown t r n name ns localName) ∨
    ∃ ks, Keys t r n (names t n) ks ∧ 1 < ks.length

/-- The error that an invalid element is reported with. -/
inductive Fault (t : Tree) (r : Registry) (n : NodeId) : Error → Prop
  /-- The first of its names that is unknown. -/
  | unknown {before after : List String} {name ns localName : String} :
    names t n = before ++ name :: after →
    AllKnown t r n before → Unknown t r n name ns localName →
    Fault t r n (.unknownCommand ns localName)
  /-- All names are known, and more than one names a command. -/
  | several {ks : List CommandKey} : AllKnown t r n (names t n) → Keys t r n (names t n) ks →
    1 < ks.length →
    Fault t r n (.config ("element " ++ t.describe n ++ " carries more than one command: " ++
      ", ".intercalate (ks.map CommandKey.name)))

theorem AllKnown.nil : AllKnown t r n [] := fun _ h => nomatch h

theorem AllKnown.cons {ms : List String} (h : ∀ ns localName, ¬ Unknown t r n name ns localName)
    (hms : AllKnown t r n ms) : AllKnown t r n (name :: ms) := fun m hm =>
  (List.mem_cons.mp hm).elim (fun he => he ▸ h) (hms m)

section

variable (ht : t.Coherent) (hn : t.Standing n)
include ht hn

/-! ## One name -/

theorem standsFor_iff : StandsFor t r n name ns localName ↔
    ∃ mark, Markup.splitName name = (some mark, localName) ∧ Text.sameName mark "xmlns" = false ∧
      t.namespace? n mark = some ns ∧ r.hasNamespace ns = true := by
  constructor
  · rintro ⟨⟨mark, hsplit, hmark, hns⟩, huse⟩
    exact ⟨mark, hsplit, hmark, (ht.namespace?_iff hn).mpr hns, huse⟩
  · rintro ⟨mark, hsplit, hmark, hns, huse⟩
    exact ⟨⟨mark, hsplit, hmark, (ht.namespace?_iff hn).mp hns⟩, huse⟩

/-- A name stands for one thing at most. -/
theorem StandsFor.unique {ns' localName' : String} (h : StandsFor t r n name ns localName)
    (h' : StandsFor t r n name ns' localName') : ns = ns' ∧ localName = localName' := by
  obtain ⟨mark, hsplit, -, hns, -⟩ := (standsFor_iff ht hn).mp h
  obtain ⟨mark', hsplit', -, hns', -⟩ := (standsFor_iff ht hn).mp h'
  rw [hsplit] at hsplit'
  cases hsplit'
  exact ⟨Option.some.inj (hns.symm.trans hns'), rfl⟩

theorem NamesCommand.not_unknown (h : NamesCommand t r n name key c) :
    ¬ Unknown t r n name ns localName := by
  rintro ⟨hstands, -, hnone⟩
  obtain ⟨ns', localName', hstands', rfl, -, hsome⟩ := h
  obtain ⟨rfl, rfl⟩ := hstands.unique ht hn hstands'
  exact absurd (hnone.symm.trans hsome) (by simp)

theorem NamesCommand.unique {key' : CommandKey} {c' : Command} (h : NamesCommand t r n name key c)
    (h' : NamesCommand t r n name key' c') : key = key' ∧ c = c' := by
  obtain ⟨ns, localName, hstands, rfl, -, hc⟩ := h
  obtain ⟨ns', localName', hstands', rfl, -, hc'⟩ := h'
  obtain ⟨rfl, rfl⟩ := hstands.unique ht hn hstands'
  exact ⟨rfl, Option.some.inj (hc.symm.trans hc')⟩

/-- What the search makes of a name goes by what the name stands for. -/
theorem resolve_cases (name : String) :
    (∃ ns localName, Unknown t r n name ns localName ∧
      resolve t r n name = .error (.unknownCommand ns localName)) ∨
    (∃ key c, NamesCommand t r n name key c ∧ resolve t r n name = .ok (some (key, some c))) ∨
    ((∀ ns localName, ¬ Unknown t r n name ns localName) ∧
      (∀ key c, ¬ NamesCommand t r n name key c) ∧
      ∃ found, resolve t r n name = .ok found ∧ ∀ key c, found ≠ some (key, some c)) := by
  -- a name that stands for nothing in use is neither unknown nor that of a command
  have hnothing : (∀ ns localName, ¬ StandsFor t r n name ns localName) →
      (∀ ns localName, ¬ Unknown t r n name ns localName) ∧
      ∀ key c, ¬ NamesCommand t r n name key c := fun h =>
    ⟨fun ns l hu => h ns l hu.toStandsFor, fun _ _ ⟨ns, l, hs, _⟩ => h ns l hs⟩
  simp only [standsFor_iff ht hn] at hnothing
  unfold resolve
  rcases hsplit : Markup.splitName name with ⟨_ | mark, l⟩
  · obtain ⟨hu, hc⟩ := hnothing (by simp [hsplit])
    exact .inr (.inr ⟨hu, hc, none, rfl, by simp⟩)
  by_cases hmark : Text.sameName mark "xmlns" = true
  · obtain ⟨hu, hc⟩ := hnothing (by simp [hsplit, hmark])
    exact .inr (.inr ⟨hu, hc, none, by simp [hmark], by simp⟩)
  cases hns : t.namespace? n mark with
  | none =>
    obtain ⟨hu, hc⟩ := hnothing (by simp [hsplit, hns])
    exact .inr (.inr ⟨hu, hc, none, by simp [hmark, hns], by simp⟩)
  | some ns =>
    cases huse : r.hasNamespace ns with
    | false =>
      obtain ⟨hu, hc⟩ := hnothing (by simp [hsplit, hns, huse])
      exact .inr (.inr ⟨hu, hc, none, by simp [hmark, hns, huse], by simp⟩)
    | true =>
      have hstands : StandsFor t r n name ns l :=
        (standsFor_iff ht hn).mpr ⟨mark, hsplit, by simpa using hmark, hns, huse⟩
      cases hmod : r.isModifier (.of ns l) with
      | true =>
        refine .inr (.inr ⟨fun ns' l' hu => ?_, fun key c ⟨ns', l', hs, hkey, hnot, _⟩ => ?_,
          some (.of ns l, none),
          by simp [hmark, hns, huse, hmod], by simp⟩)
        · obtain ⟨rfl, rfl⟩ := hstands.unique ht hn hu.toStandsFor
          exact absurd (hmod.symm.trans hu.noModifier) (by simp)
        · obtain ⟨rfl, rfl⟩ := hstands.unique ht hn hs
          exact absurd (hmod.symm.trans (hkey ▸ hnot)) (by simp)
      | false =>
        cases hcmd : r.lookup? (.of ns l) with
        | none => exact .inl ⟨ns, l, ⟨hstands, hmod, hcmd⟩, by simp [hmark, hns, huse, hmod, hcmd]⟩
        | some c =>
          exact .inr (.inl ⟨.of ns l, c, ⟨ns, l, hstands, rfl, hmod, hcmd⟩, by simp [hmark, hns,
            huse, hmod, hcmd]⟩)

/-! ## All names -/

theorem Keys.unique {ms : List String} {ks ks' : List CommandKey} (h : Keys t r n ms ks)
    (h' : Keys t r n ms ks') :
    ks = ks' := by
  induction h generalizing ks' with
  | nil => cases h'; rfl
  | skip hnot _ ih =>
    cases h' with
    | skip _ hrest => exact ih hrest
    | take hnames _ => exact absurd hnames (hnot _ _)
  | take hnames _ ih =>
    cases h' with
    | skip hnot _ => exact absurd hnames (hnot _ _)
    | take hnames' hrest => rw [(hnames.unique ht hn hnames').1, ih hrest]

/-- The search for the commands of attributes ends at the first unknown name, or it finds all of
them. -/
theorem ofAttributes_cases (as : Markup.Attributes) :
    (∃ before name after ns localName, as.map Prod.fst = before ++ name :: after ∧
      AllKnown t r n before ∧
      Unknown t r n name ns localName ∧ ofAttributes t r n as = .error
        (.unknownCommand ns localName)) ∨
    (AllKnown t r n (as.map Prod.fst) ∧ ∃ fs, ofAttributes t r n as = .ok fs ∧
      Keys t r n (as.map Prod.fst) (fs.map Found.key) ∧
      ∀ f ∈ fs, ∃ m ∈ as.map Prod.fst, NamesCommand t r n m f.key f.command) := by
  induction as with
  | nil => exact .inr ⟨.nil, [], rfl, .nil, fun f hf => nomatch hf⟩
  | cons a as ih =>
    obtain ⟨name, value⟩ := a
    unfold ofAttributes
    rcases resolve_cases ht hn (r := r) name with
      ⟨ns, l, hu, hres⟩ | ⟨key, c, hnames, hres⟩ | ⟨hnot, hnone, found, hres, hfound⟩
    · exact .inl ⟨[], name, _, ns, l, rfl, .nil, hu, by rw [hres]; rfl⟩
    all_goals
      have hknown : ∀ ns l, ¬ Unknown t r n name ns l := by
        first | exact hnot | exact fun ns l => hnames.not_unknown ht hn
      rcases ih with ⟨before, m, after, ns, l, hsplit, hbefore, hu, herr⟩ | ⟨hrest, fs, hok,
        hkeys, hmem⟩
      · refine .inl ⟨name :: before, m, after, ns, l, by simp [hsplit],
          .cons hknown hbefore, hu, ?_⟩
        rw [hres, herr]
        rfl
    · refine .inr ⟨.cons hknown hrest, ⟨key, c, Text.trimmed value⟩ :: fs, ?_, .take hnames hkeys,
        fun f hf => ?_⟩
      · rw [hres, hok]
        rfl
      · rcases List.mem_cons.mp hf with rfl | hf
        · exact ⟨name, List.mem_cons_self, hnames⟩
        · obtain ⟨m, hm, h⟩ := hmem f hf
          exact ⟨m, List.mem_cons_of_mem name hm, h⟩
    · refine .inr ⟨.cons hknown hrest, fs, ?_, .skip hnone hkeys, fun f hf => ?_⟩
      · rw [hres, hok]
        rcases found with _ | ⟨key, _ | c⟩
        · rfl
        · rfl
        · exact absurd rfl (hfound key c)
      · obtain ⟨m, hm, h⟩ := hmem f hf
        exact ⟨m, List.mem_cons_of_mem name hm, h⟩

omit ht hn in
theorem Keys.append {ms ms' : List String} {ks ks' : List CommandKey} (h : Keys t r n ms ks)
    (h' : Keys t r n ms' ks') :
    Keys t r n (ms ++ ms') (ks ++ ks') := by
  induction h with
  | nil => exact h'
  | skip hnot _ ih => exact .skip hnot ih
  | take hnames _ ih => exact .take hnames ih

omit ht hn in
/-- Names without keys do not name commands. -/
theorem Keys.none_named {ms : List String} (h : Keys t r n ms []) {m : String} (hm : m ∈ ms)
    (key : CommandKey) (c : Command) : ¬ NamesCommand t r n m key c := by
  generalize hks : ([] : List CommandKey) = ks at h
  induction h with
  | nil => cases hm
  | skip hnot _ ih =>
    rcases List.mem_cons.mp hm with rfl | hm
    · exact hnot key c
    · exact ih hm hks
  | take => cases hks

/-- The search for the command that the own name of an element names. -/
theorem ofName_cases :
    (∃ ns localName, Unknown t r n (t.name n) ns localName ∧
      ofName t r n = .error (.unknownCommand ns localName)) ∨
    ((∀ ns localName, ¬ Unknown t r n (t.name n) ns localName) ∧ ∃ fs, ofName t r n = .ok fs ∧
      Keys t r n [t.name n] (fs.map Found.key) ∧ ∀ f ∈ fs,
        NamesCommand t r n (t.name n) f.key f.command) := by
  unfold ofName
  rcases resolve_cases ht hn (r := r) (t.name n) with
    ⟨ns, l, hu, hres⟩ | ⟨key, c, hnames, hres⟩ | ⟨hnot, hnone, found, hres, hfound⟩
  · exact .inl ⟨ns, l, hu, by rw [hres]; rfl⟩
  · refine .inr ⟨fun ns l => hnames.not_unknown ht hn, [⟨key, c, _⟩], by rw [hres]; rfl,
      .take hnames .nil,
      fun f hf => ?_⟩
    exact List.mem_singleton.mp hf ▸ hnames
  · refine .inr ⟨hnot, [], ?_, .skip hnone .nil, fun f hf => nomatch hf⟩
    rw [hres]
    rcases found with _ | ⟨key, _ | c⟩
    · rfl
    · rfl
    · exact absurd rfl (hfound key c)

/-- The search for the command of an element ends with its fault, or it finds the only command or
none. -/
theorem commandOf_cases :
    (∃ e, Fault t r n e ∧ commandOf t r n = .error e) ∨
    (AllKnown t r n (names t n) ∧ ∃ f, commandOf t r n = .ok (some f) ∧
      Keys t r n (names t n) [f.key] ∧
      ∃ m ∈ names t n, NamesCommand t r n m f.key f.command) ∨
    (AllKnown t r n (names t n) ∧ commandOf t r n = .ok none ∧ Keys t r n (names t n) []) := by
  unfold commandOf
  rcases ofName_cases ht hn (r := r) with ⟨ns, l, hu, herr⟩ | ⟨hown, fs, hfs, hkeys, hmem⟩
  · exact .inl ⟨_, .unknown rfl .nil hu, by rw [herr]; rfl⟩
  rcases ofAttributes_cases ht hn (r := r) (t.attributes n) with
    ⟨before, m, after, ns, l, hsplit, hbefore, hu, herr⟩ | ⟨hrest, fs', hfs', hkeys', hmem'⟩
  · have hnames : names t n = (t.name n :: before) ++ m :: after := congrArg (t.name n :: ·) hsplit
    refine .inl ⟨_, .unknown hnames (.cons hown hbefore) hu, ?_⟩
    rw [hfs, herr]
    rfl
  have hknown : AllKnown t r n (names t n) := .cons hown hrest
  have hall : Keys t r n (names t n) ((fs ++ fs').map Found.key) := by
    rw [List.map_append]
    exact hkeys.append hkeys'
  have hnamed :
      ∀ f ∈ fs ++ fs', ∃ m ∈ names t n, NamesCommand t r n m f.key f.command := fun f hf => by
    rcases List.mem_append.mp hf with hf | hf
    · exact ⟨_, List.mem_cons_self, hmem f hf⟩
    · obtain ⟨m, hm, h⟩ := hmem' f hf
      exact ⟨m, List.mem_cons_of_mem _ hm, h⟩
  rw [hfs, hfs']
  simp only [bind, Except.bind]
  generalize fs ++ fs' = found at hall hnamed
  match found, hall, hnamed with
  | [], hall, _ => exact .inr (.inr ⟨hknown, rfl, hall⟩)
  | [f], hall, hnamed => exact .inr (.inl ⟨hknown, f, rfl, hall, hnamed f List.mem_cons_self⟩)
  | f :: g :: rest, hall, _ =>
    refine .inl ⟨_, .several hknown hall (by simp), ?_⟩
    rw [List.map_map]
    rfl

/-! ## Faults -/

omit ht hn in
/-- A list has one first unknown name. -/
theorem first_unknown_unique {before before' after after' : List String}
    {name' ns' localName' : String} (h : before ++ name :: after = before' ++ name' :: after')
    (hbefore : AllKnown t r n before) (hbefore' : AllKnown t r n before')
    (hu : Unknown t r n name ns localName) (hu' : Unknown t r n name' ns' localName') :
    name = name' := by
  rcases List.append_eq_append_iff.mp h with ⟨_ | ⟨m, ms⟩, hb, ha⟩ | ⟨_ | ⟨m, ms⟩, hb, ha⟩
  · exact (List.cons.inj ha).1
  · obtain ⟨rfl, -⟩ := List.cons.inj ha
    exact absurd hu (hbefore' name (by simp [hb]) ns localName)
  · exact (List.cons.inj ha).1.symm
  · obtain ⟨rfl, -⟩ := List.cons.inj ha
    exact absurd hu' (hbefore name' (by simp [hb]) ns' localName')

/-- An element is reported with one error at most. -/
theorem Fault.unique {e' : Error} (h : Fault t r n e) (h' : Fault t r n e') : e = e' := by
  cases h with
  | unknown hsplit hbefore hu =>
    cases h' with
    | unknown hsplit' hbefore' hu' =>
      have hname := first_unknown_unique (hsplit.symm.trans hsplit') hbefore hbefore' hu hu'
      obtain ⟨rfl, rfl⟩ := hu.toStandsFor.unique ht hn (hname ▸ hu'.toStandsFor)
      rfl
    | several hknown _ _ => exact absurd hu (hknown _ (by simp [hsplit]) _ _)
  | several hknown hkeys _ =>
    cases h' with
    | unknown hsplit hbefore hu => exact absurd hu (hknown _ (by simp [hsplit]) _ _)
    | several _ hkeys' _ => rw [hkeys.unique ht hn hkeys']

/-- An element whose names are known and of which at most one names a command has no fault. -/
theorem not_invalid {ks : List CommandKey} (hknown : AllKnown t r n (names t n))
    (hkeys : Keys t r n (names t n) ks) (hle : ks.length ≤ 1) : ¬ Invalid t r n := by
  rintro (⟨name, hname, ns, l, hu⟩ | ⟨ks', hkeys', hlt⟩)
  · exact hknown name hname ns l hu
  · rw [hkeys.unique ht hn hkeys'] at hle
    omega

omit ht hn in
theorem Fault.invalid (h : Fault t r n e) : Invalid t r n := by
  cases h with
  | unknown hsplit _ hu => exact .inl ⟨_, by simp [hsplit], _, _, hu⟩
  | several _ hkeys hlt => exact .inr ⟨_, hkeys, hlt⟩

/-- **The search for a command fails with the fault of the element.** -/
theorem commandOf_eq_error_iff : commandOf t r n = .error e ↔ Fault t r n e := by
  rcases commandOf_cases ht hn (r := r) with ⟨e', hfault, herr⟩ | ⟨hknown, f, hok, hkeys,
    -⟩ | ⟨hknown, hok, hkeys⟩
  · refine ⟨fun h => ?_, fun h => ?_⟩
    · rw [herr] at h
      cases h
      exact hfault
    · rw [herr, h.unique ht hn hfault]
  · refine ⟨fun h => ?_, fun h => absurd h.invalid (not_invalid ht hn hknown hkeys (by simp))⟩
    rw [hok] at h
    cases h
  · refine ⟨fun h => ?_, fun h => absurd h.invalid (not_invalid ht hn hknown hkeys (by simp))⟩
    rw [hok] at h
    cases h

/-- **It fails exactly at the invalid elements.** -/
theorem commandOf_fails_iff : (∃ e, commandOf t r n = .error e) ↔ Invalid t r n := by
  refine ⟨fun ⟨e, h⟩ => ((commandOf_eq_error_iff ht hn).mp h).invalid, fun h => ?_⟩
  rcases commandOf_cases ht hn (r := r) with ⟨e, -, herr⟩ | ⟨hknown, f, -, hkeys,
    -⟩ | ⟨hknown, -, hkeys⟩
  · exact ⟨e, herr⟩
  · exact absurd h (not_invalid ht hn hknown hkeys (by simp))
  · exact absurd h (not_invalid ht hn hknown hkeys (by simp))

/-- **Where it does not fail, it finds a command exactly if the element carries one.** -/
theorem carries_iff {found? : Option Found} (h : commandOf t r n = .ok found?) : Carries t r n ↔
    found?.isSome := by
  rcases commandOf_cases ht hn (r := r) with ⟨e, -, herr⟩ | ⟨-, f, hok, -, m, hm,
    hnames⟩ | ⟨-, hok, hkeys⟩
  · cases herr.symm.trans h
  · cases hok.symm.trans h
    exact ⟨fun _ => rfl, fun _ => ⟨m, hm, f.key, f.command, hnames⟩⟩
  · cases hok.symm.trans h
    refine ⟨fun ⟨m, hm, key, c, hnames⟩ => absurd hnames ?_, fun h => nomatch h⟩
    exact hkeys.none_named hm key c

end

end CallGraph
end LiveSpec
