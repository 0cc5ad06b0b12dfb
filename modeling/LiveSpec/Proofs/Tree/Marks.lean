import LiveSpec.Proofs.Text.SameName
import LiveSpec.Proofs.Tree.Order

/-!
# One mark for another

Which mark stands for a namespace is the author's choice. `Tree.renameMark` puts one mark in the
place of another, in the names of elements and attributes and where the mark is declared. Neither
may be the mark of declarations (`Exchange`), and the new one must not be in use (`Tree.Unused`).
Then a mark stands at each element for the namespace that the one it replaces stood for
(`Tree.Unused.namespace?_eq`).

An attribute is looked up by its namespace and its local name, and
`Tree.Unused.namespacedAttribute?_eq` says that the answer is the same. There is one exception: the
search does not leave out declarations, so where the mark `xmlns` is itself declared, a declaration
of a mark is taken for an attribute with the mark as its local name (`Tree.Mistakes`).
-/

namespace LiveSpec

namespace Text

/-- A text is cut where the character stands first. -/
theorem cutAt?_eq_some {c : Char} {cs a b : List Char} : cutAt? c cs = some (a, b) ↔
    cs = a ++ c :: b ∧ c ∉ a := by
  induction cs generalizing a with
  | nil => simp [cutAt?]
  | cons d ds ih =>
    unfold cutAt?
    by_cases hd : d = c
    · rw [if_pos hd]
      cases a with
      | nil => simp [hd]
      | cons x xs =>
        simp only [Option.some.injEq, Prod.mk.injEq, reduceCtorEq, false_and, false_iff, not_and,
          List.cons_append,
          List.cons.injEq]
        rintro ⟨rfl, -⟩ hnot
        exact hnot (hd ▸ List.mem_cons_self)
    · rw [if_neg hd]
      cases a with
      | nil =>
        simp [hd]
      | cons x xs =>
        simp only [Option.map_eq_some_iff, Prod.exists, Prod.mk.injEq, List.cons.injEq,
          List.cons_append, List.mem_cons,
          not_or]
        constructor
        · rintro ⟨ys, zs, hcut, ⟨rfl, rfl⟩, rfl⟩
          obtain ⟨hds, hys⟩ := ih.mp hcut
          exact ⟨⟨rfl, hds⟩, Ne.symm hd, hys⟩
        · rintro ⟨⟨rfl, hds⟩, -, hxs⟩
          exact ⟨xs, b, ih.mpr ⟨hds, hxs⟩, ⟨rfl, rfl⟩, rfl⟩

/-- No letter becomes a colon in lower case. -/
theorem toLower_eq_colon {c : Char} : c.toLower = ':' ↔ c = ':' := by
  rw [← Char.toNat_inj, ← Char.toNat_inj, toNat_toLower]
  show _ = 58 ↔ _ = 58
  split <;> omega

/-- A text has a colon exactly if it has one in lower case. -/
theorem colon_mem_asciiLower {s : String} : ':' ∈ (asciiLower s).toList ↔ ':' ∈ s.toList := by
  unfold asciiLower
  rw [String.toList_map, List.mem_map]
  simp only [toLower_eq_colon, exists_eq_right]

theorem asciiLower_append (a b : String) : asciiLower (a ++ b) = asciiLower a ++ asciiLower b := by
  refine String.toList_inj.mp ?_
  simp [asciiLower, String.toList_map]

theorem asciiLower_eq_empty {s : String} : asciiLower s = "" ↔ s = "" := by
  rw [← String.toList_inj, ← String.toList_inj, asciiLower, String.toList_map]
  exact List.map_eq_nil_iff

/-- Texts that agree in lower case are empty together. -/
theorem ne_empty_of_asciiLower {a b : String} (h : asciiLower a = asciiLower b) (hb : b ≠ "") :
    a ≠ "" := by
  rintro rfl
  exact hb (asciiLower_eq_empty.mp (h.symm.trans (asciiLower_eq_empty.mpr rfl)))

theorem sameName_refl (s : String) : sameName s s = true := sameName_iff.mpr rfl

theorem sameName_comm (a b : String) : sameName a b = sameName b a := Bool.beq_comm

/-- What has the same name stands for it in every comparison. -/
theorem sameName_congr_left {a b : String} (h : sameName a b = true) (c : String) :
    sameName a c = sameName b c := by
  unfold sameName
  rw [sameName_iff.mp h]

theorem sameName_congr_right {a b : String} (h : sameName a b = true) (c : String) :
    sameName c a = sameName c b := by
  unfold sameName
  rw [sameName_iff.mp h]

end Text

namespace Markup

open Text (sameName)

variable {name mark rest old new : String}

/-! ## The mark of a name -/

/-- What can stand before the first colon of a name. -/
structure IsMark (mark : String) : Prop where
  ne_empty : mark ≠ ""
  no_colon : ':' ∉ mark.toList

/-- Whether a text can be a mark does not depend on its case. -/
theorem IsMark.of_asciiLower {mark' : String} (h : IsMark mark)
    (he : Text.asciiLower mark' = Text.asciiLower mark) :
    IsMark mark' where
  ne_empty := Text.ne_empty_of_asciiLower he h.ne_empty
  no_colon := by
    rw [← Text.colon_mem_asciiLower, he, Text.colon_mem_asciiLower]
    exact h.no_colon

/-- A name with a mark, character by character. -/
theorem join_toList (mark rest : String) :
    (mark ++ ":" ++ rest).toList = mark.toList ++ ':' :: rest.toList := by
  simp [String.toList_append]

/-- **A name has a mark exactly if it is written with one.** -/
theorem splitName_eq_some :
    splitName name = (some mark, rest) ↔ IsMark mark ∧ rest ≠ "" ∧ name = mark ++ ":" ++ rest := by
  have hempty : ∀ cs : List Char, cs.isEmpty = false ↔ String.ofList cs ≠ "" := fun cs => by
    cases cs <;> simp [← String.toList_inj]
  unfold splitName
  constructor
  · intro h
    split at h
    · next a b hcut =>
      obtain ⟨hname, ha⟩ := Text.cutAt?_eq_some.mp hcut
      split at h
      · cases h
      · next hne =>
        cases h
        simp only [Bool.or_eq_true, not_or, Bool.not_eq_true] at hne
        refine ⟨⟨(hempty a).mp hne.1, by rwa [String.toList_ofList]⟩, (hempty b).mp hne.2, ?_⟩
        rw [← String.toList_inj, join_toList, String.toList_ofList, String.toList_ofList, hname]
    · cases h
  · rintro ⟨hmark, hrest, rfl⟩
    rw [join_toList, Text.cutAt?_eq_some.mpr ⟨rfl, hmark.no_colon⟩]
    have hm := (hempty mark.toList).mpr (by rw [String.ofList_toList]; exact hmark.ne_empty)
    have hr := (hempty rest.toList).mpr (by rw [String.ofList_toList]; exact hrest)
    simp [hm, hr]

/-- A name that is put together of a mark and a rest is split into them again. -/
theorem splitName_join (hmark : IsMark mark) (hrest : rest ≠ "") :
    splitName (mark ++ ":" ++ rest) = (some mark, rest) :=
  splitName_eq_some.mpr ⟨hmark, hrest, rfl⟩

/-- **A name is the same as one with a mark if it has the same mark and the rest is the same**, up
to the case of letters. -/
theorem sameName_join_iff (hmark : IsMark mark) (hrest : rest ≠ "") :
    sameName name (mark ++ ":" ++ rest) = true ↔
    ∃ m r, splitName name = (some m, r) ∧ sameName m mark = true ∧ sameName r rest = true := by
  have hjoin : ∀ m r : String, Text.asciiLower (m ++ ":" ++ r) = Text.asciiLower m ++ ":" ++
      Text.asciiLower r :=
    fun m r => by
      have hcolon : Text.asciiLower ":" = ":" := by cbv
      rw [Text.asciiLower_append, Text.asciiLower_append, hcolon]
  simp only [Text.sameName_iff, hjoin]
  constructor
  · intro h
    have hlist := congrArg String.toList h
    rw [join_toList, Text.asciiLower, String.toList_map, List.map_eq_append_iff] at hlist
    obtain ⟨before, after, hname, hbefore, hafter⟩ := hlist
    obtain ⟨c, ending, rfl, hc, hending⟩ := List.map_eq_cons_iff.mp hafter
    obtain rfl := Text.toLower_eq_colon.mp hc
    have hm : Text.asciiLower (.ofList before) = Text.asciiLower mark := by
      rw [← String.toList_inj, ← hbefore, Text.asciiLower, String.toList_map, String.toList_ofList]
    have hr : Text.asciiLower (.ofList ending) = Text.asciiLower rest := by
      rw [← String.toList_inj, ← hending, Text.asciiLower, String.toList_map, String.toList_ofList]
    have hsplit : splitName name = (some (.ofList before), .ofList ending) := by
      refine splitName_eq_some.mpr ⟨hmark.of_asciiLower hm,
        Text.ne_empty_of_asciiLower hr hrest, ?_⟩
      rw [← String.toList_inj, join_toList, String.toList_ofList, String.toList_ofList, hname]
    exact ⟨_, _, hsplit, hm, hr⟩
  · rintro ⟨m, r, hsplit, hm, hr⟩
    obtain ⟨-, -, rfl⟩ := splitName_eq_some.mp hsplit
    rw [hjoin, hm, hr]

/-- What is the same as a name without mark has none. -/
theorem splitName_fst_of_sameName {plain : String} (hplain : (splitName plain).1 = none)
    (h : sameName name plain = true) : (splitName name).1 = none := by
  rcases hsplit : splitName name with ⟨_ | m, r⟩
  · rfl
  · obtain ⟨hm, hr, rfl⟩ := splitName_eq_some.mp hsplit
    obtain ⟨m', r', hplain', -⟩ :=
      (sameName_join_iff hm hr).mp (Text.sameName_iff.mpr (Text.sameName_iff.mp h).symm)
    rw [hplain'] at hplain
    cases hplain

/-- Marks of the same name are declared by attributes of the same name. -/
theorem sameName_declarationOf {mark' : String} (h : sameName mark mark' = true) :
    sameName (declarationOf mark) (declarationOf mark') = true := by
  unfold declarationOf
  rw [Text.sameName_iff, Text.asciiLower_append, Text.asciiLower_append, Text.sameName_iff.mp h]

/-- **A mark is declared by the attributes whose mark is that of declarations and whose local name
it is**, up to the case of letters. -/
theorem sameName_declarationOf_iff (hmark : mark ≠ "") : sameName name (declarationOf mark) = true ↔
    ∃ m r, splitName name = (some m, r) ∧ sameName m "xmlns" = true ∧ sameName r mark = true := by
  have hjoin : declarationOf mark = "xmlns" ++ ":" ++ mark := congrArg (· ++ mark) (by decide)
  rw [hjoin]
  exact sameName_join_iff ⟨by decide, by decide⟩ hmark

/-! ## Names with another mark -/

/-- One mark in the place of another. -/
def renamedMark (old new mark : String) : String := if sameName mark old then new else mark

/-- The name of an element with one mark in the place of another. -/
def renamedName (old new name : String) : String :=
  match splitName name with
  | (some mark, rest) => if sameName mark old then new ++ ":" ++ rest else name
  | (none, _) => name

/-- The name of an attribute with one mark in the place of another. A declaration of the mark
becomes one of the other. -/
def renamedAttribute (old new name : String) : String :=
  match splitName name with
  | (some mark, rest) =>
    if sameName mark old then new ++ ":" ++ rest
    else if sameName mark "xmlns" && sameName rest old then mark ++ ":" ++ new
    else name
  | (none, _) => name

/-- A name without a mark stays as it is. -/
theorem renamedName_unmarked (hsplit : (splitName name).1 = none) :
    renamedName old new name = name := by
  unfold renamedName
  split
  · next hsome =>
    rw [hsome] at hsplit
    cases hsplit
  · rfl

/-- So does an attribute without a mark. -/
theorem renamedAttribute_unmarked (hsplit : (splitName name).1 = none) :
    renamedAttribute old new name = name := by
  unfold renamedAttribute
  split
  · next hsome =>
    rw [hsome] at hsplit
    cases hsplit
  · rfl

/-- One mark can be put in the place of another: neither is that of declarations. -/
structure Exchange (old new : String) : Prop where
  old_ne_empty : old ≠ ""
  isMark : IsMark new
  old_ordinary : sameName old "xmlns" = false
  new_ordinary : sameName new "xmlns" = false

/-- A mark, up to the case of letters, neither stands in a name of an element or of an attribute nor
is declared. -/
structure Tree.Unused (t : Tree) (mark : String) : Prop where
  names {n : NodeId} {m rest : String} : splitName (t.name n) = (some m, rest) →
    sameName m mark = false
  attributes {n : NodeId} {a : String × String} {m rest : String} :
    a ∈ t.attributes n → splitName a.1 = (some m, rest) → sameName m mark = false
  declared {n : NodeId} {a : String × String} :
    a ∈ t.attributes n → sameName a.1 (declarationOf mark) = false

/-- Says whether a name does not have a mark. -/
def lacksMark (mark name : String) : Bool :=
  match splitName name with
  | (some m, _) => !sameName m mark
  | (none, _) => true

/-- Says whether a content neither has a mark in its names nor declares it. -/
def Content.lacksMark (mark : String) : Content → Bool
  | .element name as =>
    Markup.lacksMark mark name && as.all fun a => Markup.lacksMark mark a.1 && !sameName a.1
      (declarationOf mark)
  | _ => true

/-- A name that does not bear a mark is split at another one, if at all. -/
theorem sameName_of_lacksMark {m : String} (h : lacksMark mark name = true)
    (hsplit : splitName name = (some m, rest)) :
    sameName m mark = false := by
  unfold lacksMark at h
  rw [hsplit] at h
  simpa using h

/-- Whether a mark is unused can be computed. -/
theorem Tree.unused_of_lacksMark {t : Tree}
    (h : t.nodes.all (fun x => x.content.lacksMark mark) = true) :
    t.Unused mark := by
  have hnode : ∀ n, (t.node n).content.lacksMark mark = true := fun n => by
    by_cases hn : n < t.nodes.size
    · simpa [Tree.node, Array.getD, hn] using Array.all_eq_true.mp h n hn
    · rw [Tree.node_of_size_le _ _ (Nat.not_lt.mp hn)]
      rfl
  have hname : ∀ n, lacksMark mark (t.name n) = true := fun n => by
    have hcontent := hnode n
    unfold Tree.name
    cases hn : (t.node n).content with
    | element name as =>
      rw [hn, Content.lacksMark, Bool.and_eq_true] at hcontent
      exact hcontent.1
    | _ => rfl
  have hattribute : ∀ {n a}, a ∈ t.attributes n →
      lacksMark mark a.1 = true ∧ sameName a.1 (declarationOf mark) = false := fun {n a} ha => by
    have hcontent := hnode n
    unfold Tree.attributes at ha
    cases hn : (t.node n).content with
    | element name as =>
      rw [hn] at ha hcontent
      rw [Content.lacksMark, Bool.and_eq_true] at hcontent
      simpa using List.all_eq_true.mp hcontent.2 a ha
    | _ => simp [hn] at ha
  exact ⟨fun hsplit => sameName_of_lacksMark (hname _) hsplit,
    fun ha hsplit => sameName_of_lacksMark (hattribute ha).1 hsplit, fun ha => (hattribute ha).2⟩

namespace Exchange

variable (h : Exchange old new)
include h

/-- A renamed name has the renamed mark, and the same rest. -/
theorem splitName_renamedName (hsplit : splitName name = (some mark, rest)) :
    splitName (renamedName old new name) = (some (renamedMark old new mark), rest) := by
  unfold renamedName renamedMark
  rw [hsplit]
  dsimp only
  split
  · exact splitName_join h.isMark (splitName_eq_some.mp hsplit).2.1
  · exact hsplit

/-- The name of an attribute has the new mark, or it declares it, or it is the old name. -/
theorem renamedAttribute_cases (name : String) :
    (∃ m r, splitName name = (some m, r) ∧ sameName m old = true ∧
      splitName (renamedAttribute old new name) = (some new, r)) ∨
    (∃ m r, splitName name = (some m, r) ∧ sameName m "xmlns" = true ∧ sameName r old = true ∧
      splitName (renamedAttribute old new name) = (some m, new)) ∨
    (renamedAttribute old new name = name ∧ ∀ m r, splitName name = (some m, r) →
      sameName m old = false ∧ (sameName m "xmlns" = true → sameName r old = false)) := by
  unfold renamedAttribute
  rcases hsplit : splitName name with ⟨_ | m, r⟩
  · exact .inr (.inr ⟨rfl, by simp⟩)
  obtain ⟨hm, hr, -⟩ := splitName_eq_some.mp hsplit
  dsimp only
  by_cases hold : sameName m old = true
  · rw [if_pos hold]
    exact .inl ⟨m, r, rfl, hold, splitName_join h.isMark hr⟩
  by_cases hdeclares : (sameName m "xmlns" && sameName r old) = true
  · rw [if_neg hold, if_pos hdeclares]
    obtain ⟨hxmlns, hrold⟩ := Bool.and_eq_true_iff.mp hdeclares
    exact .inr (.inl ⟨m, r, rfl, hxmlns, hrold, splitName_join hm h.isMark.ne_empty⟩)
  · rw [if_neg hold, if_neg hdeclares]
    refine .inr (.inr ⟨rfl, fun m' r' he => ?_⟩)
    obtain ⟨hm', hr'⟩ := Prod.mk.inj he
    obtain rfl := Option.some.inj hm'
    obtain rfl := hr'
    exact ⟨by simpa using hold, fun hx => by simpa [hx] using hdeclares⟩

/-- The name of an attribute has the mark in the place of its mark, if it is not a declaration of
the old one. -/
theorem splitName_renamedAttribute (hsplit : splitName name = (some mark, rest))
    (hdeclares : sameName name (declarationOf old) = false) :
    splitName (renamedAttribute old new name) = (some (renamedMark old new mark), rest) := by
  unfold renamedMark
  rcases h.renamedAttribute_cases name with ⟨m, r, hsplit', hold, hnew⟩ | ⟨m, r, hsplit', hx, hr,
    -⟩ | ⟨hnew, hnot⟩
  · cases hsplit.symm.trans hsplit'
    rw [if_pos hold, hnew]
  · have hdeclared := (sameName_declarationOf_iff h.old_ne_empty).mpr ⟨m, r, hsplit', hx, hr⟩
    rw [hdeclares] at hdeclared
    cases hdeclared
  · rw [(hnot mark rest hsplit).1, if_neg Bool.false_ne_true, hnew, hsplit]

/-- **What declared a mark declares the one in its place**, and nothing else does, if the new mark
was not in use. -/
theorem declares_renamed (hfree : sameName name (declarationOf new) = false) (hmark : mark ≠ "")
    (hne : sameName mark new = false) :
    sameName (renamedAttribute old new name) (declarationOf (renamedMark old new mark)) =
      sameName name (declarationOf mark) := by
  have hmark' : renamedMark old new mark ≠ "" := by
    unfold renamedMark
    split
    · exact h.isMark.ne_empty
    · exact hmark
  rw [Bool.eq_iff_iff, sameName_declarationOf_iff hmark', sameName_declarationOf_iff hmark]
  rcases h.renamedAttribute_cases name with ⟨m, r, hsplit, hold, hnew⟩ | ⟨m, r, hsplit, hx, hr,
    hnew⟩ | ⟨hnew, hnot⟩
  · -- neither the old mark nor the new one is that of declarations
    have hm : sameName m "xmlns" = false := Text.sameName_congr_left hold "xmlns" ▸ h.old_ordinary
    simp [hsplit, hnew, hm, h.new_ordinary]
  · -- a declaration of the old mark
    rw [hsplit, hnew]
    have hrm : sameName r mark = sameName mark old := by
      rw [Text.sameName_congr_left hr, Text.sameName_comm]
    unfold renamedMark
    by_cases hold : sameName mark old = true
    · simp [hx, hold, hrm, Text.sameName_refl]
    · simp [hold, hrm, Text.sameName_comm new mark, hne]
  · rw [hnew]
    unfold renamedMark
    by_cases hold : sameName mark old = true
    · rw [if_pos hold, ← sameName_declarationOf_iff h.isMark.ne_empty, hfree]
      simp only [Bool.false_eq_true, false_iff, not_exists, not_and]
      intro m r hsplit hx hr
      rw [Text.sameName_congr_right hold, (hnot m r hsplit).2 hx] at hr
      cases hr
    · rw [if_neg hold]

end Exchange

namespace Attributes

/-- An attribute that is looked up by another name, among others with other names. -/
theorem find?_map {f : String → String} {name' : String} {as : Attributes}
    (h : ∀ a ∈ as, sameName (f a.1) name' = sameName a.1 name) :
    find? name' (as.map fun a => (f a.1, a.2)) = find? name as := by
  induction as with
  | nil => rfl
  | cons a as ih =>
    rw [List.map_cons, find?, find?, h a List.mem_cons_self,
      ih fun b hb => h b (List.mem_cons_of_mem a hb)]

/-- Searches that answer the same for each attribute come to the same. -/
theorem findSome?_congr {as : Attributes} {f g : String × String → Option String}
    (h : ∀ a ∈ as, f a = g a) :
    as.findSome? f = as.findSome? g := by
  induction as with
  | nil => rfl
  | cons a as ih =>
    rw [List.findSome?_cons, List.findSome?_cons, h a List.mem_cons_self,
      ih fun b hb => h b (List.mem_cons_of_mem a hb)]

/-- The value of an attribute as a search for the first one of the name. -/
theorem find?_eq_findSome? (name : String) (as : Attributes) :
    find? name as = as.findSome? fun a => if sameName a.1 name then some a.2 else none := by
  induction as with
  | nil => rfl
  | cons a as ih =>
    rw [find?, List.findSome?_cons, ih]
    cases sameName a.1 name <;> rfl

/-- Two names that are the same up to the case of letters find the same attribute. -/
theorem find?_congr {name' : String} (h : sameName name' name = true) (as : Attributes) :
    find? name' as = find? name as := by
  induction as with
  | nil => rfl
  | cons a as ih => rw [find?, find?, Text.sameName_congr_right h, ih]

end Attributes

/-! ## A tree with another mark -/

/-- A content with one mark in the place of another. -/
def Content.renameMark (old new : String) : Content → Content
  | .element name as =>
    .element (renamedName old new name) (as.map fun a => (renamedAttribute old new a.1, a.2))
  | c => c

namespace Tree

variable {t : Tree} {n x : NodeId} {ns localName : String}

/-- A tree with one mark in the place of another. -/
def renameMark (old new : String) (t : Tree) : Tree :=
  ⟨t.nodes.map fun x => { x with content := x.content.renameMark old new }⟩

/-- Marks are exchanged node by node, and no node comes or goes. -/
@[simp] theorem size_renameMark : (t.renameMark old new).nodes.size = t.nodes.size :=
  Array.size_map ..

/-- A node of the renamed tree differs from the one that it was in its content alone. -/
theorem node_renameMark (n : NodeId) :
    (t.renameMark old new).node n =
    { t.node n with content := (t.node n).content.renameMark old new } := by
  by_cases hn : n < t.nodes.size
  · simp [node, renameMark, Array.getD, hn]
  · rw [node_of_size_le _ _ (Nat.not_lt.mp hn), node_of_size_le _ _ (by simpa using hn)]
    rfl

/-- The content of a node, with one mark for the other. -/
@[simp] theorem content_renameMark (n : NodeId) :
    ((t.renameMark old new).node n).content = (t.node n).content.renameMark old new := by
  rw [node_renameMark]

/-- The children stay, and so do links, as the next lemmas say. -/
@[simp] theorem children_renameMark (n : NodeId) :
    ((t.renameMark old new).node n).children = (t.node n).children := by rw [node_renameMark]

@[simp] theorem link_renameMark (n : NodeId) :
    ((t.renameMark old new).node n).link = (t.node n).link := by rw [node_renameMark]

@[simp] theorem destroyed_renameMark (n : NodeId) :
    ((t.renameMark old new).node n).destroyed = (t.node n).destroyed := by rw [node_renameMark]

/-- Elements stay elements. -/
theorem isElement_renameMark (n : NodeId) : (t.renameMark old new).isElement n = t.isElement n := by
  unfold isElement
  rw [content_renameMark]
  cases (t.node n).content <;> rfl

/-- The name of a node is the renamed one. -/
theorem name_renameMark (n : NodeId) :
    (t.renameMark old new).name n = renamedName old new (t.name n) := by
  have hempty : renamedName old new "" = "" := by cbv
  unfold name
  rw [content_renameMark]
  cases (t.node n).content <;> simp [Content.renameMark, hempty]

/-- The attributes keep their values. -/
theorem attributes_renameMark (n : NodeId) : (t.renameMark old new).attributes n =
    (t.attributes n).map fun a => (renamedAttribute old new a.1, a.2) := by
  unfold attributes
  rw [content_renameMark]
  cases (t.node n).content <;> rfl

/-- What a node hangs under does not change. -/
theorem above_renameMark (n : NodeId) : (t.renameMark old new).above n = t.above n := by
  unfold above
  simp

/-- Texts have no marks. -/
theorem text_renameMark (n : NodeId) : (t.renameMark old new).text n = t.text n := by
  have hwithin : ∀ fuel m, (t.renameMark old new).textWithin fuel m = t.textWithin fuel m := by
    intro fuel
    induction fuel with
    | zero => exact fun _ => rfl
    | succ fuel ih =>
      intro m
      rw [textWithin, textWithin, children_renameMark]
      congr 1
      refine List.map_congr_left fun c _ => ?_
      rw [content_renameMark]
      cases (t.node c).content with
      | element name as => exact ih c
      | _ => rfl
  unfold text
  rw [hwithin, size_renameMark]

/-- The elements below a node are the same ones. -/
theorem elementsOf_renameMark (n : NodeId) :
    (t.renameMark old new).elementsOf n = t.elementsOf n := by
  unfold elementsOf
  rw [children_renameMark]
  exact List.filter_congr fun c _ => isElement_renameMark c

theorem root_renameMark : (t.renameMark old new).root = t.root := by
  unfold root
  rw [elementsOf_renameMark]

theorem isTop_renameMark : (t.renameMark old new).IsTop n ↔ t.IsTop n :=
  ⟨fun h => ⟨by simpa using h.lt, by simpa using h.link⟩,
    fun h => ⟨by simpa using h.lt, by simpa using h.link⟩⟩

/-- The order of the tree is that of before. -/
theorem under_renameMark {a : NodeId} : (t.renameMark old new).Under a x ↔ t.Under a x := by
  constructor <;> intro h <;> induction h with
  | self => exact .self
  | child _ hc ih => exact .child ih (by simpa using hc)

/-- The same nodes stand. -/
theorem standing_renameMark : (t.renameMark old new).Standing n ↔ t.Standing n := by
  simp only [Standing, isTop_renameMark, under_renameMark]

/-- A coherent tree stays coherent under another mark. -/
theorem Coherent.renameMark (ht : t.Coherent) (old new : String) :
    (t.renameMark old new).Coherent := by
  constructor
  · rw [content_renameMark, ht.root_content]
    rfl
  · exact isTop_renameMark.mpr ht.root_top
  · exact fun h => by simpa using ht.top_alive (isTop_renameMark.mp h)
  · exact fun h => by simpa using ht.child_lt (by simpa using h)
  · exact fun h => by simpa using ht.child_link (by simpa using h)
  · exact fun h => by simpa using ht.child_alive (by simpa using h)
  · exact fun p => by simpa using ht.nodup p
  · exact fun h => by simpa using ht.parent_lt (by simpa using h)
  · exact fun h hp => by simpa using ht.listed (by simpa using h) (standing_renameMark.mp hp)

theorem reaches_renameMark {a : NodeId} : (t.renameMark old new).Reaches a x ↔ t.Reaches a x := by
  constructor <;> intro h <;> induction h with
  | self => exact .self
  | child _ hc ih => exact .child ih (by simpa only [elementsOf_renameMark] using hc)

/-- The order of the document is the same. -/
theorem precedes_renameMark {a : NodeId} : (t.renameMark old new).Precedes a x ↔
    t.Precedes a x := by
  constructor
  · rintro (⟨hc, hx⟩ | ⟨hcd, hx, hy⟩)
    · exact .below (by simpa using hc) (under_renameMark.mp hx)
    · exact .beside (by simpa using hcd) (under_renameMark.mp hx) (under_renameMark.mp hy)
  · rintro (⟨hc, hx⟩ | ⟨hcd, hx, hy⟩)
    · exact .below (by simpa using hc) (under_renameMark.mpr hx)
    · exact .beside (by simpa using hcd) (under_renameMark.mpr hx) (under_renameMark.mpr hy)

end Tree

/-! ## What the marks stand for -/

namespace Tree

variable {t : Tree} {n : NodeId} {ns localName : String}

/-- A mark is looked up by its name, whatever its case. -/
theorem namespace?_congr {mark' : String} (h : sameName mark' mark = true) :
    t.namespace? n mark' = t.namespace? n mark := by
  have hdeclaration := sameName_declarationOf h
  have hscope : ∀ fuel n, t.inScope (declarationOf mark') fuel n = t.inScope
      (declarationOf mark) fuel n := by
    intro fuel
    induction fuel with
    | zero => exact fun _ => rfl
    | succ fuel ih =>
      intro n
      rw [inScope, inScope, attribute?, attribute?, Attributes.find?_congr hdeclaration]
      simp only [ih]
  exact hscope _ n

/-- An attribute whose name has no mark is what it was. -/
theorem attribute?_renameMark (h : Exchange old new) {plain : String}
    (hplain : (splitName plain).1 = none) :
    (t.renameMark old new).attribute? n plain = t.attribute? n plain := by
  have hmarked : ∀ {k m r : String}, splitName k = (some m, r) →
      sameName k plain = false := fun {k} _ _ hsplit => by
    by_contra hsame
    rw [Bool.not_eq_false] at hsame
    exact absurd (hsplit ▸ splitName_fst_of_sameName hplain hsame) (by simp)
  unfold attribute?
  rw [attributes_renameMark]
  refine Attributes.find?_map fun a _ => ?_
  rcases h.renamedAttribute_cases a.1 with ⟨m, r, hsplit, -, hnew⟩ | ⟨m, r, hsplit, -, -,
    hnew⟩ | ⟨hnew, -⟩
  · rw [hmarked hsplit, hmarked hnew]
  · rw [hmarked hsplit, hmarked hnew]
  · rw [hnew]

/-- What an attribute answers when one is looked up by its namespace and its local name. -/
def answer? (t : Tree) (n : NodeId) (ns localName : String) (a : String × String) : Option String :=
  match splitName a.1 with
  | (some mark, rest) =>
    if sameName rest localName && t.namespace? n mark == some ns then some a.2 else none
  | (none, _) => none

/-- An attribute of a namespace is the first one that answers for it. -/
theorem namespacedAttribute?_eq_answer (t : Tree) (n : NodeId) (ns localName : String) :
    t.namespacedAttribute? n ns localName = (t.attributes n).findSome?
      (t.answer? n ns localName) := rfl

/-- An attribute with a mark answers if the mark stands for the namespace. -/
theorem answer?_of_split {a : String × String} (hsplit : splitName a.1 = (some mark, rest)) :
    t.answer? n ns localName a =
      if sameName rest localName && t.namespace? n mark == some ns then some a.2 else none := by
  unfold answer?
  rw [hsplit]

/-- An attribute without a mark answers for no namespace. -/
theorem answer?_of_unmarked {a : String × String} (hsplit : (splitName a.1).1 = none) :
    t.answer? n ns localName a = none := by
  unfold answer?
  split
  · next h =>
    rw [h] at hsplit
    cases hsplit
  · rfl

/-- A declaration of a mark answers to the name of the mark, in the namespace of the mark of
declarations. -/
theorem answer?_declaration {a : String × String} (hmark : mark ≠ "")
    (hdeclares : sameName a.1 (declarationOf mark) = true) : t.answer? n ns localName a =
      if sameName mark localName && t.namespace? n "xmlns" == some ns then some a.2 else none := by
  obtain ⟨m, r, hsplit, hx, hr⟩ := (sameName_declarationOf_iff hmark).mp hdeclares
  rw [answer?_of_split hsplit, Text.sameName_congr_left hr, namespace?_congr hx]

/-- A declaration of the mark is taken for an attribute: the mark of declarations stands for the
namespace, and the attribute asked for is called like the mark or like the one in its place. -/
structure Mistakes (t : Tree) (old new : String) (n : NodeId) (ns localName : String) : Prop where
  stands : t.namespace? n "xmlns" = some ns
  declared : ∃ a ∈ t.attributes n, sameName a.1 (declarationOf old) = true
  asked : sameName old localName = true ∨ sameName new localName = true

end Tree

namespace Tree.Unused

variable {t : Tree} {n : NodeId} {ns localName : String} (hu : t.Unused new)
include hu

/-- A mark that is declared is not the new one. -/
theorem old_ne {a : String × String} (ha : a ∈ t.attributes n)
    (hdeclares : sameName a.1 (declarationOf old) = true) :
    sameName old new = false := by
  by_contra hsame
  rw [Bool.not_eq_false] at hsame
  rw [Text.sameName_congr_right (sameName_declarationOf hsame), hu.declared ha] at hdeclares
  cases hdeclares

variable (h : Exchange old new)
include h

/-- The declaration of a mark is found at the same element under its new name, by induction on the
way up. -/
theorem inScope_eq (hmark : mark ≠ "") (hne : sameName mark new = false) (fuel : Nat) (n : NodeId) :
    (t.renameMark old new).inScope (declarationOf (renamedMark old new mark)) fuel n =
      t.inScope (declarationOf mark) fuel n := by
  induction fuel generalizing n with
  | zero => rfl
  | succ fuel ih =>
    have hattribute :
        (t.renameMark old new).attribute? n (declarationOf (renamedMark old new mark)) =
        t.attribute? n (declarationOf mark) := by
      unfold attribute?
      rw [attributes_renameMark]
      exact Attributes.find?_map fun a ha => h.declares_renamed (hu.declared ha) hmark hne
    rw [inScope, inScope, hattribute, above_renameMark]
    simp only [ih]

/-- **The mark in the place of another stands for the same namespace**, at each element. -/
theorem namespace?_eq (hmark : mark ≠ "") (hne : sameName mark new = false) :
    (t.renameMark old new).namespace? n (renamedMark old new mark) = t.namespace? n mark := by
  unfold namespace?
  rw [size_renameMark]
  exact hu.inScope_eq h hmark hne _ n

/-- An attribute that does not declare the mark answers as before. -/
theorem answer?_eq {a : String × String} (ha : a ∈ t.attributes n)
    (hdeclares : sameName a.1 (declarationOf old) = false) :
    (t.renameMark old new).answer? n ns localName (renamedAttribute old new a.1, a.2) =
    t.answer? n ns localName a := by
  rcases hsplit : splitName a.1 with ⟨_ | m, r⟩
  · have hnone := congrArg Prod.fst hsplit
    rw [renamedAttribute_unmarked hnone, answer?_of_unmarked (a := a) hnone,
      answer?_of_unmarked hnone]
  · have hnew := h.splitName_renamedAttribute hsplit hdeclares
    have hmark := (splitName_eq_some.mp hsplit).1.ne_empty
    have hns := hu.namespace?_eq h (n := n) hmark (hu.attributes ha hsplit)
    rw [answer?_of_split (a := (renamedAttribute old new a.1, a.2)) hnew,
      answer?_of_split (t := t) hsplit, hns]

/-- A declaration of the old mark becomes one of the new mark. -/
theorem declares_new {a : String × String} (ha : a ∈ t.attributes n)
    (hdeclares : sameName a.1 (declarationOf old) = true) :
    sameName (renamedAttribute old new a.1) (declarationOf new) = true := by
  have heq := h.declares_renamed (hu.declared ha) h.old_ne_empty (hu.old_ne ha hdeclares)
  rwa [renamedMark, if_pos (Text.sameName_refl old), hdeclares] at heq

/-- It answers to the name of the new mark. -/
theorem answer?_declaration_renamed {a : String × String} (ha : a ∈ t.attributes n)
    (hdeclares : sameName a.1 (declarationOf old) = true) :
    (t.renameMark old new).answer? n ns localName (renamedAttribute old new a.1, a.2) =
      if sameName new localName && t.namespace? n "xmlns" == some ns then some a.2 else none := by
  have hx : sameName "xmlns" new = false := Text.sameName_comm new "xmlns" ▸ h.new_ordinary
  have hxold : sameName "xmlns" old = false := Text.sameName_comm old "xmlns" ▸ h.old_ordinary
  have hns := hu.namespace?_eq h (n := n) (by decide : "xmlns" ≠ "") hx
  rw [renamedMark, hxold, if_neg Bool.false_ne_true] at hns
  rw [answer?_declaration h.isMark.ne_empty (hu.declares_new h ha hdeclares), hns]

/-- **An attribute is found by its namespace and its local name as before**, unless a declaration of
the mark is taken for it. -/
theorem namespacedAttribute?_eq (hno : ¬ t.Mistakes old new n ns localName) :
    (t.renameMark old new).namespacedAttribute? n ns localName =
    t.namespacedAttribute? n ns localName := by
  rw [namespacedAttribute?_eq_answer, namespacedAttribute?_eq_answer, attributes_renameMark,
    List.findSome?_map]
  refine Attributes.findSome?_congr fun a ha => ?_
  show (t.renameMark old new).answer? n ns localName (renamedAttribute old new a.1, a.2) =
      t.answer? n ns localName a
  cases hdeclares : sameName a.1 (declarationOf old) with
  | false => exact hu.answer?_eq h ha hdeclares
  | true =>
    -- a declaration of the mark answers neither before nor after
    rw [hu.answer?_declaration_renamed h ha hdeclares, answer?_declaration h.old_ne_empty hdeclares]
    by_cases hstands : t.namespace? n "xmlns" = some ns
    · have hasked :
        ¬ (sameName old localName = true ∨ sameName new localName = true) := fun hasked =>
        hno ⟨hstands, ⟨a, ha, hdeclares⟩, hasked⟩
      rw [not_or, Bool.not_eq_true, Bool.not_eq_true] at hasked
      rw [hasked.1, hasked.2]
    · rw [beq_eq_false_iff_ne.mpr hstands, Bool.and_false, Bool.and_false]

/-- **Where nothing but a declaration of the mark answers, the renaming loses the answer.** -/
theorem namespacedAttribute?_lost {v : String} (hstands : t.namespace? n "xmlns" = some ns)
    (hdeclared : t.attribute? n (declarationOf old) = some v)
    (hothers : ∀ a ∈ t.attributes n, sameName a.1 (declarationOf old) = false →
      t.answer? n ns old a = none) :
    t.namespacedAttribute? n ns old = some v ∧
    (t.renameMark old new).namespacedAttribute? n ns old = none := by
  rw [namespacedAttribute?_eq_answer, namespacedAttribute?_eq_answer, attributes_renameMark,
    List.findSome?_map]
  constructor
  · rw [← hdeclared, attribute?, Attributes.find?_eq_findSome?]
    refine Attributes.findSome?_congr fun a ha => ?_
    cases hdeclares : sameName a.1 (declarationOf old) with
    | false => rw [hothers a ha hdeclares, if_neg Bool.false_ne_true]
    | true => simp [answer?_declaration h.old_ne_empty hdeclares, Text.sameName_refl, hstands]
  · refine List.findSome?_eq_none_iff.mpr fun a ha => ?_
    show (t.renameMark old new).answer? n ns old (renamedAttribute old new a.1, a.2) = none
    cases hdeclares : sameName a.1 (declarationOf old) with
    | false => exact (hu.answer?_eq h ha hdeclares).trans (hothers a ha hdeclares)
    | true =>
      rw [hu.answer?_declaration_renamed h ha hdeclares, Text.sameName_comm, hu.old_ne ha hdeclares]
      rfl

end Tree.Unused

end Markup
end LiveSpec
