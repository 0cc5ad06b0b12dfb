import LiveSpec.Proofs.Tree.Classes

/-!
# The list of classes through many additions

What an element lists as its classes after any number of additions: the words that were there, as
they were, and then each added word that was not among them, where it was added first
(`Attributes.classes_addClasses`). Whether a class is listed is answered from that list at every
point of the way.

The value of the attribute is written anew each time, but always at one place. The other attributes
keep their names, their values and their places (`Attributes.getElem?_addClasses`), and so does all
else in the tree.
-/

namespace LiveSpec.Markup

namespace Attributes

variable {as : Attributes} {w v : String} {ws : List String} {i : Nat}

/-- The place of the attribute `class`: that of the first attribute of the name, or the one after
the last attribute. -/
def classPlace (as : Attributes) : Nat := as.findIdx fun a => Text.sameName a.1 "class"

/-- The words of a list that an element does not have as classes, each where it comes first. -/
def newcomers (as : Attributes) (ws : List String) : List String :=
  (ws.filter fun w => !as.hasClass w).eraseDups

/-- Adds words to the attribute `class`, one after the other. -/
def addClasses (ws : List String) (as : Attributes) :
    Attributes := ws.foldl (fun as w => as.addClass w) as

theorem hasClass_iff : as.hasClass v = true ↔ v ∈ as.classes := List.contains_iff_mem

/-! ## The words -/

/-- A word that is a class already is no newcomer, and any other is the first one. -/
theorem newcomers_cons (hw : IsWord w) (as : Attributes) (ws : List String) :
    as.newcomers (w :: ws) =
      if as.hasClass w then (as.addClass w).newcomers ws else
        w :: (as.addClass w).newcomers ws := by
  unfold newcomers
  by_cases hold : as.hasClass w = true
  · rw [if_pos hold, List.filter_cons_of_neg (by simp [hold]), addClass_of_hasClass hold]
  · rw [if_neg hold, List.filter_cons_of_pos (by simpa using hold), List.eraseDups_cons,
      List.filter_filter]
    congr 3
    funext v
    rw [hasClass_addClass hw, Bool.not_or]
    exact Bool.and_comm ..

/-- **What the additions come to**: the old words, and then the newcomers. -/
theorem classes_addClasses (hws : ∀ w ∈ ws, IsWord w) (as : Attributes) :
    (as.addClasses ws).classes = as.classes ++ as.newcomers ws := by
  induction ws generalizing as with
  | nil => exact (List.append_nil _).symm
  | cons w ws ih =>
    have hw := hws w List.mem_cons_self
    have hrest := ih (fun v hv => hws v (List.mem_cons_of_mem w hv)) (as.addClass w)
    refine hrest.trans ?_
    rw [newcomers_cons hw, classes_addClass hw]
    split
    · rfl
    · exact List.append_assoc ..

/-! ## The other attributes -/

/-- A write goes to one place and keeps the name that is there. -/
theorem getElem?_put (name value : String) (as : Attributes) :
    (as.put name value)[i]? =
      if i = as.findIdx fun a => Text.sameName a.1 name then
        some ((as[i]?.map Prod.fst).getD name, value)
      else as[i]? := by
  induction as generalizing i with
  | nil => cases i <;> simp [put]
  | cons a as ih =>
    obtain ⟨n, old⟩ := a
    unfold put
    by_cases hn : Text.sameName n name = true
    · cases i <;> simp [List.findIdx_cons, hn]
    · cases i with
      | zero => simp [List.findIdx_cons, hn]
      | succ i => simp [List.findIdx_cons, hn, ih]

/-- After a write the attribute is where it was, or where a new one was due. -/
theorem findIdx_put (name value : String) (as : Attributes) :
    ((as.put name value).findIdx fun a => Text.sameName a.1 name) = as.findIdx fun a =>
      Text.sameName a.1 name := by
  have hsame : Text.sameName name name = true := by simp [Text.sameName]
  induction as with
  | nil => simp [put, List.findIdx_cons, hsame]
  | cons a as ih =>
    obtain ⟨n, old⟩ := a
    unfold put
    by_cases hn : Text.sameName n name = true
    · simp [List.findIdx_cons, hn]
    · simp [List.findIdx_cons, hn, ih]

/-- Attributes that differ in the value of `class` at most, or in having that attribute at the end.
-/
structure SameButClass (as as' : Attributes) : Prop where
  place : as'.classPlace = as.classPlace
  others : ∀ i, i ≠ as.classPlace → as'[i]? = as[i]?
  /-- The attribute keeps the spelling of its name. -/
  spelling : ∀ name value, as[as.classPlace]? = some (name, value) →
    ∃ value', as'[as.classPlace]? = some (name, value')

namespace SameButClass

theorem refl (as : Attributes) : SameButClass as as :=
  ⟨rfl, fun _ _ => rfl, fun _ value h => ⟨value, h⟩⟩

theorem trans {as as' as'' : Attributes} (h : SameButClass as as') (h' : SameButClass as' as'') :
    SameButClass as as'' where
  place := h'.place.trans h.place
  others i hi := (h'.others i (h.place.symm ▸ hi)).trans (h.others i hi)
  spelling name value hold := by
    obtain ⟨value', hnext⟩ := h.spelling name value hold
    rw [← h.place] at hnext ⊢
    exact h'.spelling name value' hnext

theorem put (value : String) (as : Attributes) : SameButClass as (as.put "class" value) where
  place := findIdx_put ..
  others _ hi := (getElem?_put ..).trans (if_neg hi)
  spelling name old hold := by
    have hput : (as.put "class" value)[as.classPlace]? = some
        ((as[as.classPlace]?.map Prod.fst).getD "class", value) :=
      (getElem?_put ..).trans (if_pos rfl)
    exact ⟨value, hput.trans (by rw [hold]; rfl)⟩

theorem addClass (w : String) (as : Attributes) : SameButClass as (as.addClass w) := by
  unfold Attributes.addClass
  split
  · exact refl as
  · exact put _ as

/-- **No addition touches another attribute.** -/
theorem addClasses (ws : List String) (as : Attributes) : SameButClass as (as.addClasses ws) := by
  induction ws generalizing as with
  | nil => exact refl as
  | cons w ws ih => exact (addClass w as).trans (ih (as.addClass w))

end SameButClass

end Attributes

namespace Tree

variable {t : Tree} {n m : NodeId} {ws : List String}

/-- Adds words to the classes of an element, one after the other. -/
def addClasses (t : Tree) (n : NodeId) (ws : List String) :
    Tree := ws.foldl (fun t w => t.addClass n w) t

/-- The additions change the attributes of the one node. -/
theorem node_addClasses (t : Tree) (n : NodeId) (ws : List String) (m : NodeId) :
    (t.addClasses n ws).node m =
      if n = m then
        { t.node m with content := (t.node m).content.mapAttributes (Attributes.addClasses ws) }
      else t.node m := by
  induction ws generalizing t with
  | nil =>
    have hsame : ∀ c : Content, c.mapAttributes (Attributes.addClasses []) = c := fun c => by
      cases c <;> rfl
    rw [hsame]
    split <;> rfl
  | cons w ws ih =>
    refine (ih (t.addClass n w)).trans ?_
    rw [Tree.addClass, node_modifyAttributes]
    split
    · cases (t.node m).content <;> rfl
    · rfl

theorem attributes_addClasses (hn : t.isElement n = true) (ws : List String) :
    (t.addClasses n ws).attributes n = (t.attributes n).addClasses ws := by
  unfold isElement at hn
  unfold attributes
  rw [node_addClasses, if_pos rfl]
  split at hn
  · next hc => rw [hc]; rfl
  · cases hn

/-- What the classes of an element are once words were added to them, and what else has not changed.
-/
structure ClassesAdded (t : Tree) (n : NodeId) (ws : List String) (t' : Tree) : Prop where
  classes : (t'.attributes n).classes = (t.attributes n).classes ++ (t.attributes n).newcomers ws
  hasClass (v : String) : t'.hasClass n v = true ↔
    v ∈ (t.attributes n).classes ++ (t.attributes n).newcomers ws
  attributes : (t.attributes n).SameButClass (t'.attributes n)
  here : t'.node n = { t.node n with content := .element (t.name n) (t'.attributes n) }
  elsewhere (m : NodeId) : m ≠ n → t'.node m = t.node m

theorem classesAdded (hn : t.isElement n = true) (hws : ∀ w ∈ ws, IsWord w) :
    t.ClassesAdded n ws (t.addClasses n ws) := by
  have hattributes := attributes_addClasses hn ws
  have hclasses : ((t.addClasses n ws).attributes n).classes = _ :=
    (congrArg Attributes.classes hattributes).trans (Attributes.classes_addClasses hws _)
  refine ⟨hclasses, fun v => Attributes.hasClass_iff.trans (by rw [hclasses]), ?_, ?_,
    fun m hm => ?_⟩
  · exact hattributes ▸ .addClasses ws _
  · rw [hattributes, node_addClasses, if_pos rfl]
    unfold isElement at hn
    unfold name attributes
    split at hn
    · next hc => rw [hc]; rfl
    · cases hn
  · rw [node_addClasses, if_neg (Ne.symm hm)]

/-- **The law of the class list.** Words are added to the classes of an element one after the other.
At every point of the way its classes are those that it had, with their repetitions and in their
order, and behind them the words added by then that were not among them, each where it was added
first; a class is listed exactly if it is in that list; and no other attribute has changed its name,
its value or its place. -/
theorem class_list_law (hn : t.isElement n = true) (hws : ∀ w ∈ ws, IsWord w) :
    ∀ added, added <+: ws → t.ClassesAdded n added (t.addClasses n added) := fun _ hadded =>
  classesAdded hn fun w hw => hws w (hadded.subset hw)

/-- An element with an attribute before and one after its classes, which are spelled with odd blanks
and name one twice. -/
def Sample.classed : Tree :=
  (empty.add (.element "p" [("id", "x"), ("CLASS", "\u2003b a\u3000b\n"), ("title", "y")])).2

open LiveSpec.Markup.Tree.Sample in
/-- Of five words that are added, two are new. -/
theorem class_list_law_classed :
    classed.isElement 1 = true ∧ (∀ w ∈ ["c", "a", "success", "c", "b"], IsWord w) ∧
    ((classed.addClasses 1 ["c", "a", "success", "c", "b"]).attributes 1).classes = ["b", "a", "b",
      "c", "success"] ∧
    (classed.addClasses 1 ["c", "a"]).hasClass 1 "success" = false ∧
    ((classed.addClasses 1 ["c", "a", "success", "c", "b"]).attributes 1)[2]? = some
      ("title", "y") := by
  have hn : classed.isElement 1 = true := rfl
  have hwords : ["c", "a", "success", "c", "b"].all
      (fun w => !w.toList.isEmpty && w.toList.all fun c => !Text.isBlank c) =
      true := by cbv
  have hws : ∀ w ∈ ["c", "a", "success", "c", "b"], IsWord w :=
    fun w hw => isWord_of (List.all_eq_true.mp hwords w hw)
  have hlaw := class_list_law hn hws
  have hall := hlaw _ (List.prefix_refl _)
  have hpart := hlaw ["c", "a"] ⟨["success", "c", "b"], rfl⟩
  have hold : (classed.attributes 1).classes = ["b", "a", "b"] := by cbv
  have hlisted : ∀ w, (classed.attributes 1).hasClass w = (["b", "a", "b"].contains w) := fun w =>
    congrArg (fun ws => ws.contains w) hold
  have hfive : (classed.attributes 1).newcomers ["c", "a", "success", "c", "b"] = ["c",
      "success"] := by
    simp [Attributes.newcomers, hlisted, List.eraseDups_cons]
  have htwo : (classed.attributes 1).newcomers ["c", "a"] = ["c"] := by
    simp [Attributes.newcomers, hlisted, List.eraseDups_cons]
  refine ⟨hn, hws, hall.classes.trans (by rw [hold, hfive]; rfl), ?_,
    (hall.attributes.others 2 (by cbv)).trans (by cbv)⟩
  refine Bool.eq_false_iff.mpr fun hsuccess => absurd ((hpart.hasClass _).mp hsuccess) ?_
  rw [hold, htwo]
  decide

end Tree
end LiveSpec.Markup
