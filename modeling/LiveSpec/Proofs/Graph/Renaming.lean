import LiveSpec.Proofs.Graph.Structure
import LiveSpec.Proofs.Tree.Marks

/-!
# A graph does not depend on the choice of marks

With an unused mark in the place of another, each name of the document resolves to what it resolved
to (`resolve_renamedName`, `resolve_renamedAttribute`), so each element carries the same command
with the same expression, or is refused for the same reason (`commandOf_renameMark`). The passage
over the document therefore comes to the same calls, or it stops at the same element:
`graph_of_renamed`. Only the description of an element that carries several commands, which repeats
its names, is another one.
-/

namespace LiveSpec

open Markup
open Text (sameName)

namespace CallGraph

variable {t : Tree} {r : Registry} {n root x : NodeId} {ns : List NodeId} {next after : Nat}
  {calls : List Call} {old new name mark rest : String} {e e' : Error}

/-! ## One element -/

/-- A declaration is not looked at. -/
theorem resolve_declaration (hmark : mark ≠ "") (h : sameName name (declarationOf mark) = true) :
    resolve t r n name = .ok none := by
  obtain ⟨m, rest, hsplit, hx, -⟩ := (sameName_declarationOf_iff hmark).mp h
  unfold resolve
  rw [hsplit]
  dsimp only
  rw [if_pos hx]

section

variable (hu : t.Unused new) (h : Exchange old new)
include hu h

/-- Two names resolve to the same if they differ by the exchange of their marks only. -/
theorem resolve_exchanged {name' : String} (hsplit : splitName name = (some mark, rest))
    (hsplit' : splitName name' = (some (renamedMark old new mark), rest))
    (hne : sameName mark new = false) :
    resolve (t.renameMark old new) r n name' = resolve t r n name := by
  have hordinary : sameName (renamedMark old new mark) "xmlns" = sameName mark "xmlns" := by
    unfold renamedMark
    split
    · next hold => rw [Text.sameName_congr_left hold, h.old_ordinary, h.new_ordinary]
    · rfl
  have hns := hu.namespace?_eq h (n := n) (splitName_eq_some.mp hsplit).1.ne_empty hne
  unfold resolve
  rw [hsplit, hsplit']
  dsimp only
  rw [hordinary, hns]

theorem resolve_renamedName :
    resolve (t.renameMark old new) r n (renamedName old new (t.name n)) = resolve t r n
      (t.name n) := by
  rcases hsplit : splitName (t.name n) with ⟨_ | m, rest⟩
  · have hnone := congrArg Prod.fst hsplit
    rw [renamedName_unmarked hnone]
    unfold resolve
    rw [hsplit]
  · exact resolve_exchanged hu h hsplit (h.splitName_renamedName hsplit) (hu.names hsplit)

theorem resolve_renamedAttribute {a : String × String} (ha : a ∈ t.attributes n) :
    resolve (t.renameMark old new) r n (renamedAttribute old new a.1) = resolve t r n a.1 := by
  cases hdeclares : sameName a.1 (declarationOf old) with
  | true =>
    have hdeclares' := hu.declares_new h ha hdeclares
    rw [resolve_declaration h.old_ne_empty hdeclares,
      resolve_declaration h.isMark.ne_empty hdeclares']
  | false =>
    rcases hsplit : splitName a.1 with ⟨_ | m, rest⟩
    · rw [renamedAttribute_unmarked (congrArg Prod.fst hsplit)]
      unfold resolve
      rw [hsplit]
    · exact resolve_exchanged hu h hsplit (h.splitName_renamedAttribute hsplit hdeclares)
        (hu.attributes ha hsplit)

theorem ofAttributes_renameMark {as : Attributes} (has : ∀ a ∈ as, a ∈ t.attributes n) :
    ofAttributes (t.renameMark old new) r n (as.map fun a => (renamedAttribute old new a.1, a.2)) =
      ofAttributes t r n as := by
  induction as with
  | nil => rfl
  | cons a as ih =>
    rw [List.map_cons, ofAttributes, ofAttributes,
      resolve_renamedAttribute hu h (has a List.mem_cons_self),
      ih fun b hb => has b (List.mem_cons_of_mem a hb)]

theorem ofName_renameMark : ofName (t.renameMark old new) r n = ofName t r n := by
  unfold ofName
  rw [Tree.name_renameMark, resolve_renamedName hu h, Tree.attribute?_renameMark h (by cbv),
    Tree.text_renameMark]

end

/-- Two errors are the same, or they say of an element that it carries the same commands, and each
describes the element as it is written in its own document. -/
inductive SameFault (t t' : Tree) (n : NodeId) : Error → Error → Prop
  | same {e : Error} : SameFault t t' n e e
  | several {names : String} : SameFault t t' n
    (.config ("element " ++ t.describe n ++ " carries more than one command: " ++ names))
    (.config ("element " ++ t'.describe n ++ " carries more than one command: " ++ names))

/-- **An element carries the same command**, or none, or is refused for the same reason. -/
theorem commandOf_renameMark (hu : t.Unused new) (h : Exchange old new) (r : Registry)
    (n : NodeId) :
    (∃ f?, commandOf t r n = .ok f? ∧ commandOf (t.renameMark old new) r n = .ok f?) ∨
    ∃ e e', commandOf t r n = .error e ∧ commandOf (t.renameMark old new) r n = .error e' ∧
      SameFault t (t.renameMark old new) n e e' := by
  unfold commandOf
  rw [ofName_renameMark hu h, Tree.attributes_renameMark,
    ofAttributes_renameMark hu h fun a ha => ha]
  cases ofName t r n with
  | error e => exact .inr ⟨e, e, rfl, rfl, .same⟩
  | ok own =>
    cases ofAttributes t r n (t.attributes n) with
    | error e => exact .inr ⟨e, e, rfl, rfl, .same⟩
    | ok others =>
      simp only [bind, Except.bind]
      match own ++ others with
      | [] => exact .inl ⟨none, rfl, rfl⟩
      | [f] => exact .inl ⟨some f, rfl, rfl⟩
      | f :: g :: fs => exact .inr ⟨_, _, rfl, rfl, .several⟩

theorem commandOf_renameMark_eq_ok (hu : t.Unused new) (h : Exchange old new) {f? : Option Found} :
    commandOf (t.renameMark old new) r n = .ok f? ↔ commandOf t r n = .ok f? := by
  rcases commandOf_renameMark hu h r n with ⟨f?', hok, hok'⟩ | ⟨e, e', herr, herr', -⟩
  · rw [hok, hok']
  · rw [herr, herr']
    simp

/-! ## The passage -/

/-- A passage goes through as before if it finds the same at each element. -/
theorem Built.of_commandOf {s : Tree} (helements : ∀ n, s.elementsOf n = t.elementsOf n)
    (hcommand : ∀ {n f?}, commandOf t r n = .ok f? → commandOf s r n = .ok f?)
    (h : Built t r ns next calls after) :
    Built s r ns next calls after := by
  induction h with
  | nil => exact .nil
  | plain hn _ _ ihbelow ihrest => exact .plain (hcommand hn) (helements _ ▸ ihbelow) ihrest
  | call hn _ _ ihbelow ihrest => exact .call (hcommand hn) (helements _ ▸ ihbelow) ihrest

/-- A passage that goes through comes to one list of calls. -/
theorem Built.unique {calls' : List Call} {after' : Nat} (h : Built t r ns next calls after)
    (h' : Built t r ns next calls' after') : calls = calls' ∧ after = after' := by
  induction h generalizing calls' after' with
  | nil =>
    cases h'
    exact ⟨rfl, rfl⟩
  | plain hn _ _ ihbelow ihrest =>
    cases h' with
    | plain _ hbelow' hrest' =>
      obtain ⟨rfl, rfl⟩ := ihbelow hbelow'
      obtain ⟨rfl, rfl⟩ := ihrest hrest'
      exact ⟨rfl, rfl⟩
    | call hn' _ _ => cases hn.symm.trans hn'
  | call hn _ _ ihbelow ihrest =>
    cases h' with
    | plain hn' _ _ => cases hn.symm.trans hn'
    | call hn' hbelow' hrest' =>
      cases hn.symm.trans hn'
      obtain ⟨rfl, rfl⟩ := ihbelow hbelow'
      obtain ⟨rfl, rfl⟩ := ihrest hrest'
      exact ⟨rfl, rfl⟩

/-- The passage over a document stops at an element: the search for its command fails, and it does
at no reached element before it. -/
structure StopsAt (t : Tree) (r : Registry) (root x : NodeId) (e : Error) : Prop where
  reached : t.Reaches root x
  fails : commandOf t r x = .error e
  first {y : NodeId} : t.Reaches root y → t.Precedes y x → ∃ f?, commandOf t r y = .ok f?

/-- A graph that is not built is one whose passage stops somewhere. -/
theorem stopsAt_of_ofTree (ht : t.Coherent) (hroot : t.root = .ok root)
    (h : ofTree t r = .error e) :
    ∃ x, StopsAt t r root x e := by
  rcases ofTree_cases (r := r) ht hroot with ⟨g, after, hok, -⟩ | ⟨e', herr, hfails⟩
  · cases hok.symm.trans h
  · cases herr.symm.trans h
    obtain ⟨x, hx, hfails, hfirst⟩ := hfails.first ht (.single (ht.depth_root hroot).standing)
    simp only [List.mem_singleton, exists_eq_left] at hx hfirst
    exact ⟨x, hx, hfails, fun {y} => hfirst y⟩

/-- With another mark the passage stops at the same element. -/
theorem StopsAt.unique_renameMark {x' : NodeId} (hx : StopsAt t r root x e) (hu : t.Unused new)
    (h : Exchange old new) (hx' : StopsAt (t.renameMark old new) r root x' e') : x = x' := by
  have hreached := Tree.reaches_renameMark.mp hx'.reached
  rcases Tree.precedes_total hx.reached.under hreached.under with heq | hbefore | hafter
  · exact heq
  · obtain ⟨f?, hok⟩ :=
      hx'.first (Tree.reaches_renameMark.mpr hx.reached) (Tree.precedes_renameMark.mpr hbefore)
    cases ((commandOf_renameMark_eq_ok hu h).mp hok).symm.trans hx.fails
  · obtain ⟨f?, hok⟩ := hx.first hreached hafter
    cases ((commandOf_renameMark_eq_ok hu h).mpr hok).symm.trans hx'.fails

/-- A graph is built exactly if the passage goes through. -/
theorem ofTree_eq_ok_iff (ht : t.Coherent) (hroot : t.root = .ok root) {g : CallGraph} :
    ofTree t r = .ok g ↔ ∃ after, Built t r [root] 0 g.roots after := by
  constructor
  · intro h
    rcases ofTree_cases (r := r) ht hroot with ⟨g', after, hok, hbuilt⟩ | ⟨e, herr, -⟩
    · cases hok.symm.trans h
      exact ⟨after, hbuilt⟩
    · cases herr.symm.trans h
  · rintro ⟨after, hbuilt⟩
    cases hgraph : ofTree t r with
    | ok g' =>
      rcases ofTree_cases (r := r) ht hroot with ⟨g'', after', hok, hbuilt'⟩ | ⟨e, herr, -⟩
      · cases hok.symm.trans hgraph
        obtain ⟨heq, -⟩ := hbuilt.unique hbuilt'
        cases g
        cases g'
        cases heq
        rfl
      · cases herr.symm.trans hgraph
    | error e =>
      obtain ⟨x, hstops⟩ := stopsAt_of_ofTree ht hroot hgraph
      obtain ⟨f?, hf⟩ := hbuilt.found List.mem_cons_self hstops.reached
      cases hf.symm.trans hstops.fails

/-- With another mark the same graph is built. -/
theorem ofTree_renameMark_eq_ok (ht : t.Coherent) (hu : t.Unused new) (h : Exchange old new)
    {g : CallGraph} :
    ofTree (t.renameMark old new) r = .ok g ↔ ofTree t r = .ok g := by
  cases hroot : t.root with
  | error c =>
    unfold ofTree
    rw [Tree.root_renameMark, hroot]
    simp [Except.mapError, bind, Except.bind]
  | ok root =>
    rw [ofTree_eq_ok_iff (ht.renameMark old new) (Tree.root_renameMark.trans hroot),
      ofTree_eq_ok_iff ht hroot]
    refine exists_congr fun after => ⟨fun hbuilt => ?_, fun hbuilt => ?_⟩
    · exact hbuilt.of_commandOf (fun n => (Tree.elementsOf_renameMark n).symm)
        (commandOf_renameMark_eq_ok hu h).mp
    · exact hbuilt.of_commandOf Tree.elementsOf_renameMark (commandOf_renameMark_eq_ok hu h).mpr

/-- **The choice of marks is immaterial.** With an unused mark in the place of another, the same
graph is built of the document, with the same calls on the same elements. If none is built, the
passage stops at the same element for the same reason. An attribute is found by its namespace and
its local name as before, unless a declaration of the mark is taken for it. Where it is, and nothing
else answers, the renaming loses the answer. -/
theorem graph_of_renamed (ht : t.Coherent) (hu : t.Unused new) (h : Exchange old new)
    (r : Registry) :
    (∀ g, ofTree (t.renameMark old new) r = .ok g ↔ ofTree t r = .ok g) ∧
    (∀ e, ofTree t r = .error e → ∃ e', ofTree (t.renameMark old new) r = .error e' ∧
      ((∃ c, t.root = .error c ∧ e' = e) ∨
        ∃ root x, t.root = .ok root ∧ StopsAt t r root x e ∧
          StopsAt (t.renameMark old new) r root x e' ∧
          SameFault t (t.renameMark old new) x e e')) ∧
    (∀ n ns localName, ¬ t.Mistakes old new n ns localName →
      (t.renameMark old new).namespacedAttribute? n ns localName =
      t.namespacedAttribute? n ns localName) ∧
    ∀ n ns v, t.namespace? n "xmlns" = some ns → t.attribute? n (declarationOf old) = some v →
      (∀ a ∈ t.attributes n, sameName a.1 (declarationOf old) = false →
        t.answer? n ns old a = none) →
      t.namespacedAttribute? n ns old = some v ∧
      (t.renameMark old new).namespacedAttribute? n ns old = none := by
  have ht' := ht.renameMark old new
  have hgraph := fun g => ofTree_renameMark_eq_ok ht hu h (r := r) (g := g)
  refine ⟨hgraph, fun e he => ?_, fun n ns localName hno => hu.namespacedAttribute?_eq h hno,
    fun n ns v hstands hdeclared hothers =>
      hu.namespacedAttribute?_lost h hstands hdeclared hothers⟩
  cases hroot : t.root with
  | error c =>
    refine ⟨e, ?_, .inl ⟨c, rfl, rfl⟩⟩
    unfold ofTree at he ⊢
    rw [hroot] at he
    rw [Tree.root_renameMark, hroot]
    exact he
  | ok root =>
    cases hgraph' : ofTree (t.renameMark old new) r with
    | ok g => cases he.symm.trans ((hgraph g).mp hgraph')
    | error e' =>
      obtain ⟨x, hx⟩ := stopsAt_of_ofTree ht hroot he
      obtain ⟨x', hx'⟩ := stopsAt_of_ofTree ht' (Tree.root_renameMark.trans hroot) hgraph'
      obtain rfl := hx.unique_renameMark hu h hx'
      refine ⟨e', rfl, .inr ⟨root, x, rfl, hx, hx', ?_⟩⟩
      rcases commandOf_renameMark hu h r x with ⟨f?, hok, -⟩ | ⟨f, f', herr, herr', hfault⟩
      · cases hok.symm.trans hx.fails
      · cases herr.symm.trans hx.fails
        cases herr'.symm.trans hx'.fails
        exact hfault

end CallGraph

namespace Sample

/-- A document that declares the mark of declarations itself, and another mark. -/
def declaring : Tree := ⟨#[⟨.document, [1], .top, false⟩,
  ⟨.element "html" [("xmlns:xmlns", "urn:x"), ("xmlns:p", "urn:p")], [], .below 0, false⟩]⟩

theorem declaring_sound : declaring.Sound := Tree.sound_of_agrees rfl ⟨by decide, rfl⟩ (by decide)

end Sample

namespace CallGraph

/-- The marked document keeps its calls and the misspelled one is refused at the same element. In
the one that declares the mark of declarations, the declaration of the renamed mark no longer
answers. -/
theorem graph_of_renamed_samples :
    (Sample.marked.Coherent ∧ Sample.marked.Unused "d" ∧ Exchange "c" "d" ∧
      ofTree (Sample.marked.renameMark "c" "d") Sample.registry = .ok Sample.markedGraph ∧
      (Sample.marked.renameMark "c" "d").namespacedAttribute? 2 "urn:t" "execute" =
        Sample.marked.namespacedAttribute? 2 "urn:t" "execute") ∧
    (∃ e root x, StopsAt Sample.misspelled Sample.registry root x
      (.unknownCommand "urn:t" "exekute") ∧
      StopsAt (Sample.misspelled.renameMark "c" "d") Sample.registry root x e) ∧
    (Sample.declaring.renameMark "p" "q").namespacedAttribute? 1 "urn:x" "p" = none := by
  have hcd : Exchange "c" "d" := ⟨by decide, ⟨by decide, by decide⟩, by cbv, by cbv⟩
  have hpq : Exchange "p" "q" := ⟨by decide, ⟨by decide, by decide⟩, by cbv, by cbv⟩
  have hmarked : Sample.marked.Unused "d" := Tree.unused_of_lacksMark (by cbv)
  have hmisspelled : Sample.misspelled.Unused "d" := Tree.unused_of_lacksMark (by cbv)
  have hdeclaring : Sample.declaring.Unused "q" := Tree.unused_of_lacksMark (by cbv)
  obtain ⟨hgraph, -, hattribute, -⟩ :=
    graph_of_renamed Sample.marked_sound.toCoherent hmarked hcd Sample.registry
  obtain ⟨-, hrefused, -, -⟩ :=
    graph_of_renamed Sample.misspelled_sound.toCoherent hmisspelled hcd Sample.registry
  obtain ⟨-, -, -, hlost⟩ :=
    graph_of_renamed Sample.declaring_sound.toCoherent hdeclaring hpq Sample.registry
  refine ⟨⟨Sample.marked_sound.toCoherent, hmarked, hcd, (hgraph _).mpr (by cbv),
    hattribute 2 _ _ fun hno => ?_⟩, ?_,
    (hlost 1 "urn:x" "urn:p" (by cbv) (by cbv) fun a ha hother => ?_).2⟩
  · have hnone : Sample.marked.namespace? 2 "xmlns" = none := by cbv
    cases hnone.symm.trans hno.stands
  · obtain ⟨e, -, ⟨c, hroot, -⟩ | ⟨root, x, -, hstops, hstops', -⟩⟩ :=
      hrefused (.unknownCommand "urn:t" "exekute") (by cbv)
    · cases hroot
    · exact ⟨e, root, x, hstops, hstops'⟩
  · have hattributes :
      Sample.declaring.attributes 1 = [("xmlns:xmlns", "urn:x"), ("xmlns:p", "urn:p")] := rfl
    rw [hattributes] at ha
    simp only [List.mem_cons, List.not_mem_nil, or_false] at ha
    rcases ha with rfl | rfl
    · cbv
    · have hdeclares : sameName "xmlns:p" (declarationOf "p") = true := by cbv
      cases hother.symm.trans hdeclares

/-- Renaming a mark loses the answer of its declaration, where the mark of declarations is declared.
-/
theorem renamed_declaration_lost : Sample.declaring.Coherent ∧ Sample.declaring.Unused "q" ∧
    Exchange "p" "q" ∧
    Sample.declaring.namespacedAttribute? 1 "urn:x" "p" = some "urn:p" ∧
    (Sample.declaring.renameMark "p" "q").namespacedAttribute? 1 "urn:x" "p" = none :=
  ⟨Sample.declaring_sound.toCoherent, Tree.unused_of_lacksMark (by cbv),
    ⟨by decide, ⟨by decide, by decide⟩, by cbv, by cbv⟩, by cbv, by cbv⟩

end CallGraph
end LiveSpec
