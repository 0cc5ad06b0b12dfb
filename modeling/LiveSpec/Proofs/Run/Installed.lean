import LiveSpec.Proofs.Extension.Assembly
import LiveSpec.Proofs.Nesting.Outputs
import LiveSpec.Proofs.Resource.Links
import LiveSpec.Proofs.Run.Dressing
import LiveSpec.Proofs.Tree.Appended

/-!
# What a head shows

A document that has a head gets elements at the end of it and nowhere else: the style sheet of the
engine, if it is wanted, and one element for each entry, in their order
(`Engine.installHead_shows`). The entries are those of all that was registered for the run
(`ExtensionSet.holds_of`). A style sheet or a script that lies beside the documents was registered
with its text, once for the head and once for the files; so its link leads from any document to a
file with this text among those that a run returns (`Engine.installHead_installed`).
-/

namespace LiveSpec

open Markup (NodeId Tree TreeError Content Attributes)
open Markup.Tree

namespace Markup.Tree

variable {t s : Tree} {h : NodeId} {added : List NodeId}

/-- The element that has more children is the head yet. -/
theorem Appended.isHead (hs : Appended h t s added) (ht : t.Coherent) (hh : t.IsHead h) :
    s.IsHead h := by
  obtain ⟨r, hroot, hfound⟩ := hh
  have hchild := (mem_elementsOf.mp (List.mem_of_find?_eq_some hfound)).1
  have hr := mem_elementsOf.mp (mem_elementsOf_of_root hroot)
  have hrlt := lt_size_of_isElement hr.2
  have hsame : ∀ {p}, p < t.nodes.size → p ≠ h →
      s.elementsOf p = t.elementsOf p := fun {p} hp hne => by
    unfold elementsOf
    rw [hs.children_of_ne hp hne]
    exact List.filter_congr fun c hc => isElement_congr (hs.content (ht.child_lt hc))
  have hne : r ≠ h := fun he => ht.not_under_child (ht.depth_root hroot).standing hchild
    (he ▸ .self)
  have helement := (mem_elementsOf.mp (List.mem_of_find?_eq_some hfound)).2
  have hdocument : documentId ≠ h := fun he => ht.ne_document (he ▸ helement) rfl
  refine ⟨r, ?_, ?_⟩
  · rw [root_eq_ok, hsame ht.root_top.lt hdocument]
    exact root_eq_ok.mp hroot
  · rw [hsame hrlt hne, ← hfound]
    refine List.find?_congr fun c hc => ?_
    exact isNamed_congr (hs.content (ht.child_lt (mem_elementsOf.mp hc).1)) _

theorem IsHead.head_eq (ht : t.Coherent) (hh : t.IsHead h) : t.head = .ok (h, t) := by
  obtain ⟨r, hroot, hfound⟩ := hh
  have hlive := ht.isLive_of_standing (ht.depth_root hroot).standing
  have hfirst : t.firstChild? r "head" = .ok (some h) := by
    unfold firstChild?
    rw [childElements_of_isLive hlive, ← hfound]
    rfl
  unfold Tree.head
  rw [hroot]
  simp only [bind, Except.bind, hfirst, pure, Except.pure]

end Markup.Tree

/-! ## Entries -/

/-- The element that shows an entry in the head of a document. -/
def HeadEntry.content (document : Resource) : HeadEntry → Content
  | .linkedCss target => .element "link" [("rel", "stylesheet"), ("type", "text/css"),
    ("href", document.linkTo target)]
  | .embeddedCss _ => .element "style" [("type", "text/css")]
  | .linkedScript target => .element "script" [("type", "text/javascript"),
    ("src", document.linkTo target)]
  | .embeddedScript _ => .element "script" [("type", "text/javascript")]

/-- The text in the element that shows an entry. -/
def HeadEntry.texts : HeadEntry → List String
  | .embeddedCss text | .embeddedScript text => [text]
  | .linkedCss _ | .linkedScript _ => []

namespace Engine

variable {t s : Tree} {h n : NodeId} {document : Resource}

/-- An element shows an entry. -/
def Shows (document : Resource) (t : Tree) (entry : HeadEntry) (n : NodeId) : Prop :=
  t.Bears n (entry.content document) entry.texts

theorem headElement_shows (document : Resource) (t : Tree) (entry : HeadEntry) :
    (headElement document t entry).1 = t.nodes.size ∧
      Shows document (headElement document t entry).2 entry t.nodes.size := by
  have hlink : Text.asciiLower "link" = "link" := by cbv
  have hstyle : Text.asciiLower "style" = "style" := by cbv
  have hscript : Text.asciiLower "script" = "script" := by cbv
  cases entry with
  | linkedCss target =>
    have hmade := bears_newElement t "link"
    rw [hlink] at hmade
    exact ⟨rfl, ((hmade.setAttribute "rel" "stylesheet" rfl).setAttribute "type" "text/css"
      (by cbv)).setAttribute
      "href" _ (by cbv)⟩
  | embeddedCss text =>
    have hmade := bears_newElementWithText t "style" text
    rw [hstyle] at hmade
    exact ⟨rfl, hmade.setAttribute "type" "text/css" rfl⟩
  | linkedScript target =>
    have hmade := bears_newElement t "script"
    rw [hscript] at hmade
    exact ⟨rfl, (hmade.setAttribute "type" "text/javascript" rfl).setAttribute "src" _ (by cbv)⟩
  | embeddedScript text =>
    have hmade := bears_newElementWithText t "script" text
    rw [hscript] at hmade
    exact ⟨rfl, hmade.setAttribute "type" "text/javascript" rfl⟩

/-- **One entry** adds one element at the end of what it is put in. -/
theorem appendChild_headElement (ht : t.Coherent) (hh : t.Standing h) (document : Resource)
    (entry : HeadEntry) :
    ∃ s, (headElement document t entry).2.appendChild h (headElement document t entry).1 = .ok s ∧
      Appended h t s [t.nodes.size] ∧ Shows document s entry t.nodes.size := by
  have hmade := headElement_made ht document entry
  obtain ⟨hid, hshows⟩ := headElement_shows document t entry
  rw [hid] at hmade ⊢
  generalize (headElement document t entry).2 = u at hmade hshows
  have hhlt := ht.standing_lt hh
  have hhlt' := Nat.lt_of_lt_of_le hhlt hmade.beyond.size_le
  have hstanding := (hmade.beyond.standing_iff ht hhlt).mpr hh
  have hcoherent : (u.hang t.nodes.size h (· ++ [t.nodes.size])).Coherent :=
    hmade.beyond.coherent.hang hmade.loose hhlt' (List.perm_append_singleton ..)
  have hnode : ∀ {m}, m ≠ t.nodes.size → (u.hang t.nodes.size h (· ++ [t.nodes.size])).node m =
      { u.node m with children := (u.node m).children ++ if m = h then [t.nodes.size] else
        [] } := fun {m} hm => by
    have hlink : ¬ (t.nodes.size = m ∧ m < u.nodes.size) := fun he => hm he.1.symm
    rw [node_hang]
    by_cases hmh : m = h
    · subst hmh
      rw [if_pos ⟨rfl, hhlt'⟩, if_neg hlink, if_pos rfl]
    · rw [if_neg fun he => hmh he.1.symm, if_neg hlink, if_neg hmh, List.append_nil]
  refine ⟨_,
    appendChild_eq hmade.loose.toIsTop (hmade.beyond.coherent.isLive_of_standing hstanding), ?_, ?_⟩
  · refine ⟨hcoherent, by rw [size_hang]; exact hmade.beyond.size_le, fun {m} hm => ?_,
      fun c hc => ?_⟩
    · rw [hnode (Nat.ne_of_lt hm), hmade.beyond.node hm]
    · exact Nat.le_of_eq (List.mem_singleton.mp hc).symm
  · have hcontent : ∀ m, ((u.hang t.nodes.size h (· ++ [t.nodes.size])).node m).content =
      (u.node m).content :=
      fun m => by rw [node_hang]
    refine ⟨(hcontent _).trans hshows.content, ?_⟩
    rw [children_hang _ hhlt', if_neg (Nat.ne_of_lt hhlt)]
    simp only [hcontent]
    exact hshows.texts

theorem Shows.appended {entry : HeadEntry} {added : List NodeId} (hn : Shows document t entry n)
    (hs : Appended h t s added) (ht : t.Coherent) (hlt : n < t.nodes.size) (hne : n ≠ h) :
    Shows document s entry n :=
  Bears.appended hn hs ht hlt hne

/-- **Entries** add one element each, in their order. -/
theorem addEntries_shows (ht : t.Coherent) (hh : t.Standing h) (entries : List HeadEntry) :
    ∃ s added, addEntries document h t entries = .ok s ∧ Appended h t s added ∧
      List.Forall₂ (Shows document s) entries added := by
  induction entries generalizing t with
  | nil => exact ⟨t, [], rfl, .of_beyond ⟨ht, Nat.le_refl _, fun _ => rfl⟩, .nil⟩
  | cons entry entries ih =>
    obtain ⟨u, happend, hu, hshows⟩ := appendChild_headElement ht hh document entry
    obtain ⟨s, added, hadd, hs, hall⟩ := ih hu.coherent (hu.standing hh)
    refine ⟨s, t.nodes.size :: added, ?_, hu.trans hs, .cons ?_ hall⟩
    · unfold addEntries
      dsimp only
      rw [happend]
      exact hadd
    · -- the elements that follow leave this one as it is
      have hhlt := ht.standing_lt hh
      exact hshows.appended hs hu.coherent (hu.lt_size hhlt (List.mem_singleton_self _))
        (Nat.ne_of_gt hhlt)

/-- The style sheet of the engine is one more entry. -/
theorem embedCss_shows (ht : t.Coherent) (hh : t.IsHead h) (document : Resource) (css : String) :
    ∃ s, Painting.embedCss t css = .ok s ∧ Appended h t s [t.nodes.size] ∧
      Shows document s (.embeddedCss css) t.nodes.size := by
  obtain ⟨s, happend, hs, hshows⟩ :=
    appendChild_headElement ht (hh.standing ht) document (.embeddedCss css)
  have hbeyond := (headElement_made ht document (.embeddedCss css)).beyond
  have hhead := ((Appended.of_beyond hbeyond).isHead ht hh).head_eq hbeyond.coherent
  refine ⟨s, ?_, hs, hshows⟩
  have hembed :
      Painting.embedCss t css = ((headElement document t (.embeddedCss css)).2.head >>= fun found =>
    found.2.appendChild found.1 t.nodes.size) := embedCss_eq
  rw [(headElement_shows document t _).1] at happend
  rw [hembed, hhead]
  generalize (headElement document t (.embeddedCss css)).2 = u at happend
  exact happend

/-- What is put into the head of a document, the style sheet of the engine first. -/
def headEntries (embedCss : Bool) (entries : List HeadEntry) : List HeadEntry :=
  (if embedCss then [.embeddedCss Painting.defaultCss] else []) ++ entries

/-- **A head is completed at its end**, with one element for each entry. -/
theorem installHead_shows (ht : t.Coherent) (hh : t.IsHead h) (embedCss : Bool)
    (document : Resource) (entries : List HeadEntry) :
    ∃ s added, installHead embedCss document entries t = .ok s ∧ Appended h t s added ∧
      List.Forall₂ (Shows document s) (headEntries embedCss entries) added := by
  have hentries : ∀ {u : Tree}, u.Coherent → u.IsHead h → ∃ s added,
      (u.head >>= fun found => addEntries document found.1 found.2 entries) = .ok s ∧
      Appended h u s added ∧
        List.Forall₂ (Shows document s) entries added := fun {u} hu hh => by
    rw [hh.head_eq hu]
    exact addEntries_shows hu (hh.standing hu) entries
  cases embedCss with
  | false => exact hentries ht hh
  | true =>
    obtain ⟨u, hembed, hu, hshows⟩ := embedCss_shows ht hh document Painting.defaultCss
    obtain ⟨s, added, hadd, hs, hall⟩ := hentries hu.coherent (hu.isHead ht hh)
    refine ⟨s, t.nodes.size :: added, ?_, hu.trans hs, .cons ?_ hall⟩
    · unfold installHead
      rw [if_pos rfl, hembed]
      exact hadd
    · have hhlt := ht.standing_lt (hh.standing ht)
      exact hshows.appended hs hu.coherent (hu.lt_size hhlt (List.mem_singleton_self _))
        (Nat.ne_of_gt hhlt)

end Engine

/-! ## Registrations -/

namespace Registration

variable {kept rs : List Registration}

/-- Where nothing is refused, all leaves are in the ledger. -/
theorem settle_of_ok (h : (settle kept rs).1 = .ok ()) : (settle kept rs).2 = kept ++ rs := by
  induction rs generalizing kept with
  | nil => exact (List.append_nil _).symm
  | cons r rs ih =>
    unfold settle at h ⊢
    cases hr : r.objection? kept with
    | some e =>
      rw [hr] at h
      cases h
    | none =>
      rw [hr] at h
      exact (ih h).trans (List.append_assoc ..)

/-- What a registration writes into the head of documents as a link: the attribute, where it leads
to, and the text that goes with it. -/
def link? : Registration → Option (String × Resource × String)
  | .linkedCss target text => some ("href", target, text)
  | .linkedScript target text => some ("src", target, text)
  | _ => none

theorem asset?_of_link? {r : Registration} {name text : String} {target : Resource}
    (h : r.link? = some (name, target, text)) : r.asset? = some ⟨target, .ofText text⟩ := by
  cases r <;> cases h <;> rfl

end Registration

/-- All that is registered for a run with extensions, those inside others included. -/
def ExtensionSet.registered (extensions : List Extension) : List Registration :=
  Registration.leavesAll ((Extension.builtIn :: extensions).map Extension.toRegistration)

open ExtensionBuilder Registration in
/-- **The set of a run** holds all that was registered for it. -/
theorem ExtensionSet.holds_of {extensions : List Extension} {set : ExtensionSet}
    (h : ExtensionSet.of extensions = .ok set) : set.Holds (registered extensions) := by
  have hrun : ExtensionSet.of extensions = ((do
      addAll ((Extension.builtIn :: extensions).map Extension.toRegistration)
      build : Building ExtensionSet).run (assembled [])).1 := by
    show ((do add _; addAll _; build : Building ExtensionSet).run (assembled [])).1 = _
    rw [List.map_cons, addAll]
    simp only [run_bind]
    rcases (add Extension.builtIn.toRegistration).run (assembled []) with ⟨_ | _, _⟩ <;> rfl
  rw [hrun, run_bind, run_addAll_assembled] at h
  have hkept : (settle [] (registered extensions)).1 = .ok () →
      (settle [] (registered extensions)).2 = [] ++ registered extensions := settle_of_ok
  have hnodup : ((settle [] (registered extensions)).2.filterMap key?).Nodup :=
    nodup_settle List.nodup_nil
  unfold registered at hkept hnodup ⊢
  rcases hsettle :
    settle [] (leavesAll ((Extension.builtIn :: extensions).map Extension.toRegistration))
      with ⟨e | _, kept⟩
  · rw [hsettle] at h
    cases h
  · rw [hsettle] at h hkept hnodup
    obtain ⟨set', hbuild, hset'⟩ := build_assembled hnodup
    simp only [hbuild] at h
    cases h
    rwa [hkept rfl] at hset'

namespace Engine

open ExtensionSet (registered)

variable {φ : Type} [Fixture φ] {e : Engine φ} {fixture : φ} {set : ExtensionSet} {t : Tree}
  {h : NodeId}

/-- What a run puts out goes with the files of its extensions. -/
theorem processIn_assets
    (hset : ExtensionSet.of (e.extensions ++ Fixture.extensions fixture) = .ok set)
    {context : Context} {html : String} {resource : Resource} {w : World} {output : Output}
    (hrun : (e.processIn context fixture html resource w).1 = .ok output) :
    output.assets = set.assets := by
  rw [processIn_eq, processUsing_eq, hset] at hrun
  exact (pipeline_output (Run.yields_result hrun)).2

/-- Where an element shows a registration with a link, the link is in its attribute. -/
theorem Shows.link {document target : Resource} {s : Tree} {n : NodeId} {r : Registration}
    {entry : HeadEntry} {name text : String} (hshows : Shows document s entry n)
    (hentry : r.headItem? = some entry) (hlink : r.link? = some (name, target, text)) :
    s.attribute? n name = some (document.linkTo target) := by
  have hcontent := hshows.content
  unfold Tree.attribute? Tree.attributes
  rw [hcontent]
  cases r <;> cases hlink <;> cases hentry <;> cbv

/-- **What the head of a document shows.** Whatever extensions a run has, completing a document that
has a head adds elements at the end of the head and changes nothing else: the style sheet of the
engine, if it is wanted, and after it one element for each registration about heads, in their order.
Where a registration has a link to a resource without `#` and `?`, the link in its element leads
from the document to this resource, and all that such a run puts out has a file with the registered
text there. -/
theorem installHead_installed
    (hset : ExtensionSet.of (e.extensions ++ Fixture.extensions fixture) = .ok set)
    (ht : t.Coherent) (hh : t.IsHead h) (document : Resource) :
    ∃ s added, installHead e.config.embedDefaultCss document set.head t = .ok s ∧
      Appended h t s added ∧
      List.Forall₂ (Shows document s)
        (headEntries e.config.embedDefaultCss
          ((registered (e.extensions ++ Fixture.extensions fixture)).filterMap
            Registration.headItem?)) added ∧
      ∀ r ∈ registered (e.extensions ++ Fixture.extensions fixture), ∀ entry n name target text,
        r.headItem? = some entry → Shows document s entry n → r.link? = some (name, target, text) →
        target.Reachable →
          (∀ x ∈ target.segments, '#' ∉ x.toList ∧ '?' ∉ x.toList) →
          ∃ link, s.attribute? n name = some link ∧ document.resolve link = target ∧
            ∀ context html w output, (e.processIn context fixture html document w).1 = .ok output →
              (⟨target, .ofText text⟩ : Asset) ∈ output.assets := by
  have hholds := ExtensionSet.holds_of hset
  obtain ⟨s, added, hinstall, hs, hall⟩ :=
    installHead_shows ht hh e.config.embedDefaultCss document set.head
  rw [hholds.head] at hall
  refine ⟨s, added, hinstall, hs, hall,
    fun r hr entry n name target text hentry hshows hlink hreach hplain => ?_⟩
  refine ⟨document.linkTo target, hshows.link hentry hlink, ?_,
    fun context html w output hrun => ?_⟩
  · exact hreach.canonical.resolve_linkTo fun x hx => hplain x (List.mem_of_mem_drop hx)
  · rw [processIn_assets hset hrun, hholds.assets]
    exact List.mem_filterMap.mpr ⟨r, hr, Registration.asset?_of_link? hlink⟩

end Engine

namespace Sample

/-- A document with a title in its head. -/
def titled : Tree :=
  ⟨#[⟨.document, [1], .top, false⟩, ⟨.element "html" [], [2, 4], .below 0, false⟩,
    ⟨.element "head" [], [3], .below 1, false⟩, ⟨.element "title" [], [], .below 2, false⟩,
    ⟨.element "body" [], [], .below 1, false⟩]⟩

theorem titled_sound : titled.Sound := sound_of_agrees rfl (by decide) (by decide)

/-- A style sheet beside the documents, and scripts that another extension brings along. -/
def layout : Extension :=
  ⟨"layout", [.linkedCss (.ofPath "css/main.css") "p",
    .extension "scripts" [.embeddedScript "f()", .linkedScript (.ofPath "run.js") "g()"]]⟩

/-- An engine with the style sheet and the scripts. -/
def styled : Engine StockFixture := ⟨Config.standard, [layout], []⟩

/-- A fixture without members. -/
def bare : StockFixture := .bare "Sample"

end Sample

namespace Engine

theorem installHead_installed_layout : ∃ set s first second third last,
    ExtensionSet.of (Sample.styled.extensions ++ Fixture.extensions Sample.bare) = .ok set ∧
    installHead true (.ofPath "guide/start/index.html") set.head Sample.titled = .ok s ∧
    (s.node 2).children = [3, first, second, third, last] ∧
    (s.node last).content = .element "script" [("type", "text/javascript"),
      ("src", "../../run.js")] ∧
    ∃ link, s.attribute? second "href" = some link ∧
      (Resource.ofPath "guide/start/index.html").resolve link = .ofPath "css/main.css" := by
  have hok : (ExtensionSet.of (Sample.styled.extensions ++ Fixture.extensions Sample.bare)).map
      ExtensionSet.assets =
      .ok [⟨.ofPath "css/main.css", "p"⟩, ⟨.ofPath "run.js", "g()"⟩] := by decide +kernel
  cases hset : ExtensionSet.of (Sample.styled.extensions ++ Fixture.extensions Sample.bare) with
  | error e =>
    rw [hset] at hok
    cases hok
  | ok set =>
    have hhead : Sample.titled.IsHead 2 := ⟨1, rfl, by cbv⟩
    obtain ⟨s, added, hinstall, hs, hall, hlinks⟩ := installHead_installed (e := Sample.styled) hset
      Sample.titled_sound.toCoherent hhead (.ofPath "guide/start/index.html")
    have hitems :
        (ExtensionSet.registered (Sample.styled.extensions ++
          Fixture.extensions Sample.bare)).filterMap
        Registration.headItem? =
        [.linkedCss (.ofPath "css/main.css"), .embeddedScript "f()",
          .linkedScript (.ofPath "run.js")] := rfl
    rw [hitems] at hall
    obtain ⟨first, added, -, hrest, rfl⟩ := List.forall₂_cons_left_iff.mp hall
    obtain ⟨second, added, hsecond, hrest', rfl⟩ := List.forall₂_cons_left_iff.mp hrest
    obtain ⟨third, added, -, hrest'', rfl⟩ := List.forall₂_cons_left_iff.mp hrest'
    obtain ⟨last, added, hlast, hnil, rfl⟩ := List.forall₂_cons_left_iff.mp hrest''
    obtain rfl := List.forall₂_nil_left_iff.mp hnil
    have hmem : Registration.linkedCss (.ofPath "css/main.css") "p" ∈
        ExtensionSet.registered (Sample.styled.extensions ++ Fixture.extensions Sample.bare) :=
      List.mem_of_getElem? (i := 9) rfl
    obtain ⟨link, hlink, hresolve, -⟩ :=
      hlinks _ hmem _ second "href" _ "p" rfl hsecond rfl (.ofPath _) (by decide)
    exact ⟨set, s, first, second, third, last, rfl, hinstall, hs.children (by decide),
      hlast.content.trans (by cbv), link,
      hlink, hresolve⟩

end Engine
end LiveSpec
