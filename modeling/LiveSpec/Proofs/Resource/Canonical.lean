import LiveSpec.Resource
import Mathlib

/-!
# Resources are canonical

Whatever text a resource is read from, no step of it is left to be resolved: each segment is the
name of something (`Resource.Proper`). This holds of every resource there can be
(`Resource.Reachable.canonical`), since walking a path keeps it, one step after the other. So the
path of a resource leads back to it (`Resource.ofPath_path`), and a link is followed as if it were
written behind the path of the directory (`Resource.resolve_eq_ofPath`).
-/

namespace LiveSpec

/-! ## Steps of a path -/

namespace Text

variable {p : Char → Bool} {cs w : List Char}

/-- The pieces are those that the library splits a list into. -/
theorem cuts_eq_splitOnP : cuts p cs = cs.splitOnP p := by
  induction cs with
  | nil => rfl
  | cons c cs ih =>
    rw [cuts, List.splitOnP_cons_eq_if_modifyHead, ih]
    split
    · rfl
    · cases h : cs.splitOnP p with
      | nil => exact absurd h (List.splitOnP_ne_nil p cs)
      | cons w ws => rfl

/-- No piece contains a character that was cut at. -/
theorem eq_false_of_mem_cuts (hw : w ∈ cuts p cs) {c : Char} (hc : c ∈ w) : p c = false := by
  induction cs generalizing w with
  | nil =>
    obtain rfl := List.mem_singleton.mp hw
    cases hc
  | cons d cs ih =>
    rw [cuts] at hw
    split at hw
    · rcases List.mem_cons.mp hw with rfl | hw
      · cases hc
      · exact ih hw hc
    · next hd =>
      cases h : cuts p cs with
      | nil =>
        rw [h] at hw
        obtain rfl := List.mem_singleton.mp hw
        exact List.mem_singleton.mp hc ▸ Bool.eq_false_of_not_eq_true hd
      | cons v vs =>
        rw [h] at hw
        rcases List.mem_cons.mp hw with rfl | hw
        · rcases List.mem_cons.mp hc with rfl | hc
          · exact Bool.eq_false_of_not_eq_true hd
          · exact ih (h ▸ List.mem_cons_self) hc
        · exact ih (h ▸ List.mem_cons_of_mem v hw) hc

end Text

namespace Resource

variable {r target : Resource} {at_ start ss : List String} {s path link : String}

theorem steps_eq (path : String) :
    steps path = (path.toList.splitOnP (· == '/')).map String.ofList :=
  congrArg (List.map String.ofList) Text.cuts_eq_splitOnP

/-- A slash ends a step. -/
theorem steps_slash (a b : String) : steps (a ++ "/" ++ b) = steps a ++ steps b := by
  have hsplit : (a ++ "/" ++ b).toList = a.toList ++ '/' :: b.toList := by simp
  rw [steps_eq, steps_eq, steps_eq, hsplit, List.splitOnP_append_cons _ _ (by decide),
    List.map_append]

/-- The steps of joined texts without slashes are these texts. -/
theorem steps_intercalate (hss : ∀ s ∈ ss, '/' ∉ s.toList) (hne : ss ≠ []) :
    steps ("/".intercalate ss) = ss := by
  have hpieces : ∀ cs ∈ ss.map String.toList, '/' ∉ cs := by
    intro cs hcs
    obtain ⟨s, hs, rfl⟩ := List.mem_map.mp hcs
    exact hss s hs
  rw [steps_eq, String.toList_intercalate, ← List.splitOn_eq_splitOnP]
  show List.map String.ofList (List.splitOn '/' (['/'].intercalate (ss.map String.toList))) = ss
  rw [List.splitOn_intercalate '/' hpieces (by simpa using hne), List.map_map]
  simp

theorem steps_ne_nil : steps path ≠ [] := by
  rw [steps_eq]
  exact fun hnil => List.splitOnP_ne_nil _ _ (List.map_eq_nil_iff.mp hnil)

/-- No step contains a slash. -/
theorem no_slash_of_mem_steps (hs : s ∈ steps path) : '/' ∉ s.toList := by
  obtain ⟨w, hw, rfl⟩ := List.mem_map.mp hs
  intro hslash
  rw [String.toList_ofList] at hslash
  exact absurd (Text.eq_false_of_mem_cuts hw hslash) (by decide)

/-- Texts that do not start with a slash do not when they are joined either, if the first one is not
empty. -/
theorem startsWith_joined (hss : ∀ s ∈ ss, s ≠ "" ∧ '/' ∉ s.toList) :
    ("/".intercalate ss).startsWith "/" = false := by
  rw [Bool.eq_false_iff]
  intro hstarts
  rw [String.startsWith_string_iff, String.toList_intercalate] at hstarts
  cases ss with
  | nil => exact absurd hstarts (by decide)
  | cons s ss =>
    obtain ⟨hne, hslash⟩ := hss s List.mem_cons_self
    cases hs : s.toList with
    | nil => exact hne (String.toList_eq_nil_iff.mp hs)
    | cons c cs =>
      have hc : c ≠ '/' := fun heq => hslash (hs ▸ heq ▸ List.mem_cons_self)
      cases ss <;> simp [hs, List.intercalate, Ne.symm hc] at hstarts

/-- Resources with the same segments are the same. -/
theorem eq_of_segments (h : r.segments = target.segments) : r = target := by
  cases r
  exact congrArg Resource.mk h

/-! ## Proper segments -/

/-- A segment that names something in the directory that a walk has come to. -/
structure Proper (s : String) : Prop where
  ne_empty : s ≠ ""
  ne_here : s ≠ "."
  ne_up : s ≠ ".."
  no_slash : '/' ∉ s.toList

/-- A resource all of whose segments are proper. -/
def Canonical (r : Resource) : Prop := ∀ s ∈ r.segments, Proper s

/-- The resources there are: read from a path, the root, the one above another, and the one that a
link leads to. -/
inductive Reachable : Resource → Prop
  | ofPath (path : String) : Reachable (.ofPath path)
  | root : Reachable .root
  | parent {r p : Resource} : Reachable r → r.parent? = some p → Reachable p
  | resolve {r : Resource} (link : String) : Reachable r → Reachable (r.resolve link)

theorem step_of_proper (hs : Proper s) : step at_ s = at_ ++ [s] := by
  unfold step
  rw [if_neg (not_or.mpr ⟨hs.ne_empty, hs.ne_here⟩), if_neg hs.ne_up]

/-- Proper segments lead down, one after the other. -/
theorem foldl_step_of_proper (hss : ∀ s ∈ ss, Proper s) : ss.foldl step at_ = at_ ++ ss := by
  induction ss generalizing at_ with
  | nil => rw [List.foldl_nil, List.append_nil]
  | cons s ss ih =>
    rw [List.foldl_cons, step_of_proper (hss s List.mem_cons_self),
      ih fun s' hs' => hss s' (List.mem_cons_of_mem s hs'), List.append_assoc]
    rfl

/-- **A step keeps segments proper**, whatever it is. -/
theorem proper_of_mem_step (hat : ∀ x ∈ at_, Proper x) (hs : '/' ∉ s.toList) {x : String}
    (hx : x ∈ step at_ s) :
    Proper x := by
  unfold step at hx
  split at hx
  · exact hat x hx
  · next hblank =>
    obtain ⟨hempty, hhere⟩ := not_or.mp hblank
    split at hx
    · exact hat x (List.mem_of_mem_dropLast hx)
    · next hup =>
      rcases List.mem_append.mp hx with hx | hx
      · exact hat x hx
      · rw [List.mem_singleton.mp hx]
        exact ⟨hempty, hhere, hup, hs⟩

theorem proper_of_mem_walk (hstart : ∀ x ∈ start, Proper x) {x : String}
    (hx : x ∈ walk start path) : Proper x := by
  have hsteps : ∀ s ∈ steps path, '/' ∉ s.toList := fun s hs => no_slash_of_mem_steps hs
  unfold walk at hx
  generalize steps path = ss at hsteps hx
  induction ss generalizing start with
  | nil => exact hstart x hx
  | cons s ss ih =>
    refine ih (fun y hy => ?_) (fun s' hs' => hsteps s' (List.mem_cons_of_mem s hs')) hx
    exact proper_of_mem_step hstart (hsteps s List.mem_cons_self) hy

theorem Canonical.directory (h : r.Canonical) {x : String} (hx : x ∈ r.directory) : Proper x :=
  h x (List.mem_of_mem_dropLast hx)

theorem canonical_ofPath : (ofPath path).Canonical := fun _ hx =>
    proper_of_mem_walk (fun _ hy => absurd hy List.not_mem_nil) hx

theorem Canonical.parent {p : Resource} (h : r.Canonical) (hp : r.parent? = some p) :
    p.Canonical := by
  unfold parent? at hp
  split at hp
  · cases hp
  · cases hp
    exact fun _ hx => h.directory hx

theorem Canonical.resolve (h : r.Canonical) : (r.resolve link).Canonical := by
  unfold Resource.resolve
  dsimp only
  split
  · exact canonical_ofPath
  · exact fun _ hx => proper_of_mem_walk (fun _ hy => h.directory hy) hx

/-- **Every resource is canonical.** -/
theorem Reachable.canonical (h : r.Reachable) : r.Canonical := by
  induction h with
  | ofPath path => exact canonical_ofPath
  | root => exact fun _ hx => absurd hx List.not_mem_nil
  | parent _ hp ih => exact ih.parent hp
  | resolve link _ ih => exact ih.resolve

/-! ## Paths lead back -/

/-- A walk over a longer path goes on from where the first part of it leads. -/
theorem walk_slash (a b : String) : walk start (a ++ "/" ++ b) = walk (walk start a) b := by
  unfold walk
  rw [steps_slash, List.foldl_append]

theorem walk_empty : walk start "" = start := rfl

theorem walk_intercalate (hss : ∀ s ∈ ss, Proper s) :
    walk start ("/".intercalate ss) = start ++ ss := by
  cases ss with
  | nil => exact (List.append_nil start).symm
  | cons s ss =>
    unfold walk
    rw [steps_intercalate (fun s hs => (hss s hs).no_slash) (List.cons_ne_nil s ss),
      foldl_step_of_proper hss]

theorem Canonical.walk_path (h : r.Canonical) : walk [] r.path = r.segments := by
  have hslash : r.path = "" ++ "/" ++ "/".intercalate r.segments := rfl
  rw [hslash, walk_slash, walk_empty, walk_intercalate h, List.nil_append]

/-- **The path of a resource names it.** -/
theorem Canonical.ofPath_path (h : r.Canonical) : ofPath r.path = r := eq_of_segments h.walk_path

/-- The directory of a resource is its parent, or the root. -/
theorem segments_parent (r : Resource) : (r.parent?.getD root).segments = r.directory := by
  unfold parent? directory
  cases hr : r.segments with
  | nil => rfl
  | cons s ss => rfl

/-- A link that does not start at the root is followed from the directory of the document. -/
theorem segments_resolve (hlink : (linkTarget link).startsWith "/" = false) :
    (r.resolve link).segments = walk r.directory (linkTarget link) := by
  unfold resolve
  dsimp only
  rw [if_neg (Bool.eq_false_iff.mp hlink)]

/-- **Such a link is followed as if it stood behind the path of the directory.** -/
theorem Canonical.resolve_eq_ofPath (h : r.Canonical)
    (hlink : (linkTarget link).startsWith "/" = false) :
    r.resolve link = ofPath ((r.parent?.getD root).path ++ "/" ++ linkTarget link) := by
  have hdirectory : (r.parent?.getD root).Canonical :=
    fun x hx => h.directory (segments_parent r ▸ hx)
  refine eq_of_segments ?_
  show _ = walk [] _
  rw [segments_resolve hlink, walk_slash, hdirectory.walk_path, segments_parent]

end Resource
end LiveSpec
