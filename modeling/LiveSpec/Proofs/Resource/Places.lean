import LiveSpec.Proofs.Resource.Canonical
import LiveSpec.Proofs.Results
import LiveSpec.Store.Source

/-!
# Where resources are stored

Below a directory, each resource has a file of its own: the components of its path are those of the
directory and then its segments (`FilePath.components_pathFor`). Since the segments are proper,
walking over them leads straight down (`FileTree.walk_of_proper`), so neither a target nor a source
comes to anything outside of the directory, and a source finds a document where a target puts it
(`DirectoryTarget.locate_iff`).

`Resource.cannot_escape` puts this together with what is known of resources by themselves.
-/

namespace LiveSpec

open Resource (Proper Canonical steps)
open DirectoryTarget (pathFor)

variable {r r' : Resource} {directory path s : String} {start place place' base ss : List String}
  {t : FileTree}

/-! ## Paths of files -/

namespace FilePath

/-- A component of a path. -/
inductive Component where
  /-- The root of all files, at the start of a path. -/
  | root
  /-- The current directory, at the start of a path. -/
  | here
  /-- The directory one level up. -/
  | up
  | name (s : String)
deriving DecidableEq, Repr

/-- The component that a part of a path is. -/
def Component.ofPart (s : String) : Component := if s = ".." then .up else .name s

/-- What a path starts with before its parts. -/
def lead (path : String) : List Component :=
  if isAbsolute path then [.root] else if (steps path).head? = some "." then [.here] else []

/-- The components of a path. The current directory is one only where a path starts with it. -/
def components (path : String) : List Component := lead path ++ (parts path).map .ofPart

/-- Says whether a step of a path leads away from a directory. -/
def leads (s : String) : Bool := s != "" && s != "."

theorem parts_eq (path : String) : parts path = (steps path).filter leads := rfl

theorem lead_eq_root : lead path = [.root] ↔ isAbsolute path = true := by
  unfold lead
  split
  · next h => exact iff_of_true rfl h
  · next h =>
    refine iff_of_false ?_ h
    split <;> decide

theorem leads_of_proper (hs : Proper s) : leads s = true := by
  unfold leads
  simp [hs.ne_empty, hs.ne_here]

/-- How a path comes to stand behind a directory. -/
theorem join_cases (directory path : String) : directory = "" ∧ join directory path = path ∨
    directory ≠ "" ∧ ∃ before, join directory path = before ++ "/" ++ path ∧
      (directory = before ∨ directory = before ++ "/") := by
  unfold join
  by_cases hempty : directory = ""
  · refine .inl ⟨hempty, ?_⟩
    subst hempty
    exact String.empty_append
  · refine .inr ⟨hempty, ?_⟩
    by_cases hslash : directory.endsWith "/" = true
    · rw [if_pos (by simp [hslash])]
      rw [String.endsWith_eq_endsWith_toSlice, String.Slice.endsWith_string_iff,
        String.copy_toSlice] at hslash
      obtain ⟨before, hbefore⟩ := hslash
      have hdirectory : directory = String.ofList before ++ "/" := by
        refine String.toList_inj.mp ?_
        rw [← hbefore, String.toList_append]
        exact congrArg (· ++ ['/']) String.toList_ofList.symm
      exact ⟨.ofList before, by rw [hdirectory], .inr hdirectory⟩
    · rw [if_neg (by simp [hempty, hslash])]
      exact ⟨directory, rfl, .inl rfl⟩

/-- The steps of the empty path lead nowhere. -/
theorem parts_slash (before : String) : parts (before ++ "/") = parts before := by
  have hsteps : steps (before ++ "/") = steps before ++ [""] := by
    rw [← String.append_empty (s := before ++ "/"), Resource.steps_slash]
    rfl
  rw [parts_eq, parts_eq, hsteps, List.filter_append]
  exact List.append_nil _

/-- **The parts of a path below a directory** come after those of the directory. -/
theorem parts_join : parts (join directory path) = parts directory ++ parts path := by
  rcases join_cases directory path with ⟨rfl, hjoin⟩ | ⟨-, before, hjoin, hdirectory⟩
  · rw [hjoin]
    rfl
  · have hparts : parts directory = parts before := by
      rcases hdirectory with rfl | rfl
      · rfl
      · exact parts_slash before
    rw [hjoin, hparts, parts_eq, parts_eq, parts_eq, Resource.steps_slash, List.filter_append]

theorem isAbsolute_append (hne : directory ≠ "") (rest : String) :
    isAbsolute (directory ++ rest) = isAbsolute directory := by
  unfold isAbsolute
  rw [Bool.eq_iff_iff, String.startsWith_string_iff, String.startsWith_string_iff,
    String.toList_append]
  cases hcs : directory.toList with
  | nil => exact absurd (String.toList_eq_nil_iff.mp hcs) hne
  | cons c cs => simp

/-- A path below a directory starts as the directory does. -/
theorem lead_join (hne : directory ≠ "") : lead (join directory path) = lead directory := by
  obtain ⟨-, before, hjoin, hdirectory⟩ := (join_cases directory path).resolve_left fun h => hne h.1
  have habsolute : isAbsolute (join directory path) = isAbsolute directory := by
    rw [hjoin]
    rcases hdirectory with rfl | rfl
    · rw [String.append_assoc]
      exact isAbsolute_append hne _
    · exact isAbsolute_append hne _
  have hhead : (steps (join directory path)).head? = (steps directory).head? := by
    have hbefore : ∀ rest, (steps before ++ rest).head? = (steps before).head? := fun rest =>
      List.head?_append_of_ne_nil _ Resource.steps_ne_nil
    rw [hjoin, Resource.steps_slash, hbefore]
    rcases hdirectory with rfl | rfl
    · rfl
    · rw [← String.append_empty (s := before ++ "/"), Resource.steps_slash, hbefore]
  unfold lead
  rw [habsolute, hhead]

section PathFor

variable (h : r.Canonical)
include h

/-- The path of a resource below a directory is made of its own path, without the slash at the
start. -/
theorem pathFor_eq :
    pathFor directory r = join directory (.ofList (r.path.toList.dropWhile (· == '/'))) := by
  have hjoined : ("/".intercalate r.segments).toList.dropWhile
      (· == '/') = ("/".intercalate r.segments).toList := by
    have hstarts := Resource.startsWith_joined fun s hs => ⟨(h s hs).ne_empty, (h s hs).no_slash⟩
    rw [Bool.eq_false_iff, ne_eq, String.startsWith_string_iff] at hstarts
    cases hcs : ("/".intercalate r.segments).toList with
    | nil => rfl
    | cons c cs =>
      have hc : c ≠ '/' := by
        rintro rfl
        exact hstarts ⟨cs, hcs.symm⟩
      exact List.dropWhile_cons_of_neg (by simpa using hc)
  have hpath : r.path.toList = '/' :: ("/".intercalate r.segments).toList := by
    unfold Resource.path
    rw [String.toList_append]
    rfl
  rw [hpath, List.dropWhile_cons_of_pos (by decide), hjoined, String.ofList_toList]
  rfl

theorem parts_joined : parts ("/".intercalate r.segments) = r.segments := by
  cases hr : r.segments with
  | nil => rfl
  | cons s ss =>
    rw [parts_eq, ← hr, Resource.steps_intercalate (fun s hs => (h s hs).no_slash) (by simp [hr])]
    exact List.filter_eq_self.mpr fun s hs => leads_of_proper (h s hs)

theorem lead_joined : lead ("/".intercalate r.segments) = [] := by
  have habsolute : isAbsolute ("/".intercalate r.segments) = false :=
    Resource.startsWith_joined fun s hs => ⟨(h s hs).ne_empty, (h s hs).no_slash⟩
  have hhead : (steps ("/".intercalate r.segments)).head? ≠ some "." := by
    cases hr : r.segments with
    | nil => decide
    | cons s ss =>
      rw [← hr, Resource.steps_intercalate (fun s hs => (h s hs).no_slash) (by simp [hr]), hr]
      exact fun heq => (h s (hr ▸ List.mem_cons_self)).ne_here (Option.some.inj heq)
  unfold lead
  rw [habsolute, if_neg (by decide), if_neg hhead]

theorem parts_pathFor : parts (pathFor directory r) = parts directory ++ r.segments := by
  unfold pathFor
  rw [parts_join, parts_joined h]

theorem lead_pathFor : lead (pathFor directory r) = lead directory := by
  by_cases hempty : directory = ""
  · obtain ⟨-, hjoin⟩ :=
      (join_cases directory ("/".intercalate r.segments)).resolve_right fun hne => hne.1 hempty
    unfold pathFor
    rw [hjoin, lead_joined h, hempty]
    decide
  · exact lead_join hempty

/-- The steps of the path of a resource end with its segments. -/
theorem steps_pathFor (directory : String) (hne : r.segments ≠ []) :
    ∃ before, steps (pathFor directory r) = before ++ r.segments := by
  have hjoined : steps ("/".intercalate r.segments) = r.segments :=
    Resource.steps_intercalate (fun s hs => (h s hs).no_slash) hne
  unfold pathFor
  rcases join_cases directory ("/".intercalate r.segments) with ⟨-, hjoin⟩ | ⟨-, before, hjoin, -⟩
  · exact ⟨[], by rw [hjoin, hjoined, List.nil_append]⟩
  · exact ⟨steps before, by rw [hjoin, Resource.steps_slash, hjoined]⟩

/-- **The components of the path of a resource** are those of the directory, and then its segments.
-/
theorem components_pathFor :
    components (pathFor directory r) = components directory ++ r.segments.map Component.name := by
  have hnames : r.segments.map Component.ofPart = r.segments.map Component.name :=
    List.map_congr_left fun s hs => if_neg (h s hs).ne_up
  unfold components
  rw [lead_pathFor h, parts_pathFor h, List.map_append, hnames, List.append_assoc]

end PathFor

end FilePath

/-! ## Walking over files -/

namespace FileTree

open FilePath (leads)

theorem walk_cons_eq_ok : t.walk start (s :: ss) = .ok place ↔
    ∃ next, t.enter start s = .ok next ∧ t.walk next ss = .ok place := by
  unfold walk
  rw [List.foldlM_cons]
  exact Except.bind_eq_ok

/-- A walk over two lists of steps comes to a place between them. -/
theorem walk_append_eq_ok {ss' : List String} : t.walk start (ss ++ ss') = .ok place ↔
    ∃ base, t.walk start ss = .ok base ∧ t.walk base ss' = .ok place := by
  unfold walk
  rw [List.foldlM_append]
  exact Except.bind_eq_ok

theorem isDirectory_of_enter (h : t.enter start s = .ok place) : t.isDirectory start = true := by
  unfold enter at h
  split at h
  · assumption
  · split at h <;> cases h

/-- A step that leads nowhere is taken from a directory, and stays there. -/
theorem enter_of_not_leads (hs : leads s = false) : t.enter start s = .ok place ↔
    t.isDirectory start = true ∧ start = place := by
  have hblank : (s = "" || s = ".") = true := by
    unfold leads at hs
    by_cases hempty : s = "" <;> simp_all
  constructor
  · intro h
    have hdirectory := isDirectory_of_enter h
    refine ⟨hdirectory, ?_⟩
    unfold enter at h
    rw [if_pos hdirectory, if_pos hblank] at h
    exact Except.ok.inj h
  · rintro ⟨hdirectory, rfl⟩
    unfold enter
    rw [if_pos hdirectory, if_pos hblank]

theorem enter_of_proper (hs : Proper s) (h : t.enter start s = .ok place) :
    place = start ++ [s] := by
  unfold enter at h
  rw [if_pos (isDirectory_of_enter h), if_neg (by simp [hs.ne_empty, hs.ne_here]),
    if_neg hs.ne_up] at h
  split at h
  · cases h
  · exact (Except.ok.inj h).symm

/-- **Proper steps lead straight down.** -/
theorem walk_of_proper (hss : ∀ s ∈ ss, Proper s) (h : t.walk start ss = .ok place) :
    place = start ++ ss := by
  induction ss generalizing start with
  | nil =>
    rw [List.append_nil]
    exact (Except.ok.inj h).symm
  | cons s ss ih =>
    obtain ⟨next, hnext, hwalk⟩ := walk_cons_eq_ok.mp h
    have hplace := ih (fun s' hs' => hss s' (List.mem_cons_of_mem s hs')) hwalk
    rw [hplace, enter_of_proper (hss s List.mem_cons_self) hnext, List.append_assoc]
    rfl

/-- A walk need not take the steps that lead nowhere. -/
theorem walk_filter (h : t.walk start ss = .ok place) :
    t.walk start (ss.filter leads) = .ok place := by
  induction ss generalizing start with
  | nil => exact h
  | cons s ss ih =>
    obtain ⟨next, hnext, hwalk⟩ := walk_cons_eq_ok.mp h
    rw [List.filter_cons]
    split
    · exact walk_cons_eq_ok.mpr ⟨next, hnext, ih hwalk⟩
    · next hs =>
      obtain ⟨-, rfl⟩ := (enter_of_not_leads (Bool.eq_false_of_not_eq_true hs)).mp hnext
      exact ih hwalk

/-- It can take them as well, if it goes on to another step. -/
theorem walk_of_filter (hlast : ss.getLast?.any leads = true)
    (h : t.walk start (ss.filter leads) = .ok place) :
    t.walk start ss = .ok place := by
  induction ss generalizing start with
  | nil => cases hlast
  | cons s ss ih =>
    cases ss with
    | nil =>
      rw [List.filter_cons_of_pos (by simpa using hlast)] at h
      exact h
    | cons s' ss =>
      have hlast : (s' :: ss).getLast?.any leads = true := by simpa using hlast
      rw [List.filter_cons] at h
      split at h
      · obtain ⟨next, hnext, hwalk⟩ := walk_cons_eq_ok.mp h
        exact walk_cons_eq_ok.mpr ⟨next, hnext, ih hlast hwalk⟩
      · next hs =>
        refine walk_cons_eq_ok.mpr ⟨start, ?_, ih hlast h⟩
        refine (enter_of_not_leads (Bool.eq_false_of_not_eq_true hs)).mpr ⟨?_, rfl⟩
        -- the next step that leads anywhere starts here
        cases hfilter : (s' :: ss).filter leads with
        | nil =>
          obtain ⟨x, hx, hleads⟩ := (Option.any_eq_true ..).mp hlast
          have hmem : x ∈ (s' :: ss).filter leads :=
            List.mem_filter.mpr ⟨List.mem_of_getLast? hx, hleads⟩
          rw [hfilter] at hmem
          cases hmem
        | cons x xs =>
          rw [hfilter] at h
          obtain ⟨next, hnext, -⟩ := walk_cons_eq_ok.mp h
          exact isDirectory_of_enter hnext

end FileTree

namespace DirectoryTarget

variable {d : DirectoryTarget}

/-- The documents below the directory that a target writes to. -/
def source (d : DirectoryTarget) : DirectorySource := ⟨d.tree, d.start, d.directory⟩

/-- What a target writes lies below its directory. -/
theorem below_directory (h : r.Canonical) (hwalk : d.tree.walk d.origin (d.names r) = .ok place) :
    ∃ base, d.tree.walk d.origin (FilePath.parts d.directory) = .ok base ∧
      place = base ++ r.segments := by
  obtain ⟨base, hbase, hwalk⟩ := FileTree.walk_append_eq_ok.mp hwalk
  exact ⟨base, hbase, FileTree.walk_of_proper h hwalk⟩

/-- **A source finds a document where a target puts it.** -/
theorem locate_iff (h : r.Canonical) (hroot : r ≠ .root) :
    d.source.tree.locate d.source.start (pathFor d.source.directory r) = .ok place ↔
      d.tree.walk d.origin (d.names r) = .ok place := by
  show d.tree.locate d.start (pathFor d.directory r) = .ok place ↔ _
  have hsegments : r.segments ≠ [] := fun hnil => hroot (Resource.eq_of_segments hnil)
  have hparts : (steps (pathFor d.directory r)).filter FilePath.leads = d.names r :=
    FilePath.parts_pathFor h
  have hne : pathFor d.directory r ≠ "" := by
    intro hempty
    rw [hempty] at hparts
    exact hsegments (List.append_eq_nil_iff.mp hparts.symm).2
  have horigin : (if FilePath.isAbsolute (pathFor d.directory r) then [] else d.start) =
      d.origin := by
    have habsolute :
        FilePath.isAbsolute (pathFor d.directory r) = FilePath.isAbsolute d.directory := by
      rw [Bool.eq_iff_iff, ← FilePath.lead_eq_root, ← FilePath.lead_eq_root,
        FilePath.lead_pathFor h]
    rw [habsolute]
    rfl
  have hlast : (steps (pathFor d.directory r)).getLast?.any FilePath.leads = true := by
    obtain ⟨before, hsteps⟩ := FilePath.steps_pathFor h d.directory hsegments
    rw [hsteps, List.getLast?_append_of_ne_nil before hsegments,
      List.getLast?_eq_some_getLast hsegments]
    exact FilePath.leads_of_proper (h _ (List.getLast_mem hsegments))
  have hlocate : d.tree.locate d.start (pathFor d.directory r) = d.tree.walk d.origin
      (steps (pathFor d.directory r)) := by
    unfold FileTree.locate
    rw [if_neg hne, ← horigin]
    rfl
  rw [hlocate, ← hparts]
  exact ⟨FileTree.walk_filter, FileTree.walk_of_filter hlast⟩

end DirectoryTarget

/-- **Resources are canonical and cannot escape the directory that they are stored in.** No segment
of a resource is empty, `.`, `..` or contains a slash. The path of a resource names it. A link that
does not start with a slash, up to its first `#` or `?`, leads to what is named by the path of the
directory, a slash and the link up to there.

Below any directory the path of a resource is its own path without the slash at the start, its
components are those of the directory and then the segments, and no other resource has the same path
there. In whatever files a target writes to, it puts a resource at the place that the segments lead
to from its directory, and no other resource there; and a source below the same directory finds the
resource there. -/
theorem Resource.cannot_escape (h : r.Reachable) :
    (∀ s ∈ r.segments, s ≠ "" ∧ s ≠ "." ∧ s ≠ ".." ∧ '/' ∉ s.toList) ∧
    ofPath r.path = r ∧
    (∀ link, (linkTarget link).startsWith "/" = false →
      r.resolve link = ofPath ((r.parent?.getD root).path ++ "/" ++ linkTarget link)) ∧
    (∀ directory, pathFor directory r =
      FilePath.join directory (.ofList (r.path.toList.dropWhile (· == '/'))) ∧
      FilePath.components (pathFor directory r) =
        FilePath.components directory ++ r.segments.map .name ∧
      ∀ r', r'.Reachable → pathFor directory r' = pathFor directory r → r' = r) ∧
    ∀ (d : DirectoryTarget) (place : List String),
      (d.tree.walk d.origin (d.names r) = .ok place →
        (∃ base, d.tree.walk d.origin (FilePath.parts d.directory) = .ok base ∧
          place = base ++ r.segments) ∧
        ∀ r', r'.Reachable → d.tree.walk d.origin (d.names r') = .ok place → r' = r) ∧
      (r ≠ .root → (d.source.tree.locate d.source.start (pathFor d.source.directory r) = .ok place ↔
        d.tree.walk d.origin (d.names r) = .ok place)) := by
  have h := h.canonical
  refine ⟨fun s hs => ?_, h.ofPath_path, fun _ => h.resolve_eq_ofPath, fun directory => ?_,
    fun d place => ?_⟩
  · exact ⟨(h s hs).ne_empty, (h s hs).ne_here, (h s hs).ne_up, (h s hs).no_slash⟩
  · refine ⟨FilePath.pathFor_eq h, FilePath.components_pathFor h, fun r' h' hsame => ?_⟩
    have hparts := congrArg FilePath.parts hsame
    rw [FilePath.parts_pathFor h'.canonical, FilePath.parts_pathFor h] at hparts
    exact eq_of_segments (List.append_cancel_left hparts)
  · refine ⟨fun hwalk => ⟨d.below_directory h hwalk, fun r' h' hwalk' => ?_⟩, d.locate_iff h⟩
    obtain ⟨base, hbase, hplace⟩ := d.below_directory h hwalk
    obtain ⟨base', hbase', hplace'⟩ := d.below_directory h'.canonical hwalk'
    obtain rfl := Except.ok.inj (hbase'.symm.trans hbase)
    exact eq_of_segments (List.append_cancel_left (hplace'.symm.trans hplace))

/-- A link that climbs above the root ends up below the directory all the same. -/
theorem Resource.cannot_escape_climbing :
    ((ofPath "spec/a.html").resolve "../../../etc/./passwd#x").Reachable ∧
    FilePath.components
      (pathFor "/srv/out/" ((ofPath "spec/a.html").resolve "../../../etc/./passwd#x")) =
      [.root, .name "srv", .name "out", .name "etc", .name "passwd"] := by
  have h : ((ofPath "spec/a.html").resolve "../../../etc/./passwd#x").Reachable :=
    .resolve _ (.ofPath _)
  refine ⟨h, ?_⟩
  obtain ⟨-, -, -, hstored, -⟩ := Resource.cannot_escape h
  rw [(hstored "/srv/out/").2.1]
  decide +kernel

end LiveSpec
