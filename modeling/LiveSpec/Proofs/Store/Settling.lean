import LiveSpec.Proofs.Store.Writing

/-!
# Output that is written again and again

A target in memory keeps its files in the order of their resources, one for each
(`MemoryTarget.Holds`). A write puts a new file among them or replaces the one that is there.

An asset that a target has with the same content is fresh, whenever it was written and however small
the window of freshness is; one that it does not have is not fresh, however large the window is. So
the first time an output is written, the document and all assets are, and each time after that the
document alone: neither the window nor the time that passes makes a difference
(`Output.writings_settle`).
-/

namespace LiveSpec

/-! ## The order of resources -/

/-- The order of resources is the lexicographic one. -/
theorem Resource.precedes_iff {as bs : List String} : Resource.precedes as bs = true ↔ as < bs := by
  induction as generalizing bs with
  | nil => cases bs <;> simp [precedes]
  | cons a as ih =>
    cases bs with
    | nil => simp [precedes]
    | cons b bs => simp [precedes, ih, List.cons_lt_cons_iff]

namespace MemoryTarget

variable {t : MemoryTarget} {files : List (Resource × Stored)} {fs : List (Resource × Bytes)}
  {r : Resource} {s s' : Stored} {bytes : Bytes} {windowMs : Nat}

/-- Files in the order of their resources, one for each. -/
def Ordered (files : List (Resource × Stored)) : Prop :=
  files.Pairwise fun a b => a.1.segments < b.1.segments

/-- What a target has, each with its resource, in the order of resources. -/
def contents (t : MemoryTarget) : List (Resource × Bytes) := t.files.map fun e => (e.1, e.2.bytes)

/-- Says that a target has these bytes under these resources, and no others. -/
structure Holds (t : MemoryTarget) (fs : List (Resource × Bytes)) : Prop where
  ordered : Ordered t.files
  contents : t.contents.Perm fs

/-! ## Putting a file among others -/

/-- Inserting a file adds no other. -/
theorem mem_insert {e : Resource × Stored} (h : e ∈ insert r s files) : e = (r, s) ∨ e ∈ files := by
  induction files with
  | nil => exact .inl (List.mem_singleton.mp h)
  | cons e' files ih =>
    unfold insert at h
    split at h
    · exact (List.mem_cons.mp h).imp_right (List.mem_cons_of_mem e')
    · split at h
      · exact List.mem_cons.mp h
      · rcases List.mem_cons.mp h with rfl | h
        · exact .inr List.mem_cons_self
        · exact (ih h).imp_right (List.mem_cons_of_mem e')

/-- The files stay in order. -/
theorem Ordered.insert (h : Ordered files) : Ordered (insert r s files) := by
  induction files with
  | nil => exact List.pairwise_singleton ..
  | cons e files ih =>
    obtain ⟨hfirst, hrest⟩ := List.pairwise_cons.mp h
    unfold MemoryTarget.insert
    split
    · next hr => exact List.pairwise_cons.mpr ⟨fun e' he' => hr ▸ hfirst e' he', hrest⟩
    · next hr =>
      split
      · next hbefore =>
        rw [Resource.precedes_iff] at hbefore
        refine List.pairwise_cons.mpr ⟨fun e' he' => ?_, h⟩
        rcases List.mem_cons.mp he' with rfl | he'
        · exact hbefore
        · exact hbefore.trans (hfirst e' he')
      · next hbefore =>
        -- neither the same nor before, so the new file comes later
        rw [Resource.precedes_iff] at hbefore
        have hlater : e.1.segments < r.segments :=
          lt_of_le_of_ne (not_lt.mp hbefore) fun heq => hr (Resource.eq_of_segments heq)
        refine List.pairwise_cons.mpr ⟨fun e' he' => ?_, ih hrest⟩
        rcases mem_insert he' with rfl | he'
        · exact hlater
        · exact hfirst e' he'

/-- A file of a new resource comes to the others. -/
theorem perm_insert (hr : ∀ e ∈ files, e.1 ≠ r) : (insert r s files).Perm ((r, s) :: files) := by
  induction files with
  | nil => exact .refl _
  | cons e files ih =>
    unfold insert
    rw [if_neg (hr e List.mem_cons_self)]
    split
    · exact .refl _
    · exact ((ih fun e' he' => hr e' (List.mem_cons_of_mem e he')).cons e).trans (.swap ..)

/-- A file that is there is replaced where it is. -/
theorem map_insert (h : Ordered files) (hmem : (r, s') ∈ files) (hbytes : s.bytes = s'.bytes) :
    ((insert r s files).map fun e => (e.1, e.2.bytes)) = files.map fun e => (e.1, e.2.bytes) := by
  induction files with
  | nil => cases hmem
  | cons e files ih =>
    obtain ⟨hfirst, hrest⟩ := List.pairwise_cons.mp h
    unfold insert
    rcases List.mem_cons.mp hmem with rfl | hmem
    · rw [if_pos rfl, List.map_cons, List.map_cons, hbytes]
    · have hlater : e.1.segments < r.segments := hfirst _ hmem
      rw [if_neg fun he => lt_irrefl _ (he ▸ hlater),
        if_neg fun he => lt_asymm hlater (Resource.precedes_iff.mp he),
        List.map_cons, List.map_cons, ih hrest hmem]

/-- In order, a file is found exactly if it is there. -/
theorem lookup_eq_some_iff (h : Ordered files) : files.lookup r = some s ↔ (r, s) ∈ files := by
  induction files with
  | nil => simp
  | cons e files ih =>
    obtain ⟨r', s'⟩ := e
    obtain ⟨hfirst, hrest⟩ := List.pairwise_cons.mp h
    rw [List.lookup_cons, List.mem_cons]
    by_cases hr : r = r'
    · subst hr
      have hnot : (r, s) ∉ files := fun hmem => lt_irrefl r.segments (hfirst _ hmem)
      simp [hnot, eq_comm]
    · have hother : (r == r') = false := beq_false_of_ne hr
      rw [hother]
      simp [ih hrest, hr]

/-! ## What a target holds -/

namespace Holds

variable (h : t.Holds fs)
include h

/-- What is held is found with its bytes. -/
theorem lookup (hmem : (r, bytes) ∈ fs) : ∃ s, t.files.lookup r = some s ∧ s.bytes = bytes := by
  obtain ⟨e, he, heq⟩ := List.mem_map.mp (h.contents.mem_iff.mpr hmem)
  cases heq
  exact ⟨e.2, (lookup_eq_some_iff h.ordered).mpr he, rfl⟩

/-- What is found is held. -/
theorem mem_of_lookup (hs : t.files.lookup r = some s) : (r, s.bytes) ∈ fs :=
  h.contents.mem_iff.mp (List.mem_map.mpr ⟨(r, s), (lookup_eq_some_iff h.ordered).mp hs, rfl⟩)

/-- **What can be read is what the target holds.** -/
theorem bytes?_eq_some_iff : t.bytes? r = some bytes ↔ (r, bytes) ∈ fs := by
  unfold bytes?
  rw [Option.map_eq_some_iff]
  constructor
  · rintro ⟨s, hs, rfl⟩
    exact h.mem_of_lookup hs
  · exact h.lookup

/-- What is there with the same content is fresh, whatever the window. -/
theorem isFresh (hmem : (r, bytes) ∈ fs) : Target.isFresh t r bytes windowMs = true := by
  obtain ⟨s, hs, rfl⟩ := h.lookup hmem
  show ((t.files.lookup r).map fun s' => s'.isFresh t.clock s.bytes windowMs).getD false = true
  simp [hs, Stored.isFresh]

/-- What is not there is not fresh, whatever the window. -/
theorem not_isFresh (hr : r ∉ fs.map Prod.fst) : Target.isFresh t r bytes windowMs = false := by
  have hnone : t.files.lookup r = none := Option.eq_none_iff_forall_ne_some.mpr fun s hs =>
    hr (List.mem_map_of_mem (h.mem_of_lookup hs))
  show ((t.files.lookup r).map fun s' => s'.isFresh t.clock bytes windowMs).getD false = false
  rw [hnone]
  rfl

/-- Waiting changes no file. -/
theorem wait (moments : Nat) : (t.wait moments).Holds fs := ⟨h.ordered, h.contents⟩

/-- A write to a new place holds one file more. -/
theorem write_new (hr : r ∉ fs.map Prod.fst) (bytes : Bytes) :
    (t.write r bytes).Holds ((r, bytes) :: fs) := by
  refine ⟨h.ordered.insert, ?_⟩
  have hnew : ∀ e ∈ t.files, e.1 ≠ r := by
    rintro e he rfl
    exact hr (List.mem_map_of_mem (h.contents.mem_iff.mp (List.mem_map_of_mem he)))
  exact ((perm_insert hnew).map _).trans (h.contents.cons _)

/-- A write of the same bytes holds the same. -/
theorem write_same (hmem : (r, bytes) ∈ fs) : (t.write r bytes).Holds fs := by
  obtain ⟨s, hs, hbytes⟩ := h.lookup hmem
  have hcontents : (t.write r bytes).contents = t.contents :=
    map_insert h.ordered ((lookup_eq_some_iff h.ordered).mp hs) hbytes.symm
  exact ⟨h.ordered.insert, hcontents ▸ h.contents⟩

end Holds

theorem holds_empty : empty.Holds [] := ⟨.nil, .refl _⟩

end MemoryTarget

/-! ## Writing an output once -/

section

open MemoryTarget (Holds)

variable {t : MemoryTarget} {fs : List (Resource × Bytes)} {assets : List Asset} {windowMs : Nat}

/-- The file of an asset. -/
def Asset.file (a : Asset) : Resource × Bytes := (a.resource, a.bytes)

/-- The files of an output: its document and its assets. -/
def Output.files (o : Output) : List (Resource × Bytes) :=
  (o.resource, .ofText o.html) :: o.assets.map Asset.file

/-- An asset is written unless it is fresh. -/
theorem run_writeAssets_cons (a : Asset) (rest : List Asset) :
    (writeAssets windowMs (a :: rest)).run t =
      if Target.isFresh t a.resource a.bytes windowMs then (writeAssets windowMs rest).run t
      else (writeAssets windowMs rest).run (t.write a.resource a.bytes) := by
  rw [writeAssets, run_bind_state,
    show (get : ExceptT Error (StateM MemoryTarget) MemoryTarget).run t = (.ok t, t) from rfl]
  dsimp only
  cases Target.isFresh t a.resource a.bytes windowMs <;> rfl

/-- Assets that the target has are left alone. -/
theorem run_writeAssets_of_mem (h : t.Holds fs) (hassets : ∀ a ∈ assets, a.file ∈ fs) :
    (writeAssets windowMs assets).run t = (.ok (), t) := by
  induction assets with
  | nil => rfl
  | cons a assets ih =>
    rw [run_writeAssets_cons, if_pos (h.isFresh (hassets a List.mem_cons_self))]
    exact ih fun b hb => hassets b (List.mem_cons_of_mem a hb)

/-- Assets that the target does not have are all written. -/
theorem run_writeAssets_of_new (h : t.Holds fs)
    (hnodup : (fs.map Prod.fst ++ assets.map Asset.resource).Nodup) :
    ∃ t', (writeAssets windowMs assets).run t = (.ok (), t') ∧
      t'.Holds (fs ++ assets.map Asset.file) ∧
      t'.writes = t.writes + assets.length := by
  induction assets generalizing t fs with
  | nil => exact ⟨t, rfl, by simpa using h, rfl⟩
  | cons a assets ih =>
    rw [List.map_cons, List.perm_middle.nodup_iff] at hnodup
    obtain ⟨hnew, hrest⟩ := List.nodup_cons.mp hnodup
    have hr : a.resource ∉ fs.map Prod.fst := fun hmem => hnew (List.mem_append_left _ hmem)
    obtain ⟨t', hrun, hholds, hwrites⟩ := ih (h.write_new hr a.bytes) hnodup
    refine ⟨t', ?_, ⟨hholds.ordered, hholds.contents.trans List.perm_middle.symm⟩, ?_⟩
    · rw [run_writeAssets_cons, h.not_isFresh hr]
      exact hrun
    · rw [hwrites, List.length_cons]
      exact Nat.add_right_comm ..

/-- An output writes its assets first, and then its document. -/
theorem Output.run_writeTo (o : Output) :
    (o.writeTo).run t = (writeAssets o.freshWindow o.assets).run (t.write o.resource o.html) := rfl

/-- **The first time**, the document and all assets are written. -/
theorem Output.writeTo_new (o : Output) (h : t.Holds []) (hnodup : (o.files.map Prod.fst).Nodup) :
    ∃ t', (o.writeTo).run t = (.ok (), t') ∧ t'.Holds o.files ∧
      t'.writes = t.writes + 1 + o.assets.length := by
  have hdocument : (t.write o.resource o.html).Holds [(o.resource, .ofText o.html)] :=
    h.write_new List.not_mem_nil _
  rw [o.run_writeTo]
  refine run_writeAssets_of_new hdocument ?_
  rwa [Output.files, List.map_cons, List.map_map] at hnodup

/-- **Each time after that**, the document alone is written. -/
theorem Output.writeTo_again (o : Output) (h : t.Holds o.files) :
    ∃ t', (o.writeTo).run t = (.ok (), t') ∧ t'.Holds o.files ∧ t'.writes = t.writes + 1 := by
  have hdocument : (t.write o.resource o.html).Holds o.files := h.write_same List.mem_cons_self
  rw [o.run_writeTo]
  refine ⟨_, run_writeAssets_of_mem hdocument fun a ha => ?_, hdocument, rfl⟩
  exact List.mem_cons_of_mem _ (List.mem_map_of_mem ha)

end

/-! ## Writing an output many times -/

/-- Writes an output once for each of some delays, after letting that much time pass. -/
def Output.writings (o : Output) : List Nat → ExceptT Error (StateM MemoryTarget) Unit
  | [] => return
  | delay :: delays => do
    modify fun t => t.wait delay
    o.writeTo
    o.writings delays

/-- Writings happen one after the other, each after its delay. -/
theorem Output.run_writings_cons (o : Output) {t t' : MemoryTarget} {delay : Nat}
    (delays : List Nat) (h : (o.writeTo).run (t.wait delay) = (.ok (), t')) :
    (o.writings (delay :: delays)).run t = (o.writings delays).run t' := by
  have hrest : (o.writeTo >>= fun _ => o.writings delays).run (t.wait delay) =
      (o.writings delays).run t' := by
    rw [run_bind_state, h]
  exact hrest

/-- Written again and again, an output leaves the same files, with one write for the document each
time. -/
theorem Output.writings_again (o : Output) {t : MemoryTarget} (h : t.Holds o.files)
    (delays : List Nat) :
    ∃ t', (o.writings delays).run t = (.ok (), t') ∧ t'.Holds o.files ∧
      t'.writes = t.writes + delays.length := by
  induction delays generalizing t with
  | nil => exact ⟨t, rfl, h, rfl⟩
  | cons delay delays ih =>
    obtain ⟨t₁, hfirst, hholds, hwrites⟩ := o.writeTo_again (h.wait delay)
    obtain ⟨t', hrest, hholds', hwrites'⟩ := ih hholds
    refine ⟨t', (o.run_writings_cons delays hfirst).trans hrest, hholds', ?_⟩
    rw [hwrites', hwrites, List.length_cons]
    show t.writes + 1 + delays.length = _
    omega

/-- **Writing an output settles.** An output whose assets have resources of their own is written to
an empty target, once or more, with any time passing before each writing and any window of
freshness. All writings succeed. The target then has the document and each asset under its resource,
and nothing else, and it was written to once for each writing and once for each asset. -/
theorem Output.writings_settle (o : Output) (hnodup : (o.files.map Prod.fst).Nodup)
    {delays : List Nat} (hdelays : delays ≠ []) :
    ∃ t, (o.writings delays).run .empty = (.ok (), t) ∧ t.contents.Perm o.files ∧
      (∀ r bytes, t.bytes? r = some bytes ↔ (r, bytes) ∈ o.files) ∧
      t.writes = delays.length + o.assets.length := by
  obtain ⟨delay, delays, rfl⟩ := List.exists_cons_of_ne_nil hdelays
  obtain ⟨t₁, hfirst, hholds, hwrites⟩ := o.writeTo_new (MemoryTarget.holds_empty.wait delay) hnodup
  obtain ⟨t, hrest, hholds', hwrites'⟩ := o.writings_again hholds delays
  refine ⟨t, (o.run_writings_cons delays hfirst).trans hrest, hholds'.contents,
    fun r bytes => hholds'.bytes?_eq_some_iff, ?_⟩
  rw [hwrites', hwrites, List.length_cons]
  show 0 + 1 + o.assets.length + delays.length = _
  omega

/-- A document with two assets, one of them no text, that are not fresh for longer than they must
be. -/
def Sample.twoAssets : Output where
  resource := ⟨["spec", "a.html"]⟩
  html := "<p>"
  summary := default
  tree := .empty
  assets := [⟨⟨["css", "b.css"]⟩, "p \x7b \x7d"⟩, ⟨⟨["b.png"]⟩, ⟨[0x89, 0xff]⟩⟩]
  diagnostics := []
  freshWindow := 0

/-- Three writings, the second one right after the first and the third one an hour later, come to
five writes. -/
theorem Output.writings_settle_twoAssets :
    (Sample.twoAssets.files.map Prod.fst).Nodup ∧ [7, 0, 3600000000] ≠ [] ∧
    ∃ t, (Sample.twoAssets.writings [7, 0, 3600000000]).run .empty = (.ok (), t) ∧ t.writes = 5 ∧
      t.bytes? ⟨["b.png"]⟩ = some ⟨[0x89, 0xff]⟩ ∧ t.bytes? ⟨["b.css"]⟩ = none := by
  have hnodup : (Sample.twoAssets.files.map Prod.fst).Nodup := by decide
  have hdelays : [7, 0, 3600000000] ≠ [] := by decide
  obtain ⟨t, hrun, -, hread, hwrites⟩ := Sample.twoAssets.writings_settle hnodup hdelays
  refine ⟨hnodup, hdelays, t, hrun, hwrites, (hread _ _).mpr (by decide), ?_⟩
  refine Option.eq_none_iff_forall_ne_some.mpr fun bytes hbytes => ?_
  have hmem := (hread _ _).mp hbytes
  simp [Output.files, Sample.twoAssets, Asset.file] at hmem

end LiveSpec
