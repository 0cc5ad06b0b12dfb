import LiveSpec.CommandLine.Reply
import LiveSpec.Proofs.Resource.Places

/-!
# Writing files

A write makes the directories that are missing on the way, and then puts one file
(`FileTree.write_spec`). Whatever it comes to, directories stay, and so do files at other places.
Since a walk only asks for directories, a path that led somewhere goes on to lead there.

So what a target has under a resource (`DirectoryTarget.Has`) is what was written under it last
(`DirectoryTarget.has_writeAll`).
-/

namespace LiveSpec

/-- How a chain of two parts ends that change a state and may fail. -/
theorem run_bind_state {ε σ α β : Type} {x : ExceptT ε (StateM σ) α}
    {f : α → ExceptT ε (StateM σ) β} {s : σ} :
    (x >>= f).run s = match x.run s with
      | (.ok a, s') => (f a).run s'
      | (.error e, s') => (.error e, s') := by
  show (ExceptT.bindCont f (x.run s).1).run (x.run s).2 = _
  rcases x.run s with ⟨_ | a, s'⟩ <;> rfl

namespace FileTree

variable {α β : Type} {t t' t'' : FileTree} {start names place place' : List String} {s : Stored}

/-- A tree with more directories, perhaps, and the same files. -/
structure Grown (t t' : FileTree) : Prop where
  directories : ∀ place, t.isDirectory place = true → t'.isDirectory place = true
  files : t'.files = t.files

namespace Grown

theorem refl (t : FileTree) : Grown t t := ⟨fun _ => id, rfl⟩

theorem trans (h : Grown t t') (h' : Grown t' t'') : Grown t t'' :=
  ⟨fun place hplace => h'.directories place (h.directories place hplace), h'.files.trans h.files⟩

end Grown

/-- A walk only asks for directories. -/
theorem walk_of_directories (h : ∀ place, t.isDirectory place = true → t'.isDirectory place = true)
    (hwalk : t.walk start names = .ok place) : t'.walk start names = .ok place := by
  induction names generalizing start with
  | nil => exact hwalk
  | cons name names ih =>
    obtain ⟨next, henter, hrest⟩ := walk_cons_eq_ok.mp hwalk
    refine walk_cons_eq_ok.mpr ⟨next, ?_, ih hrest⟩
    have hdirectory := isDirectory_of_enter henter
    unfold enter at henter ⊢
    rw [if_pos hdirectory] at henter
    rw [if_pos (h start hdirectory)]
    exact henter

/-! ## Making directories -/

/-- A handler goes on with the files as the fault left them. -/
theorem run_tryCatch {x : Change α} {f : FileFault → Change α} :
    (tryCatch x f).run t = match x.run t with
    | (.ok a, t') => (.ok a, t')
    | (.error fault, t') => (f fault).run t' := by
  unfold ExceptT.run
  simp only [tryCatch, tryCatchThe, MonadExceptOf.tryCatch, ExceptT.tryCatch, ExceptT.mk, bind,
    StateT.bind]
  rcases x t with ⟨_ | a, t'⟩ <;> rfl

/-- A change that does no more than make directories. -/
def Grows (x : Change α) : Prop := ∀ t, Grown t (x.run t).2

namespace Grows

theorem pure (a : α) : Grows (pure a) := .refl

/-- What looks at the files first is judged for every state of them. -/
theorem get {f : FileTree → Change α} (hf : ∀ t, Grown t ((f t).run t).2) :
    Grows (MonadState.get >>= f) := hf

/-- Changes in sequence grow the files if each does. -/
theorem bind {x : Change α} {f : α → Change β} (hx : Grows x) (hf : ∀ a, Grows (f a)) :
    Grows (x >>= f) := fun t => by
  have hfirst := hx t
  rw [run_bind_state]
  rcases hrun : x.run t with ⟨fault | a, t₁⟩
  · rw [hrun] at hfirst
    exact hfirst
  · rw [hrun] at hfirst
    exact hfirst.trans (hf a t₁)

/-- A handled change grows them if it does and the handler does. -/
theorem tryCatch {x : Change α} {f : FileFault → Change α} (hx : Grows x)
    (hf : ∀ fault, Grows (f fault)) :
    Grows (tryCatch x f) := fun t => by
  have hfirst := hx t
  rw [run_tryCatch]
  rcases hrun : x.run t with ⟨fault | a, t₁⟩
  · rw [hrun] at hfirst
    exact hfirst.trans (hf fault t₁)
  · rw [hrun] at hfirst
    exact hfirst

end Grows

/-- A new directory leaves all others. -/
theorem grown_addDirectory (t : FileTree) (place : List String) :
    Grown t { t with directories := t.directories ++ [place] } := by
  refine ⟨fun place' h => ?_, rfl⟩
  unfold isDirectory at h ⊢
  rw [Bool.or_eq_true, List.contains_iff_mem] at h ⊢
  exact h.imp_right fun hmem => List.mem_append_left _ hmem

/-- Making a directory only adds some. -/
theorem makeDirectory_grows (start names : List String) :
    Grows (makeDirectory start names) := .get fun t => by
  split
  · exact .refl t
  · next place _ =>
    split
    · exact .refl t
    · exact grown_addDirectory t place

/-- So does making it with all its parents. -/
theorem ensureDirectory_grows (start names : List String) :
    Grows (ensureDirectory start names) := by
  induction names with
  | nil => exact .pure ()
  | cons name above ih =>
    have hattempt : Grows (tryCatch (makeDirectory start (name :: above).reverse) fun fault => do
        if !(← MonadState.get).leadsToDirectory start (name :: above).reverse then throw fault) :=
      .tryCatch (makeDirectory_grows _ _) fun fault => .get fun t => by
        split
        · exact .refl t
        · exact .refl t
    refine .get fun t => ?_
    dsimp only
    split
    · exact Grows.bind ih (fun _ => hattempt) t
    · exact hattempt t

/-! ## Putting files -/

/-- Without its own entries, a place is empty and the others are as they were. -/
theorem lookup_filter_ne (files : List (List String × Stored)) (place place' : List String) :
    (files.filter fun e => e.1 != place).lookup place' = if place' = place then none else
      files.lookup place' := by
  induction files with
  | nil => simp
  | cons e files ih =>
    rw [List.filter_cons]
    by_cases he : e.1 = place
    · rw [if_neg (by simp [he]), ih, List.lookup_cons]
      by_cases hplace : place' = place
      · rw [if_pos hplace, if_pos hplace]
      · have hother : (place' == e.1) = false := beq_false_of_ne fun h => hplace (h.trans he)
        rw [if_neg hplace, if_neg hplace, hother]
    · rw [if_pos (by simp [he]), List.lookup_cons, List.lookup_cons, ih]
      by_cases hplace : place' = place
      · have hother : (place' == e.1) = false := beq_false_of_ne fun h => he (h.symm.trans hplace)
        rw [if_pos hplace, if_pos hplace, hother]
      · rw [if_neg hplace, if_neg hplace]

/-- A file that is put shows at its own place only. -/
theorem file?_put : (t.put place s).file? place' = if place' = place then some s else
    t.file? place' := by
  unfold put file?
  rw [List.lookup_append, lookup_filter_ne]
  by_cases hplace : place' = place
  · rw [if_pos hplace, if_pos hplace, Option.none_or, hplace, List.lookup_cons_self]
  · have hother : (place' == place) = false := beq_false_of_ne hplace
    rw [if_neg hplace, if_neg hplace, List.lookup_cons, hother, List.lookup_nil, Option.or_none]

/-- **What a write comes to**: directories are made, the path leads to a place, and the file is put
there. -/
theorem write_spec (h : (write start names s).run t = (.ok (), t')) :
    ∃ t₁ place, Grown t t₁ ∧ t₁.walk start names = .ok place ∧ t' = t₁.put place s := by
  have hgrown := ensureDirectory_grows start names.reverse.tail t
  unfold write at h
  rw [run_bind_state] at h
  rcases hrun : (ensureDirectory start names.reverse.tail).run t with ⟨fault | _, t₁⟩
  · rw [hrun] at h
    cases h
  · rw [hrun] at h hgrown
    dsimp only at h
    rw [run_bind_state, show (get : Change FileTree).run t₁ = (.ok t₁, t₁) from rfl] at h
    dsimp only at h
    cases hwalk : t₁.walk start names with
    | error fault =>
      rw [hwalk] at h
      cases h
    | ok place =>
      rw [hwalk] at h
      dsimp only at h
      split at h
      · cases h
      · exact ⟨t₁, place, hgrown, hwalk, (congrArg Prod.snd h).symm⟩

end FileTree

/-! ## What a target has -/

namespace DirectoryTarget

variable {d d' d'' : DirectoryTarget} {r r' : Resource} {bytes : Bytes} {text : String}

/-- Says what the file of a resource holds. -/
def Has (d : DirectoryTarget) (r : Resource) (bytes : Bytes) : Prop :=
  ∃ place, d.tree.walk d.origin (d.names r) = .ok place ∧
    (d.tree.file? place).map Stored.bytes = some bytes

/-- A later state of a target: it writes below the same directory, and has all directories that it
had. -/
structure Later (d d' : DirectoryTarget) : Prop where
  start : d'.start = d.start
  directory : d'.directory = d.directory
  directories : ∀ place, d.tree.isDirectory place = true → d'.tree.isDirectory place = true

namespace Later

/-- The names of a resource depend on the root of the target only. -/
theorem names (h : Later d d') (r : Resource) : d'.names r = d.names r := by
  unfold DirectoryTarget.names
  rw [h.directory]

theorem origin (h : Later d d') : d'.origin = d.origin := by
  unfold DirectoryTarget.origin
  rw [h.directory, h.start]

/-- A path that could be walked can be walked later, to the same place. -/
theorem walk (h : Later d d') {place : List String}
    (hwalk : d.tree.walk d.origin (d.names r) = .ok place) :
    d'.tree.walk d'.origin (d'.names r) = .ok place := by
  rw [h.names, h.origin]
  exact FileTree.walk_of_directories h.directories hwalk

end Later

/-- A write to a target is a write to its tree. -/
theorem run_write {result : Except FileFault Unit} {tree : FileTree}
    (hwrite : (FileTree.write d.origin (d.names r) ⟨bytes, d.clock⟩).run d.tree = (result, tree)) :
    (Target.write r bytes : ExceptT Error (StateM DirectoryTarget) Unit).run d =
      (result.mapError .ofFile, { d with tree := tree, clock := d.clock + 1 }) := by
  dsimp only [Target.write]
  rw [run_bind_state, show (get : ExceptT Error (StateM DirectoryTarget) DirectoryTarget).run d =
    (.ok d, d) from rfl]
  dsimp only
  rw [hwrite]
  cases result <;> rfl

/-- **One write**: the resource has the bytes afterwards, and what other resources have is not
changed. -/
theorem write_spec (h : (Target.write r bytes : ExceptT Error (StateM DirectoryTarget) Unit).run d =
    (.ok (), d')) :
    Later d d' ∧ d'.Has r bytes ∧
      ∀ r', r.Canonical → r'.Canonical → r' ≠ r → ∀ bytes', d.Has r' bytes' → d'.Has r' bytes' := by
  rcases hwrite :
    (FileTree.write d.origin (d.names r) ⟨bytes, d.clock⟩).run d.tree with ⟨fault | _, tree⟩
  · rw [run_write hwrite] at h
    cases congrArg Prod.fst h
  · rw [run_write hwrite] at h
    obtain rfl : { d with tree := tree, clock := d.clock + 1 } = d' := congrArg Prod.snd h
    obtain ⟨t₁, place, hgrown, hwalk, rfl⟩ := FileTree.write_spec hwrite
    have hlater : Later d { d with tree := t₁.put place ⟨bytes, d.clock⟩, clock := d.clock + 1 } :=
      ⟨rfl, rfl, hgrown.directories⟩
    have hplace : (t₁.put place ⟨bytes, d.clock⟩).walk d.origin (d.names r) = .ok place :=
      FileTree.walk_of_directories (t := t₁) (fun _ hplace => hplace) hwalk
    refine ⟨hlater, ⟨place, hplace, ?_⟩, fun r' hr hr' hne bytes' hhas => ?_⟩
    · rw [FileTree.file?_put, if_pos rfl]
      rfl
    · obtain ⟨place', hwalk', hbytes⟩ := hhas
      have hwalk' := hlater.walk hwalk'
      refine ⟨place', hwalk', ?_⟩
      -- the two resources have files of their own
      have hne' : place' ≠ place := by
        rintro rfl
        obtain ⟨base, hbase, rfl⟩ := DirectoryTarget.below_directory
          (d := { d with tree := t₁.put place' ⟨bytes, d.clock⟩, clock := d.clock + 1 }) hr hplace
        obtain ⟨base', hbase', heq⟩ := DirectoryTarget.below_directory hr' hwalk'
        obtain rfl := Except.ok.inj (hbase'.symm.trans hbase)
        exact hne (Resource.eq_of_segments (List.append_cancel_left heq).symm)
      rw [FileTree.file?_put, if_neg hne', FileTree.file?, hgrown.files]
      exact hbytes

namespace Later

theorem refl (d : DirectoryTarget) : Later d d := ⟨rfl, rfl, fun _ => id⟩

theorem trans (h : Later d d') (h' : Later d' d'') : Later d d'' :=
  ⟨h'.start.trans h.start, h'.directory.trans h.directory,
    fun place hplace => h'.directories place (h.directories place hplace)⟩

end Later

/-- The last output under a resource. -/
def latest? (os : List Output) (r : Resource) : Option Output :=
  (os.filter fun o => o.resource = r).getLast?

/-- The latest output for a resource is looked for in the rest first. -/
theorem latest?_cons (o : Output) (os : List Output) (r : Resource) :
    latest? (o :: os) r = (latest? os r).or (if o.resource = r then some o else none) := by
  unfold latest?
  by_cases ho : o.resource = r
  · rw [List.filter_cons_of_pos (by simpa using ho), List.getLast?_cons, if_pos ho]
    cases (os.filter fun o => o.resource = r).getLast? <;> rfl
  · rw [List.filter_cons_of_neg (by simpa using ho), if_neg ho, Option.or_none]

/-- **The last write counts**: of outputs without assets, each resource has the last one afterwards,
or what it had if there is none. -/
theorem has_writeAll {os : List Output} (hos : ∀ o ∈ os, o.resource.Canonical ∧ o.assets = [])
    (hr : r.Canonical) (h : (CommandLine.writeAll os).run d = (.ok (), d')) :
    Later d d' ∧ match latest? os r with
      | some o => d'.Has r o.html
      | none => ∀ bytes, d.Has r bytes → d'.Has r bytes := by
  induction os generalizing d with
  | nil =>
    obtain rfl : d = d' := congrArg Prod.snd h
    exact ⟨.refl d, fun _ => id⟩
  | cons o os ih =>
    obtain ⟨hcanonical, hassets⟩ := hos o List.mem_cons_self
    rw [CommandLine.writeAll, Output.writeTo, hassets, writeAssets, bind_pure_unit,
      run_bind_state] at h
    rcases hwrite : (Target.write o.resource o.html : ExceptT Error (StateM DirectoryTarget)
      Unit).run d with ⟨e | _, d₁⟩
    · rw [hwrite] at h
      cases congrArg Prod.fst h
    · rw [hwrite] at h
      obtain ⟨hlater, hhas, hothers⟩ := write_spec hwrite
      obtain ⟨hlater', hrest⟩ := ih (fun o' ho' => hos o' (List.mem_cons_of_mem o ho')) h
      refine ⟨hlater.trans hlater', ?_⟩
      rw [latest?_cons]
      cases hlast : latest? os r with
      | some last =>
        rw [hlast] at hrest
        exact hrest
      | none =>
        rw [hlast] at hrest
        by_cases ho : o.resource = r
        · subst ho
          rw [if_pos rfl]
          exact hrest _ hhas
        · rw [if_neg ho]
          exact fun bytes hbefore => hrest bytes
            (hothers r hcanonical hr (Ne.symm ho) bytes hbefore)

/-- The text that a resource has can be read below the directory. -/
theorem Has.read (h : d.Has r (.ofText text)) (hr : r.Canonical) (hroot : r ≠ .root) :
    d.tree.read d.start (pathFor d.directory r) = .ok text := by
  obtain ⟨place, hwalk, hbytes⟩ := h
  have hlocate : d.tree.locate d.start (pathFor d.directory r) = .ok place :=
    (locate_iff hr hroot).mpr hwalk
  obtain ⟨stored, hstored, hbytes⟩ := Option.map_eq_some_iff.mp hbytes
  have hread : d.tree.readBytes d.start (pathFor d.directory r) = .ok (.ofText text) := by
    unfold FileTree.readBytes
    rw [hlocate]
    dsimp only [bind, Except.bind]
    rw [hstored, ← hbytes]
    rfl
  unfold FileTree.read
  rw [hread]
  dsimp only [bind, Except.bind]
  rw [Bytes.text?_ofText]
  rfl

end DirectoryTarget
end LiveSpec
