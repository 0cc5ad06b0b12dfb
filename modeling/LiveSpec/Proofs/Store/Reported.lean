import LiveSpec.Proofs.Nesting.Outputs
import LiveSpec.Proofs.Store.Writing

/-!
# The document that a report names

To run a specification from the command line is to run it, to write its document and then those of
all nested runs in the order in which they were finished, and to report on it. A specification that
links back to itself is run again inside its own run, with a resource that has the same file. So the
file that the report names holds the document that was written under this resource last
(`CommandLine.reported_file`): the one that the report is about only if no nested run has another
document for the resource (`CommandLine.reported_file_overwritten`).
-/

namespace LiveSpec

open DirectoryTarget (pathFor latest?)

theorem FilePath.directory_ne_empty (path : String) : directory path ≠ "" := by
  unfold directory
  split
  · decide
  · assumption

/-- No directory is a file at the same time. -/
def FileTree.Apart (t : FileTree) : Prop := ∀ place, t.isDirectory place = true →
    t.file? place = none

instance (t : FileTree) : Decidable t.Apart :=
  decidable_of_iff (∀ place ∈ [] :: t.directories, t.file? place = none) <| by
    refine forall_congr' fun place => ?_
    rw [List.mem_cons, FileTree.isDirectory, Bool.or_eq_true, List.isEmpty_iff,
      List.contains_iff_mem]

/-- There is no file behind a slash. -/
theorem FileTree.Apart.not_readBytes_slash {t : FileTree} (h : t.Apart) {start : List String}
    {before : String} {bytes : Bytes} : t.readBytes start (before ++ "/") ≠ .ok bytes := by
  intro hread
  obtain ⟨place, hlocate, hfile⟩ := Except.bind_eq_ok.mp hread
  unfold locate at hlocate
  split at hlocate
  · cases hlocate
  · have hsteps : Resource.steps (before ++ "/") = Resource.steps before ++ [""] := by
      rw [← String.append_empty (s := before ++ "/"), Resource.steps_slash]
      rfl
    have hwalk : t.walk (if FilePath.isAbsolute (before ++ "/") then [] else start)
        (Resource.steps (before ++ "/")) =
      .ok place := hlocate
    rw [hsteps] at hwalk
    obtain ⟨base, -, hlast⟩ := walk_append_eq_ok.mp hwalk
    obtain ⟨next, henter, hnil⟩ := walk_cons_eq_ok.mp hlast
    obtain rfl : next = place := Except.ok.inj hnil
    obtain ⟨hdirectory, rfl⟩ := (enter_of_not_leads (by decide)).mp henter
    rw [h base hdirectory] at hfile
    cases hfile

/-- So no text is read there. -/
theorem FileTree.Apart.not_read_slash {t : FileTree} (h : t.Apart) {start : List String}
    {before text : String} :
    t.read start (before ++ "/") ≠ .ok text := by
  intro hread
  obtain ⟨_, hbytes, -⟩ := Except.bind_eq_ok.mp hread
  exact h.not_readBytes_slash hbytes

namespace StockFixture

/-- Data bring no extensions along. -/
theorem extensions_ofData {name : String} {v : Value} {f : StockFixture}
    (h : ofData name v = .ok f) : f.extensions = [] := by
  cases v with
  | object fields =>
    cases h
    rfl
  | _ => cases h

theorem extensions_ofFile {path : String} {content : Except FileFault String} {f : StockFixture}
    (h : ofFile path content = .ok f) : f.extensions = [] := by
  cases content with
  | error fault => cases h
  | ok text =>
    simp only [ofFile, ofJson, ofYaml] at h
    split at h
    · cases hjson : Json.read? text with
      | none =>
        rw [hjson] at h
        cases h
      | some v =>
        rw [hjson] at h
        exact extensions_ofData h
    · cases hyaml : Yaml.read? text with
      | none =>
        rw [hyaml] at h
        cases h
      | some v =>
        rw [hyaml] at h
        exact extensions_ofData h

end StockFixture

namespace CommandLine

variable {w : Workplace} {c : Config} {r : Request} {time spec : String}
  {data? output? : Option String} {format : Format} {output : Output} {nested : List Output}

theorem extensions_fixtureFor {f : StockFixture} (h : fixtureFor w spec = .ok f) :
    f.extensions = [] := by
  unfold fixtureFor at h
  split at h
  · exact StockFixture.extensions_ofFile h
  · cases h
    rfl

/-- The engine that runs specifications brings no extensions along, unless the configuration does.
-/
theorem isPlain_build {e : Engine StockFixture} {directory : String} (hplain : c.extensions = [])
    (h : Engine.build c Catalog.standard [] [(runnerName, runner w directory)] = .ok e) :
    e.IsPlain := by
  unfold Engine.build at h
  rw [hplain] at h
  obtain ⟨named, hnamed, h₁⟩ := Except.bind_eq_ok.mp h
  obtain ⟨_, -, h₂⟩ := Except.bind_eq_ok.mp h₁
  cases hnamed
  cases h₂
  refine ⟨rfl, fun {name runner' request fixture} hrunner hfixture => ?_⟩
  have hname :
      (if runnerName = name then some (runner w directory) else none) = some runner' := hrunner
  split at hname
  · obtain rfl := Option.some.inj hname
    simp only [runner] at hfixture
    exact extensions_fixtureFor (Except.mapError_eq_ok.mp hfixture)
  · cases hname

/-- What running a specification comes to, where the configuration has no extensions: its document
has a canonical resource that is not the root, and all outputs are alone. -/
theorem process_spec (hw : w.tree.Apart) (hplain : c.extensions = [])
    (h : process w c spec data? = .ok (output, nested)) :
    output.resource ≠ .root ∧ ∀ o ∈ output :: nested, o.IsAlone := by
  unfold process at h
  obtain ⟨⟨directory, resource⟩, hlocate, h₁⟩ := Except.bind_eq_ok.mp h
  obtain ⟨fixture, hfixture, h₂⟩ := Except.bind_eq_ok.mp h₁
  obtain ⟨engine, hengine, h₃⟩ := Except.bind_eq_ok.mp h₂
  obtain ⟨html, hhtml, h₄⟩ := Except.bind_eq_ok.mp h₃
  rcases hrun : engine.process fixture html resource .empty with ⟨result, fixture', world⟩
  rw [hrun] at h₄
  obtain ⟨output', houtput, h₅⟩ := Except.bind_eq_ok.mp h₄
  cases h₅
  have hplain := isPlain_build hplain (Except.mapError_eq_ok.mp hengine)
  have hbare : fixture.extensions = [] := by
    have hfixture := Except.mapError_eq_ok.mp hfixture
    cases data? with
    | none => exact extensions_fixtureFor hfixture
    | some path => exact StockFixture.extensions_ofFile hfixture
  have hresource : resource.Canonical ∧ directory ≠ "" := by
    unfold locate at hlocate
    split at hlocate
    · obtain ⟨rfl, rfl⟩ := Prod.mk.inj (Except.ok.inj hlocate)
      exact ⟨Resource.canonical_ofPath, FilePath.directory_ne_empty spec⟩
    · cases hlocate
  have hroot : resource ≠ .root := by
    rintro rfl
    have hread := Except.mapError_eq_ok.mp (Except.mapError_eq_ok.mp hhtml)
    obtain ⟨-, before, hjoin, -⟩ := (FilePath.join_cases directory "").resolve_left fun h =>
      hresource.2 h.1
    have hpath : pathFor directory Resource.root = before ++ "/" := by
      unfold pathFor
      exact hjoin.trans (String.append_empty ..)
    exact hw.not_read_slash (hpath ▸ hread)
  obtain ⟨halone, hown⟩ : world.IsAlone ∧ ∀ output, result = .ok output →
    output.resource = resource ∧ output.assets = [] := by
    have hends : engine.processIn .outermost fixture html resource .empty = (result, fixture',
        world) := hrun
    rw [show world = (engine.processIn .outermost fixture html resource .empty).2.2 by rw [hends],
      show result = (engine.processIn .outermost fixture html resource .empty).1 by rw [hends]]
    exact Engine.processIn_alone hplain hresource.1 hbare nofun
  obtain ⟨rfl, hassets⟩ := hown output (Except.mapError_eq_ok.mp houtput)
  refine ⟨hroot, fun o ho => ?_⟩
  rcases List.mem_cons.mp ho with rfl | hmem
  · exact ⟨hresource.1, hassets⟩
  · exact halone o hmem

/-- What a report says of the outputs of a run. -/
def reportOf (r : Request) (format : Format) (time path : String) (output : Output)
    (nested : List Output) : String :=
  match format with
  | .text => reportText r path (nested ++ [output])
  | .json => reportJson time path output nested

/-- To run a specification is to process it, to write its output and then those of nested runs, and
to report on them. -/
theorem runSpec_spec {text : String} {isSuccess : Bool} {tree : FileTree}
    (h : runSpec w c r time spec data? output? format = (.ok (text, isSuccess), tree)) :
    ∃ output nested d, process w c spec data? = .ok (output, nested) ∧
      isSuccess = output.summary.isSuccess ∧
      text = reportOf r format time (pathFor (output?.getD c.outputDir) output.resource)
        output nested ∧
      (writeAll (output :: nested)).run ⟨w.tree, w.place, output?.getD c.outputDir, 0⟩ = (.ok (),
        d) ∧ tree = d.tree := by
  unfold runSpec at h
  split at h
  · cases congrArg Prod.fst h
  · next output nested hprocess =>
    dsimp only at h
    rcases hwrite : (writeAll (output :: nested)).run ⟨w.tree, w.place, output?.getD c.outputDir,
      0⟩ with ⟨e | _, d⟩
    · rw [hwrite] at h
      cases congrArg Prod.fst h
    · rw [hwrite] at h
      have hresult := Except.ok.inj (congrArg Prod.fst h)
      exact ⟨output, nested, d, hprocess, (congrArg Prod.snd hresult).symm,
        (congrArg Prod.fst hresult).symm, hwrite,
        (congrArg Prod.snd h).symm⟩

/-- **The file that a report names** holds the last document that was written for its resource, by
the run that the report is about or by one nested in it. The code that the program ends with, and
the summary in the report, are those of the outermost run. So the file holds the document that the
report is about if no nested run has another document for the same resource. -/
theorem reported_file {environment? : Option String} {args : List String} {reply : Reply}
    {tree : FileTree} (hread : Request.read environment? args = .ok r)
    (htask : r.task = .run spec data? output? format) (hconfig : configOf w r.config? = .ok c)
    (hplain : c.extensions = []) (hw : w.tree.Apart)
    (h : answer environment? args w time = (reply, tree)) (hdone : reply.code ≠ 2) :
    ∃ output nested last, process w c spec data? = .ok (output, nested) ∧
      let path := pathFor (output?.getD c.outputDir) output.resource
      reply.code = (if output.summary.isSuccess then 0 else 1) ∧
      reply.stdout = reportOf r format time path output nested ∧
      latest? (output :: nested) output.resource = some last ∧
      tree.read w.place path = .ok last.html ∧
      ((∀ o ∈ nested, o.resource = output.resource → o.html = output.html) →
        tree.read w.place path = .ok output.html) := by
  have hanswer : r.answer w time = runSpec w c r time spec data? output? format := by
    unfold Request.answer
    rw [hconfig, htask]
  unfold answer at h
  rw [hread] at h
  dsimp only at h
  rw [hanswer] at h
  rcases hrun : runSpec w c r time spec data? output? format with ⟨e | ⟨text, isSuccess⟩, tree'⟩
  · rw [hrun] at h
    cases h
    exact absurd rfl hdone
  · rw [hrun] at h
    cases h
    obtain ⟨output, nested, d, hprocess, rfl, rfl, hwrite, rfl⟩ := runSpec_spec hrun
    obtain ⟨hroot, halone⟩ := process_spec hw hplain hprocess
    have hcanonical := (halone output List.mem_cons_self).canonical
    obtain ⟨hlater, hhas⟩ := DirectoryTarget.has_writeAll
      (fun o ho => ⟨(halone o ho).canonical, (halone o ho).assets⟩)
      hcanonical hwrite
    obtain ⟨last, hlast⟩ : ∃ last, latest? (output :: nested) output.resource = some last := by
      rw [DirectoryTarget.latest?_cons, if_pos rfl]
      cases latest? nested output.resource with
      | none => exact ⟨output, rfl⟩
      | some last => exact ⟨last, rfl⟩
    rw [hlast] at hhas
    have hfile := hhas.read hcanonical hroot
    rw [hlater.start, hlater.directory] at hfile
    refine ⟨output, nested, last, hprocess, rfl, rfl, hlast, hfile, fun hsame => ?_⟩
    have hmem := List.mem_filter.mp (List.mem_of_getLast? hlast)
    rcases List.mem_cons.mp hmem.1 with rfl | hnested
    · exact hfile
    · rw [hfile, hsame last hnested (of_decide_eq_true hmem.2)]

theorem exists_of_any {ε α : Type} {x : Except ε α} {p : α → Bool} (h : x.toOption.any p = true) :
    ∃ a, x = .ok a ∧ p a = true := by
  cases x with
  | error e => cases h
  | ok a => exact ⟨a, rfl, h⟩

/-- A specification that links to itself, with a configuration that allows one level of nested runs:
the outermost run expects the nested one to end in an exception, and that one does because it runs
too deep. -/
def Sample.looping : Workplace where
  tree := .ofFiles [] [
    ("A.html", "<html xmlns:c=\"urn:concordant:2024\"><head></head><body>" ++
      "<a c:run=\"concordant\" c:expected=\"exception\" href=\"A.html\">again</a></body></html>"),
    ("c.yaml", "embed_default_css: false\nmax_nesting_depth: 1\noutput_dir: out\n")]
  place := []

/-- The configuration beside the specification. -/
def Sample.shallow : Config :=
  { Config.standard with embedDefaultCss := false, maxNestingDepth := 1, outputDir := "out" }

/-- The request to run the specification. -/
def Sample.request : Request := ⟨.run "A.html" none none .text, false, .auto, some "c.yaml"⟩

/-- How the specification is run. -/
def Sample.arguments : List String := ["-c", "c.yaml", "run", "A.html"]

theorem Sample.request_read : Request.read none Sample.arguments = .ok Sample.request := by
  decide +kernel

theorem Sample.config_read :
    configOf Sample.looping Sample.request.config? = .ok Sample.shallow := by decide +kernel

/-- Says whether a run of that specification went well while the file of its report holds another
document, one with an exception. -/
def Sample.isOverwritten (reply : Reply) (tree : FileTree)
    (outputs : Output × List Output) : Bool :=
  outputs.1.summary.isSuccess && pathFor "out" outputs.1.resource = "out/A.html" &&
    reply.code = 0 &&
    tree.read [] "out/A.html" ≠ .ok outputs.1.html &&
    outputs.2.any fun o => o.resource = outputs.1.resource && o.summary.hasExceptions &&
      tree.read [] "out/A.html" = .ok o.html

theorem Sample.isOverwritten_iff {reply : Reply} {tree : FileTree} {output : Output}
    {nested : List Output} :
    isOverwritten reply tree (output, nested) = true ↔ output.summary.isSuccess = true ∧
      pathFor "out" output.resource = "out/A.html" ∧ reply.code = 0 ∧
      tree.read [] "out/A.html" ≠ .ok output.html ∧
      ∃ o ∈ nested, o.resource = output.resource ∧ o.summary.hasExceptions = true ∧
        tree.read [] "out/A.html" = .ok o.html := by
  simp [isOverwritten, and_assoc]

/-- What the outermost run and the one nested in it come to. -/
theorem Sample.looping_ends : (process looping shallow "A.html" none).toOption.any
    (isOverwritten (answer none arguments looping "").1 (answer none arguments looping "").2) =
    true := by decide +kernel

theorem Sample.looping_code : (answer none arguments looping "").1.code ≠ 2 := by
  obtain ⟨⟨output, nested⟩, -, hends⟩ := exists_of_any looping_ends
  obtain ⟨-, -, hcode, -⟩ := isOverwritten_iff.mp hends
  rw [hcode]
  decide

theorem reported_file_looping : ∃ output nested last,
    process Sample.looping Sample.shallow "A.html" none = .ok (output, nested) ∧
      latest? (output :: nested) output.resource = some last ∧
      (answer none Sample.arguments Sample.looping "").2.read []
      (pathFor "out" output.resource) = .ok last.html := by
  obtain ⟨output, nested, last, hprocess, -, -, hlast, hfile, -⟩ :=
    reported_file Sample.request_read rfl Sample.config_read rfl (by decide +kernel)
      Prod.mk.eta.symm Sample.looping_code
  exact ⟨output, nested, last, hprocess, hlast, hfile⟩

/-- The outermost run succeeds, and so does the program. The file that its report names holds a
document in which an exception is painted: that of the nested run. -/
theorem reported_file_overwritten : ∃ output nested,
    process Sample.looping Sample.shallow "A.html" none = .ok (output, nested) ∧
    output.summary.isSuccess = true ∧
      pathFor "out" output.resource = "out/A.html" ∧
      (answer none Sample.arguments Sample.looping "").1.code = 0 ∧
      (answer none Sample.arguments Sample.looping "").2.read [] "out/A.html" ≠ .ok output.html ∧
      ∃ o ∈ nested, o.resource = output.resource ∧ o.summary.hasExceptions = true ∧
        (answer none Sample.arguments Sample.looping "").2.read [] "out/A.html" = .ok o.html := by
  obtain ⟨⟨output, nested⟩, hprocess, hends⟩ := exists_of_any Sample.looping_ends
  exact ⟨output, nested, hprocess, Sample.isOverwritten_iff.mp hends⟩

end CommandLine
end LiveSpec
