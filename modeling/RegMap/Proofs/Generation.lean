import RegMap.Artifacts
import RegMap.Proofs.FileEffects
import RegMap.Proofs.SelfCheck

/-!
# What a generation leaves

A generation is refused before it touches any file, or it makes its directory and writes the
artifacts one after the other until that fails.  `Generation.Ends` says how it can end, with
the file system at each end, and `Generation.ends_run` that there is no other way.

* `Generation.Writes` follows the writing of artifacts one by one, over
  `FileSystem.Saves`.  The artifacts of a map have files of different names
  (`RegisterMap.pairwise_lastName?_artifacts`), so none overwrites another.
* `Generation.Leaves` is what artifacts leave with all the rest of the file system.
* `Generation.faithful_run`: what is rendered is what is written.  Refusals come first, and
  running a generation again changes nothing.
-/

namespace RegMap

/-! ## Artifacts -/

/-- Nothing is said if there are neither errors nor warnings. -/
theorem Diagnostics.isEmpty_iff (diagnostics : Diagnostics) :
    diagnostics.isEmpty = true ↔ diagnostics.errors = 0 ∧ diagnostics.warnings = 0 := by
  rw [isEmpty, List.isEmpty_iff, errors, warnings, List.countP_eq_zero, List.countP_eq_zero]
  constructor
  · intro h
    simp [h]
  · rintro ⟨herrors, hwarnings⟩
    refine List.eq_nil_iff_forall_not_mem.2 fun diagnostic hmem => ?_
    have herror := herrors diagnostic hmem
    have hwarning := hwarnings diagnostic hmem
    cases hrank : diagnostic.rank <;> simp [hrank] at herror hwarning

namespace RegisterMap

/-- Artifacts are refused exactly if a map is not packed or if anything is said about it. -/
theorem checkedArtifacts_eq_ok_iff {palette : Palette} {map : RegisterMap}
    {artifacts : List Artifact} :
    map.checkedArtifacts palette = .ok artifacts ↔
      map.isPacked = true ∧ (map.validate palette).isEmpty = true ∧
        map.artifacts = .ok artifacts := by
  rw [checkedArtifacts, Diagnostics.isEmpty_iff]
  by_cases hpacked : map.isPacked = true
  · by_cases herrors : (map.validate palette).errors = 0
    · by_cases hwarnings : (map.validate palette).warnings = 0
      · simp [hpacked, herrors, hwarnings]
      · simp [hpacked, herrors, hwarnings, Nat.pos_of_ne_zero hwarnings]
    · simp [hpacked, herrors, Nat.pos_of_ne_zero herrors]
  · simp [hpacked]

/-- No two artifacts have files of one name. -/
theorem pairwise_lastName?_artifacts {map : RegisterMap} {artifacts : List Artifact}
    (h : map.artifacts = .ok artifacts) (directory : String) :
    artifacts.Pairwise fun a b => Path.lastName? (Path.join directory a.name) ≠
      Path.lastName? (Path.join directory b.name) := by
  rw [RegisterMap.artifacts] at h
  split at h
  · cases h
    have hwrapper : ".sv".toList.getLast? = some 'v' := by decide
    have htemplate : ".vh".toList.getLast? = some 'h' := by decide
    have hdescriptor : ".core".toList.getLast? = some 'e' := by decide
    simp only [List.pairwise_cons, List.forall_mem_cons, wrapperName, templateName,
      descriptorName]
    refine ⟨⟨?_, ?_, nofun⟩, ⟨?_, nofun⟩, nofun, .nil⟩
    · exact Path.lastName?_join_ne _ _ _ hwrapper htemplate (by decide) (by decide) (by decide)
    · exact Path.lastName?_join_ne _ _ _ hwrapper hdescriptor (by decide) (by decide) (by decide)
    · exact Path.lastName?_join_ne _ _ _ htemplate hdescriptor (by decide) (by decide) (by decide)
  · cases h

end RegisterMap

namespace Generation

variable {device : Device}

/-! ## Writing -/

/-- The files of artifacts in a directory. -/
def filesIn (directory : String) (artifacts : List Artifact) : List (String × String) :=
  artifacts.map fun artifact => (Path.join directory artifact.name, artifact.text)

/-- The paths of artifacts in a directory. -/
def pathsIn (directory : String) (artifacts : List Artifact) : List String :=
  artifacts.map (Path.join directory ·.name)

theorem fst_filesIn (directory : String) (artifacts : List Artifact) :
    (filesIn directory artifacts).map (·.1) = pathsIn directory artifacts := by
  unfold filesIn pathsIn
  rw [List.map_map]
  rfl

/-- Artifacts are written up to the first that cannot be, or all of them are. -/
inductive Writes (device : Device) (directory : String) (before : FileSystem)
    (artifacts : List Artifact) : Generation → FileSystem → Prop where
  | finished {after} (hsaves : FileSystem.Saves device (filesIn directory artifacts) before after) :
      Writes device directory before artifacts ⟨pathsIn directory artifacts, none⟩ after
  | stopped {between after done artifact rest error}
      (hartifacts : artifacts = done ++ artifact :: rest)
      (hsaves : FileSystem.Saves device (filesIn directory done) before between)
      (hspoils : FileSystem.Spoils device (Path.join directory artifact.name) artifact.text error
        between after) :
      Writes device directory before artifacts
        ⟨pathsIn directory done, some (.unwritable (Path.join directory artifact.name) error)⟩
        after

theorem run_writeAll_cons (device : Device) (directory : String) (artifact : Artifact)
    (rest : List Artifact) (files : FileSystem) :
    (writeAll (FileSystem.store device) directory (artifact :: rest)).run files =
      match files.write device (Path.join directory artifact.name) artifact.text with
      | (.error error, after) =>
        (⟨[], some (.unwritable (Path.join directory artifact.name) error)⟩, after)
      | (.ok (), after) =>
        let (generation, after) := (writeAll (FileSystem.store device) directory rest).run after
        (⟨Path.join directory artifact.name :: generation.written, generation.failure⟩, after) := by
  rw [writeAll, FileSystem.run_bind, FileSystem.run_write]
  obtain ⟨outcome, after⟩ := files.write device (Path.join directory artifact.name) artifact.text
  cases outcome <;> rfl

/-- An artifact stays what it is while others with other names are written. -/
theorem saves_cons {directory : String} {artifact : Artifact} {done : List Artifact}
    {files after last : FileSystem}
    (hwrite : files.write device (Path.join directory artifact.name) artifact.text =
      (.ok (), after))
    (hne : ∀ other ∈ done, Path.lastName? (Path.join directory artifact.name) ≠
      Path.lastName? (Path.join directory other.name))
    (hdone : FileSystem.Saves device (filesIn directory done) after last) :
    FileSystem.Saves device (filesIn directory (artifact :: done)) files last := by
  refine (FileSystem.saves_write hwrite).trans hdone fun x hx y hy => ?_
  obtain ⟨other, hother, rfl⟩ := List.mem_map.1 hy
  rw [List.mem_singleton.1 hx]
  exact hne other hother

theorem writes_writeAll (device : Device) (directory : String) {artifacts : List Artifact}
    (hnames : artifacts.Pairwise fun a b => Path.lastName? (Path.join directory a.name) ≠
      Path.lastName? (Path.join directory b.name)) (files : FileSystem) :
    Writes device directory files artifacts
      ((writeAll (FileSystem.store device) directory artifacts).run files).1
      ((writeAll (FileSystem.store device) directory artifacts).run files).2 := by
  induction hnames generalizing files with
  | nil => exact .finished (.refl files)
  | @cons artifact rest hne _ ih =>
    rw [run_writeAll_cons]
    cases hwrite : files.write device (Path.join directory artifact.name) artifact.text with
    | mk outcome after =>
      cases outcome with
      | error error =>
        have hnone : artifact :: rest = [] ++ artifact :: rest := rfl
        exact .stopped hnone (.refl files) (FileSystem.spoils_write hwrite)
      | ok _ =>
        have hrest := ih after
        dsimp only
        generalize (writeAll (FileSystem.store device) directory rest).run after = run at hrest ⊢
        obtain ⟨generation, last⟩ := run
        cases hrest with
        | finished hsaves => exact .finished (saves_cons hwrite hne hsaves)
        | @stopped _ _ done other more error hartifacts hsaves hspoils =>
          have hsub : done ⊆ rest := by simp [hartifacts]
          have hall : artifact :: rest = (artifact :: done) ++ other :: more := by
            rw [hartifacts, List.cons_append]
          have hdone := saves_cons hwrite (fun third hthird => hne third (hsub hthird)) hsaves
          exact .stopped hall hdone hspoils

/-- All artifacts are written if each of them can be. -/
theorem run_writeAll_of_writable (directory : String) {artifacts : List Artifact}
    {files : FileSystem}
    (h : ∀ file ∈ filesIn directory artifacts, files.Writable device file.1 file.2) :
    ∃ after, (writeAll (FileSystem.store device) directory artifacts).run files =
      (⟨pathsIn directory artifacts, none⟩, after) := by
  induction artifacts generalizing files with
  | nil => exact ⟨files, rfl⟩
  | cons artifact rest ih =>
    have hartifact := h _ (List.mem_map_of_mem List.mem_cons_self)
    obtain ⟨after, hwrite⟩ := hartifact.exists_write
    have hrest : ∀ file ∈ filesIn directory rest, after.Writable device file.1 file.2 := by
      intro file hfile
      rw [(FileSystem.saves_write hwrite).writable_iff]
      exact h file (List.mem_cons_of_mem _ hfile)
    obtain ⟨last, hrun⟩ := ih hrest
    refine ⟨last, ?_⟩
    rw [run_writeAll_cons, hwrite]
    dsimp only
    rw [hrun]
    rfl

/-- Artifacts that are stored can be written again, which changes nothing. -/
theorem run_writeAll_of_stores (directory : String) {artifacts : List Artifact}
    {files : FileSystem}
    (hwritable : ∀ file ∈ filesIn directory artifacts, files.Writable device file.1 file.2)
    (hstores : ∀ file ∈ filesIn directory artifacts, files.Stores file.1 file.2) :
    ∃ after, (writeAll (FileSystem.store device) directory artifacts).run files =
        (⟨pathsIn directory artifacts, none⟩, after) ∧
      FileSystem.Saves device [] files after := by
  induction artifacts generalizing files with
  | nil => exact ⟨files, rfl, .refl files⟩
  | cons artifact rest ih =>
    have hmem : (Path.join directory artifact.name, artifact.text) ∈
        filesIn directory (artifact :: rest) := List.mem_cons_self
    obtain ⟨after, hwrite, hsame⟩ :=
      FileSystem.saves_nil_of_stores (hwritable _ hmem) (hstores _ hmem)
    have hrest : ∀ file ∈ filesIn directory rest,
        after.Writable device file.1 file.2 ∧ after.Stores file.1 file.2 := by
      intro file hfile
      exact ⟨hsame.writable_iff.2 (hwritable file (List.mem_cons_of_mem _ hfile)),
        hsame.stores_of_stores (hstores file (List.mem_cons_of_mem _ hfile)) nofun⟩
    obtain ⟨last, hrun, hsaves⟩ := ih (fun file hfile => (hrest file hfile).1)
      fun file hfile => (hrest file hfile).2
    refine ⟨last, ?_, hsame.trans hsaves nofun⟩
    rw [run_writeAll_cons, hwrite]
    dsimp only
    rw [hrun]
    rfl

/-! ## Runs -/

/-- How a generation can end, and what it leaves then. -/
inductive Ends (device : Device) (palette : Palette) (map : RegisterMap) (directory : String)
    (before : FileSystem) : Generation → FileSystem → Prop where
  | refused {refusal} (hrefusal : map.checkedArtifacts palette = .error refusal) :
      Ends device palette map directory before ⟨[], some (.refused refusal)⟩ before
  | noDirectory {artifacts after error} (hartifacts : map.checkedArtifacts palette = .ok artifacts)
      (hmade : ((FileSystem.store device).makeDirectories directory).run before =
        (.error error, after)) :
      Ends device palette map directory before ⟨[], some (.unwritable directory error)⟩ after
  | wrote {artifacts made generation after}
      (hartifacts : map.checkedArtifacts palette = .ok artifacts)
      (hmade : ((FileSystem.store device).makeDirectories directory).run before = (.ok (), made))
      (hwrites : Writes device directory made artifacts generation after) :
      Ends device palette map directory before generation after

theorem run_of_refused (device : Device) {palette : Palette} {map : RegisterMap}
    {refusal : Refusal} (h : map.checkedArtifacts palette = .error refusal) (directory : String)
    (files : FileSystem) :
    (run (FileSystem.store device) palette map directory).run files =
      (⟨[], some (.refused refusal)⟩, files) := by
  rw [run, h]
  rfl

theorem run_of_checked (device : Device) {palette : Palette} {map : RegisterMap}
    {artifacts : List Artifact} (h : map.checkedArtifacts palette = .ok artifacts)
    (directory : String) (files : FileSystem) :
    (run (FileSystem.store device) palette map directory).run files =
      match ((FileSystem.store device).makeDirectories directory).run files with
      | (.error error, made) => (⟨[], some (.unwritable directory error)⟩, made)
      | (.ok (), made) => (writeAll (FileSystem.store device) directory artifacts).run made := by
  rw [run, h]
  dsimp only
  rw [FileSystem.run_bind]
  obtain ⟨outcome, made⟩ := ((FileSystem.store device).makeDirectories directory).run files
  cases outcome <;> rfl

theorem ends_run (device : Device) (palette : Palette) (map : RegisterMap) (directory : String)
    (before : FileSystem) :
    Ends device palette map directory before
      ((run (FileSystem.store device) palette map directory).run before).1
      ((run (FileSystem.store device) palette map directory).run before).2 := by
  cases h : map.checkedArtifacts palette with
  | error refusal =>
    rw [run_of_refused device h]
    exact .refused h
  | ok artifacts =>
    obtain ⟨-, -, hartifacts⟩ := RegisterMap.checkedArtifacts_eq_ok_iff.1 h
    have hnames := RegisterMap.pairwise_lastName?_artifacts hartifacts directory
    rw [run_of_checked device h]
    cases hmade : ((FileSystem.store device).makeDirectories directory).run before with
    | mk outcome made =>
      cases outcome with
      | error error => exact .noDirectory h hmade
      | ok _ => exact .wrote h hmade (writes_writeAll device directory hnames made)

/-! ## What is left -/

/-- Artifacts are in the files of a directory.  Nothing else has changed, but that the
directory and those that it is in may have been made. -/
structure Leaves (directory : String) (artifacts : List Artifact) (before after : FileSystem) :
    Prop where
  workingDirectory_eq : after.workingDirectory = before.workingDirectory
  content?_eq : ∀ artifact ∈ artifacts,
    after.content? (Path.join directory artifact.name) = some artifact.text.toUTF8
  elsewhere : ∀ place, (∀ path ∈ pathsIn directory artifacts, after.place path ≠ .ok place) →
    after.find? place = before.find? place ∨
      before.find? place = none ∧ after.find? place = some .directory ∧
        ∃ path ∈ Path.ancestors directory, after.place path = .ok place

theorem leaves_of_saves {directory : String} {artifacts : List Artifact}
    {before made after : FileSystem}
    (hmakes : FileSystem.Makes (Path.ancestors directory) before made)
    (hsaves : FileSystem.Saves device (filesIn directory artifacts) made after) :
    Leaves directory artifacts before after where
  workingDirectory_eq := hsaves.workingDirectory_eq.trans hmakes.workingDirectory_eq
  content?_eq := by
    intro artifact hartifact
    exact (hsaves.stores _ (List.mem_map_of_mem hartifact)).content?_eq
  elsewhere := by
    intro place hplace
    rcases hsaves.find?_eq_or place with hsame | ⟨path, hpath, hlocates⟩
    · rw [hsame]
      rcases hmakes.find?_eq_or place with heq | ⟨hnone, hmade, path, hpath, hlocates⟩
      · exact .inl heq
      · exact .inr ⟨hnone, hmade, path, hpath, (hsaves.keeps.locates hlocates).place_eq⟩
    · rw [fst_filesIn] at hpath
      exact absurd hlocates.place_eq (hplace path hpath)

/-- If nothing was written, the files are what they were. -/
theorem Leaves.file_iff {directory : String} {before after : FileSystem}
    (h : Leaves directory [] before after) (place : List String) (content : ByteArray) :
    after.find? place = some (.file content) ↔ before.find? place = some (.file content) := by
  rcases h.elsewhere place nofun with heq | ⟨hnone, hmade, -⟩
  · rw [heq]
  · rw [hnone, hmade]
    constructor <;> nofun

/-! ## Finished generations -/

/-- A generation has the effect of rendering: it is refused before anything is touched, or
what is rendered is in its files, whatever was there before, and nothing else has changed. -/
structure Faithful (device : Device) (palette : Palette) (map : RegisterMap) (directory : String)
    (before : FileSystem) (generation : Generation) (after : FileSystem) : Prop where
  refused : map.isPacked = false ∨ (map.validate palette).isEmpty = false →
    (∃ refusal, generation.failure = some (.refused refusal)) ∧ after = before
  /-- Otherwise it finishes, if the directory can be made and each artifact can be written. -/
  finishes : map.isPacked = true → (map.validate palette).isEmpty = true →
    ∀ artifacts made, map.artifacts = .ok artifacts →
      ((FileSystem.store device).makeDirectories directory).run before = (.ok (), made) →
      (∀ file ∈ filesIn directory artifacts, made.Writable device file.1 file.2) →
        generation.failure = none
  finished : generation.failure = none →
    map.isPacked = true ∧ (map.validate palette).isEmpty = true ∧
      ∃ artifacts, map.artifacts = .ok artifacts ∧
        generation.written = pathsIn directory artifacts ∧
        Leaves directory artifacts before after
  /-- Running it again writes the same files, with the same content. -/
  again : generation.failure = none → ∃ last,
    (run (FileSystem.store device) palette map directory).run after = (generation, last) ∧
      ∀ place, last.find? place = after.find? place
  /-- In other directories and file systems, the files are the same octet by octet. -/
  elsewhere : generation.failure = none → ∀ (device' : Device) (palette' : Palette)
    (directory' : String) (before' : FileSystem) (artifacts : List Artifact),
      map.artifacts = .ok artifacts →
      ((run (FileSystem.store device') palette' map directory').run before').1.failure = none →
        ∀ artifact ∈ artifacts,
          ((run (FileSystem.store device') palette' map directory').run before').2.content?
              (Path.join directory' artifact.name) =
            after.content? (Path.join directory artifact.name)

/-- A finished generation has made its directory and written all artifacts. -/
theorem Ends.of_failure_eq_none {palette : Palette} {map : RegisterMap} {directory : String}
    {before after : FileSystem} {generation : Generation}
    (h : Ends device palette map directory before generation after)
    (hnone : generation.failure = none) :
    ∃ artifacts made, map.checkedArtifacts palette = .ok artifacts ∧
      ((FileSystem.store device).makeDirectories directory).run before = (.ok (), made) ∧
      FileSystem.Saves device (filesIn directory artifacts) made after ∧
      generation = ⟨pathsIn directory artifacts, none⟩ := by
  cases h with
  | refused => cases hnone
  | noDirectory => cases hnone
  | @wrote artifacts made _ _ hartifacts hmade hwrites =>
    cases hwrites with
    | finished hsaves => exact ⟨artifacts, made, hartifacts, hmade, hsaves, rfl⟩
    | stopped => cases hnone

theorem failure_eq_none_iff (device : Device) (palette : Palette) (map : RegisterMap)
    (directory : String) (before : FileSystem) :
    ((run (FileSystem.store device) palette map directory).run before).1.failure = none ↔
      ∃ artifacts made, map.checkedArtifacts palette = .ok artifacts ∧
        ((FileSystem.store device).makeDirectories directory).run before = (.ok (), made) ∧
        ∀ file ∈ filesIn directory artifacts, made.Writable device file.1 file.2 := by
  constructor
  · intro hnone
    obtain ⟨artifacts, made, hchecked, hmade, hsaves, -⟩ :=
      (ends_run device palette map directory before).of_failure_eq_none hnone
    refine ⟨artifacts, made, hchecked, hmade, ?_⟩
    intro file hfile
    exact hsaves.writable_iff.1 (hsaves.writable file hfile)
  · rintro ⟨artifacts, made, hchecked, hmade, hwritable⟩
    obtain ⟨after, hrun⟩ := run_writeAll_of_writable directory hwritable
    rw [run_of_checked device hchecked, hmade]
    dsimp only
    rw [hrun]

theorem content?_of_failure_eq_none {palette : Palette} {map : RegisterMap} {directory : String}
    {before : FileSystem} {artifacts : List Artifact}
    (h : ((run (FileSystem.store device) palette map directory).run before).1.failure = none)
    (hartifacts : map.artifacts = .ok artifacts) {artifact : Artifact}
    (hartifact : artifact ∈ artifacts) :
    ((run (FileSystem.store device) palette map directory).run before).2.content?
      (Path.join directory artifact.name) = some artifact.text.toUTF8 := by
  obtain ⟨written, made, hchecked, hmade, hsaves, -⟩ :=
    (ends_run device palette map directory before).of_failure_eq_none h
  obtain ⟨-, -, hwritten⟩ := RegisterMap.checkedArtifacts_eq_ok_iff.1 hchecked
  rw [hartifacts, Except.ok.injEq] at hwritten
  rw [← hwritten] at hsaves
  exact (hsaves.stores _ (List.mem_map_of_mem hartifact)).content?_eq

theorem faithful_run (device : Device) (palette : Palette) (map : RegisterMap)
    (directory : String) (before : FileSystem) :
    Faithful device palette map directory before
      ((run (FileSystem.store device) palette map directory).run before).1
      ((run (FileSystem.store device) palette map directory).run before).2 := by
  have hends := ends_run device palette map directory before
  constructor
  case refused =>
    intro hmap
    cases hchecked : map.checkedArtifacts palette with
    | error refusal =>
      rw [run_of_refused device hchecked]
      exact ⟨⟨refusal, rfl⟩, rfl⟩
    | ok artifacts =>
      obtain ⟨hpacked, hempty, -⟩ := RegisterMap.checkedArtifacts_eq_ok_iff.1 hchecked
      simp [hpacked, hempty] at hmap
  case finishes =>
    intro hpacked hempty artifacts made hartifacts hmade hwritable
    have hchecked := RegisterMap.checkedArtifacts_eq_ok_iff.2 ⟨hpacked, hempty, hartifacts⟩
    exact (failure_eq_none_iff device palette map directory before).2
      ⟨artifacts, made, hchecked, hmade, hwritable⟩
  case finished =>
    intro hnone
    obtain ⟨artifacts, made, hchecked, hmade, hsaves, hgeneration⟩ :=
      hends.of_failure_eq_none hnone
    obtain ⟨hpacked, hempty, hartifacts⟩ := RegisterMap.checkedArtifacts_eq_ok_iff.1 hchecked
    have hmakes := FileSystem.makes_of_makeDirectories hmade
    refine ⟨hpacked, hempty, artifacts, hartifacts, ?_, leaves_of_saves hmakes hsaves⟩
    rw [hgeneration]
  case again =>
    intro hnone
    obtain ⟨artifacts, made, hchecked, hmade, hsaves, hgeneration⟩ :=
      hends.of_failure_eq_none hnone
    obtain ⟨last, hrun, hsame⟩ :=
      run_writeAll_of_stores directory hsaves.writable hsaves.stores
    refine ⟨last, ?_, hsame.find?_eq⟩
    have hthere := hsaves.keeps.hasDirectory (FileSystem.hasDirectory_of_makeDirectories hmade)
    rw [run_of_checked device hchecked,
      FileSystem.run_makeDirectories_of_hasDirectory device hthere, hgeneration]
    exact hrun
  case elsewhere =>
    intro hnone device' palette' directory' before' artifacts hartifacts hnone' artifact hartifact
    rw [content?_of_failure_eq_none hnone hartifacts hartifact,
      content?_of_failure_eq_none hnone' hartifacts hartifact]

/-- A map with one field, laid out. -/
def single : RegisterMap :=
  (RegisterMap.new ⟨"acme", "csr", "timer", none⟩ none).changed
    [.add ⟨"ctrl", 8, .readWrite, 1⟩, .pack .plain]

/-- The artifacts of the map. -/
def singleArtifacts : List Artifact :=
  [⟨"timer.sv", Wrapper.render single⟩, ⟨"timer.vh", Template.render single⟩,
    ⟨"timer.core", (Core.ofMap single "timer.sv" "timer.vh").render⟩]

theorem checkedArtifacts_single : single.checkedArtifacts .plain = .ok singleArtifacts := by
  have hmap : single.Reachable := ⟨_, _, _, rfl⟩
  have hpacked : single.isPacked = true := rfl
  have hartifacts : single.artifacts = .ok _ := if_pos hpacked
  have hne : single.fields ≠ [] := nofun
  rw [(hmap.consistent.packed hpacked).checkedArtifacts_eq hpacked, if_neg hne, hartifacts]
  have hwrapper : single.wrapperName = "timer.sv" := by decide
  have htemplate : single.templateName = "timer.vh" := by decide
  have hdescriptor : single.descriptorName = "timer.core" := by decide
  rw [hwrapper, htemplate, hdescriptor, singleArtifacts]

theorem forall_mem_filesIn_single {p : String → String → Prop}
    (hwrapper : ∀ text, p "out/timer.sv" text) (htemplate : ∀ text, p "out/timer.vh" text)
    (hdescriptor : ∀ text, p "out/timer.core" text) :
    ∀ file ∈ filesIn "out" singleArtifacts, p file.1 file.2 := by
  have hpaths : Path.join "out" "timer.sv" = "out/timer.sv" ∧
      Path.join "out" "timer.vh" = "out/timer.vh" ∧
      Path.join "out" "timer.core" = "out/timer.core" := by decide
  unfold filesIn singleArtifacts
  simp only [List.map_cons, List.map_nil, List.forall_mem_cons, hpaths]
  exact ⟨hwrapper _, htemplate _, hdescriptor _, nofun⟩

/-- Where there is nothing yet, the directory is made and the artifacts are written. -/
theorem faithful_run_empty :
    let files : FileSystem := ⟨[], []⟩
    ((run FileSystem.store .plain single "out").run files).1.failure = none ∧
      Faithful .sound .plain single "out" files
        ((run FileSystem.store .plain single "out").run files).1
        ((run FileSystem.store .plain single "out").run files).2 := by
  intro files
  refine ⟨?_, faithful_run .sound .plain single "out" files⟩
  have hdirectory : (FileSystem.store.makeDirectories "out").run files =
      (.ok (), files.put ["out"] .directory) := rfl
  have hwritable : ∀ file ∈ filesIn "out" singleArtifacts,
      (files.put ["out"] .directory).Writable .sound file.1 file.2 := by
    apply forall_mem_filesIn_single (p := (files.put ["out"] .directory).Writable .sound)
    · intro _
      exact ⟨["out", "timer.sv"], ⟨⟨["out"], "timer.sv", rfl, rfl⟩, rfl, nofun, rfl⟩, rfl⟩
    · intro _
      exact ⟨["out", "timer.vh"], ⟨⟨["out"], "timer.vh", rfl, rfl⟩, rfl, nofun, rfl⟩, rfl⟩
    · intro _
      exact ⟨["out", "timer.core"], ⟨⟨["out"], "timer.core", rfl, rfl⟩, rfl, nofun, rfl⟩, rfl⟩
  rw [failure_eq_none_iff]
  exact ⟨singleArtifacts, files.put ["out"] .directory, checkedArtifacts_single, hdirectory,
    hwritable⟩

end Generation

end RegMap
