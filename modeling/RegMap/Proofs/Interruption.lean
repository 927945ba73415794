import RegMap.Proofs.Generation

/-!
# Generations that fail

The artifacts of a map are written one after the other.  When one of them cannot be written,
those before it are complete and stay, and its own file may hold no more than the beginning of
its text.  Nothing else has changed.

* `Generation.Unmade` and `Generation.Halts` say what is left when the directory could not be
  made, and when an artifact could not be written.
* `Generation.interrupted_run` says so for all maps, directories, file systems and devices.
* `Generation.not_allOrNothing_run_blocked`: a directory in the place of the second file makes
  the first file one that was not there before.
-/

namespace RegMap.Generation

variable {device : Device}

/-! ## What is left -/

/-- The directory could not be made.  Some of those that it is in may have been, and the files are
what they were. -/
structure Unmade (directory : String) (before : FileSystem) (generation : Generation)
    (after : FileSystem) : Prop where
  written_eq : generation.written = []
  leaves : Leaves directory [] before after
  file_iff : ∀ place content,
    after.find? place = some (.file content) ↔ before.find? place = some (.file content)

/-- An artifact could not be written.  Those before it are complete.  Elsewhere nothing has
changed, but that the directory and those that it is in may have been made, and that the file of
the artifact may hold the beginning of the text, if the device stopped in between. -/
structure Halts (device : Device) (directory : String) (done : List Artifact) (artifact : Artifact)
    (error : FileError) (before after : FileSystem) : Prop where
  workingDirectory_eq : after.workingDirectory = before.workingDirectory
  content?_eq : ∀ other ∈ done,
    after.content? (Path.join directory other.name) = some other.text.toUTF8
  elsewhere : ∀ place, (∀ path ∈ pathsIn directory done, after.place path ≠ .ok place) →
    after.find? place = before.find? place ∨
      (before.find? place = none ∧ after.find? place = some .directory ∧
        ∃ path ∈ Path.ancestors directory, after.place path = .ok place) ∨
      after.Broken device (Path.join directory artifact.name) artifact.text error place
  /-- Its own file could not be opened, and is what it was, or it holds the beginning of the
  text. -/
  own : (after.target device (Path.join directory artifact.name) = .error error ∧
      ∀ place, ¬after.Broken device (Path.join directory artifact.name) artifact.text error place) ∨
    ∃ place, after.Broken device (Path.join directory artifact.name) artifact.text error place
  /-- If it was the first artifact, all other files are what they were. -/
  file_iff : done = [] → ∀ place content,
    ¬after.Broken device (Path.join directory artifact.name) artifact.text error place →
      (after.find? place = some (.file content) ↔ before.find? place = some (.file content))

/-- What a generation that failed has left.  There is no way back: what was written before the
failure stays. -/
structure Interrupted (device : Device) (map : RegisterMap) (directory : String)
    (before : FileSystem) (generation : Generation) (after : FileSystem) : Prop where
  refused : ∀ refusal, generation.failure = some (.refused refusal) →
    generation.written = [] ∧ after = before
  /-- The directory could not be made, or the first artifact that is missing not written. -/
  unwritable : ∀ path error, generation.failure = some (.unwritable path error) →
    path = directory ∧ Unmade directory before generation after ∨
      ∃ done artifact rest, map.artifacts = .ok (done ++ artifact :: rest) ∧
        path = Path.join directory artifact.name ∧ generation.written = pathsIn directory done ∧
          Halts device directory done artifact error before after

theorem unmade_of_makes {directory : String} {before after : FileSystem}
    (h : FileSystem.Makes (Path.ancestors directory) before after) (error : FileError) :
    Unmade directory before ⟨[], some (.unwritable directory error)⟩ after := by
  have hnothing : FileSystem.Saves .sound (filesIn directory []) after after := .refl after
  have hleaves := leaves_of_saves h hnothing
  exact ⟨rfl, hleaves, hleaves.file_iff⟩

theorem halts_of_spoils {directory : String} {done : List Artifact} {artifact : Artifact}
    {error : FileError} {before made between after : FileSystem}
    (hnames : ∀ other ∈ done, Path.lastName? (Path.join directory other.name) ≠
      Path.lastName? (Path.join directory artifact.name))
    (hmakes : FileSystem.Makes (Path.ancestors directory) before made)
    (hsaves : FileSystem.Saves device (filesIn directory done) made between)
    (hspoils : FileSystem.Spoils device (Path.join directory artifact.name) artifact.text error
      between after) :
    Halts device directory done artifact error before after := by
  have hleaves := leaves_of_saves hmakes hsaves
  have halters := hspoils.alters
  have helsewhere : ∀ place, (∀ path ∈ pathsIn directory done, after.place path ≠ .ok place) →
      after.find? place = before.find? place ∨
        (before.find? place = none ∧ after.find? place = some .directory ∧
          ∃ path ∈ Path.ancestors directory, after.place path = .ok place) ∨
        after.Broken device (Path.join directory artifact.name) artifact.text error place := by
    intro place hplace
    rcases hspoils.find?_eq_or_broken place with hsame | hbroken
    · have hbetween : ∀ path ∈ pathsIn directory done, between.place path ≠ .ok place :=
        fun path hpath heq => hplace path hpath (halters.keeps.place heq)
      rw [hsame]
      rcases hleaves.elsewhere place hbetween with heq | ⟨hnone, hmade, path, hpath, hlocates⟩
      · exact .inl heq
      · exact .inr (.inl ⟨hnone, hmade, path, hpath, halters.keeps.place hlocates⟩)
    · exact .inr (.inr hbroken)
  refine ⟨halters.workingDirectory_eq.trans hleaves.workingDirectory_eq, ?_, helsewhere,
    hspoils.unopened_or_broken, ?_⟩
  · intro other hother
    have hstores := hsaves.stores _ (List.mem_map_of_mem hother)
    have hlater : after.Stores (Path.join directory other.name) other.text := by
      apply halters.stores_of_stores hstores
      intro path hpath
      rw [List.mem_singleton.1 hpath]
      exact hnames other hother
    exact hlater.content?_eq
  · intro hnil place content hwhole
    subst hnil
    rcases helsewhere place nofun with heq | ⟨hnone, hmade, -⟩ | hbroken
    · rw [heq]
    · rw [hnone, hmade]
      constructor <;> nofun
    · exact absurd hbroken hwhole

theorem Ends.interrupted {palette : Palette} {map : RegisterMap} {directory : String}
    {before after : FileSystem} {generation : Generation}
    (h : Ends device palette map directory before generation after)
    (hsome : generation.failure ≠ none) :
    Interrupted device map directory before generation after := by
  cases h with
  | refused => exact ⟨fun _ _ => ⟨rfl, rfl⟩, nofun⟩
  | @noDirectory artifacts _ reason hchecked hmade =>
    refine ⟨nofun, ?_⟩
    rintro _ _ ⟨⟩
    exact .inl ⟨rfl, unmade_of_makes (FileSystem.makes_of_makeDirectories hmade) reason⟩
  | @wrote artifacts made _ _ hchecked hmade hwrites =>
    obtain ⟨-, -, hartifacts⟩ := RegisterMap.checkedArtifacts_eq_ok_iff.1 hchecked
    cases hwrites with
    | finished => exact absurd rfl hsome
    | @stopped between _ done artifact rest reason hdone hsaves hspoils =>
      have hnames := RegisterMap.pairwise_lastName?_artifacts hartifacts directory
      rw [hdone, List.pairwise_append] at hnames
      have hhalts := halts_of_spoils
        (fun other hother => hnames.2.2 other hother artifact List.mem_cons_self)
        (FileSystem.makes_of_makeDirectories hmade) hsaves hspoils
      refine ⟨nofun, ?_⟩
      rintro _ _ ⟨⟩
      exact .inr ⟨done, artifact, rest, hdone ▸ hartifacts, rfl, rfl, hhalts⟩

/-- Whatever the device and wherever a generation stops, this is what it leaves. -/
theorem interrupted_run (device : Device) (palette : Palette) (map : RegisterMap)
    (directory : String) (before : FileSystem)
    (h : ((run (FileSystem.store device) palette map directory).run before).1.failure ≠ none) :
    Interrupted device map directory before
      ((run (FileSystem.store device) palette map directory).run before).1
      ((run (FileSystem.store device) palette map directory).run before).2 :=
  (ends_run device palette map directory before).interrupted h

/-- A run that writes the wrapper of the map with one field, and then cannot write the template. -/
theorem run_single_of_stopped {before between after : FileSystem} {reason : FileError}
    (hdirectory : ((FileSystem.store device).makeDirectories "out").run before = (.ok (), before))
    (hwrapper : before.write device "out/timer.sv" (Wrapper.render single) = (.ok (), between))
    (htemplate : between.write device "out/timer.vh" (Template.render single) =
      (.error reason, after)) :
    (run (FileSystem.store device) .plain single "out").run before =
      (⟨["out/timer.sv"], some (.unwritable "out/timer.vh" reason)⟩, after) := by
  have hpaths : Path.join "out" "timer.sv" = "out/timer.sv" ∧
      Path.join "out" "timer.vh" = "out/timer.vh" := by decide
  rw [run_of_checked device checkedArtifacts_single, hdirectory, singleArtifacts]
  simp only [run_writeAll_cons, hpaths, hwrapper, htemplate]

/-! ## A device that is full -/

/-- What is told when nothing fits any more. -/
def noSpace : FileError :=
  .other "No space left on device (os error 28)"

/-- A device with room for five octets of the second file. -/
def crowded : Device where
  makeFault? _ := none
  openFault? _ := none
  writeFault? place _ := if place = ["out", "timer.vh"] then some (5, noSpace) else none

/-- The wrapper is complete when the template cannot be, whose old content is lost. -/
theorem interrupted_run_crowded :
    let before : FileSystem :=
      ⟨[], [(["out"], .directory), (["out", "timer.vh"], .file "// kept".toUTF8)]⟩
    let left := (run (FileSystem.store crowded) .plain single "out").run before
    left.1 = ⟨["out/timer.sv"], some (.unwritable "out/timer.vh" noSpace)⟩ ∧
      left.2.find? ["out", "timer.vh"] =
        some (.file ((Template.render single).toUTF8.extract 0 5)) ∧
      Interrupted crowded single "out" before left.1 left.2 := by
  intro before left
  have hdirectory : ((FileSystem.store crowded).makeDirectories "out").run before =
      (.ok (), before) := rfl
  have hwrapper : ∀ text, before.write crowded "out/timer.sv" text =
      (.ok (), before.put ["out", "timer.sv"] (.file text.toUTF8)) := fun _ => rfl
  have htemplate : ∀ content text,
      (before.put ["out", "timer.sv"] (.file content)).write crowded "out/timer.vh" text =
        (.error noSpace, (before.put ["out", "timer.sv"] (.file content)).put
          ["out", "timer.vh"] (.file (text.toUTF8.extract 0 5))) := fun _ _ => rfl
  have hleft : left = (⟨["out/timer.sv"], some (.unwritable "out/timer.vh" noSpace)⟩,
      (before.put ["out", "timer.sv"] (.file (Wrapper.render single).toUTF8)).put
        ["out", "timer.vh"] (.file ((Template.render single).toUTF8.extract 0 5))) :=
    run_single_of_stopped hdirectory (hwrapper _) (htemplate _ _)
  have hfailed : left.1.failure ≠ none := by
    rw [hleft]
    exact Option.some_ne_none _
  refine ⟨by rw [hleft], ?_, interrupted_run crowded .plain single "out" before hfailed⟩
  rw [hleft]
  exact FileSystem.find?_put_self _ _ (List.cons_ne_nil _ _)

/-! ## A directory in the way -/

/-- A file system with a directory in the place of the second file. -/
def blocked : FileSystem :=
  ⟨[], [(["out"], .directory), (["out", "timer.vh"], .directory)]⟩

theorem run_blocked :
    (run FileSystem.store .plain single "out").run blocked =
      (⟨["out/timer.sv"], some (.unwritable "out/timer.vh" .isDirectory)⟩,
        blocked.put ["out", "timer.sv"] (.file (Wrapper.render single).toUTF8)) := by
  have hdirectory : (FileSystem.store.makeDirectories "out").run blocked = (.ok (), blocked) := rfl
  have hwrapper : ∀ text, blocked.write .sound "out/timer.sv" text =
      (.ok (), blocked.put ["out", "timer.sv"] (.file text.toUTF8)) := fun _ => rfl
  have htemplate : ∀ entry text, (blocked.put ["out", "timer.sv"] entry).write .sound
      "out/timer.vh" text =
        (.error .isDirectory, blocked.put ["out", "timer.sv"] entry) := fun _ _ => rfl
  exact run_single_of_stopped hdirectory (hwrapper _) (htemplate _ _)

/-- A generation that fails leaves all files as they were, and no more in its directory. -/
def AllOrNothing (directory : String) (before : FileSystem) (generation : Generation)
    (after : FileSystem) : Prop :=
  generation.failure ≠ none →
    (∀ place content, before.find? place = some (.file content) →
      after.find? place = some (.file content)) ∧
    ∀ inside place content, after.place directory = .ok inside → inside <+: place →
      after.find? place = some (.file content) → ∃ old, before.find? place = some (.file old)

/-- The wrapper stays when the template cannot be written. -/
theorem not_allOrNothing_run_blocked :
    ¬AllOrNothing "out" blocked
      ((run FileSystem.store .plain single "out").run blocked).1
      ((run FileSystem.store .plain single "out").run blocked).2 := by
  rw [run_blocked]
  intro h
  obtain ⟨-, hnew⟩ := h nofun
  have hplace : ["out", "timer.sv"] ≠ [] := nofun
  have hstored := blocked.find?_put_self (.file (Wrapper.render single).toUTF8) hplace
  have hinside : ∀ content,
      (blocked.put ["out", "timer.sv"] (.file content)).place "out" = .ok ["out"] :=
    fun _ => rfl
  obtain ⟨old, hold⟩ := hnew ["out"] _ _ (hinside _) ⟨["timer.sv"], rfl⟩ hstored
  have hnone : blocked.find? ["out", "timer.sv"] = none := rfl
  exact nomatch hnone.symm.trans hold

end RegMap.Generation
