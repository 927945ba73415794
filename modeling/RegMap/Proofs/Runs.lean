import RegMap.CommandLine
import RegMap.Proofs.Generation
import RegMap.Proofs.History
import RegMap.Proofs.Loading
import RegMap.Proofs.Quieting

/-!
# Runs of the program

A run loads a configuration, packs its map and generates the artifacts, and it can fail at each
of these steps.

* `CommandLine.Packs` is the map that a run packs.  Accepted configurations always pack, and of
  packed maps only those without fields are refused.
* `CommandLine.Course` follows a run to its end, and `CommandLine.course_runWith` shows that
  there are no other ends.
* `CommandLine.differs_generate` compares two runs of which one is quiet.
* `CommandLine.complete_run` puts them together.
-/

namespace RegMap.CommandLine

open FileSystem (store)

/-! ## Packed maps -/

/-- The map of the configuration in a file, packed. -/
def Packs (palette : Palette) (files : FileSystem) (path : String) (map : RegisterMap) : Prop :=
  ∃ text config, files.readText path = .ok text ∧ Config.ofText palette text = .ok config ∧
    map = (config.toMap.pack palette).1

theorem Packs.unique {palette : Palette} {files : FileSystem} {path : String}
    {map other : RegisterMap} (h : Packs palette files path map)
    (hother : Packs palette files path other) : map = other := by
  obtain ⟨text, config, hread, hconfig, rfl⟩ := h
  obtain ⟨text', config', hread', hconfig', rfl⟩ := hother
  cases hread.symm.trans hread'
  cases hconfig.symm.trans hconfig'
  rfl

/-- Whatever is configured can be packed. -/
theorem pack_toMap {palette : Palette} {text : String} {config : Config}
    (h : Config.ofText palette text = .ok config) (palette' : Palette) :
    (config.toMap.pack palette').2 = .ok () := by
  rw [Config.ofText] at h
  obtain ⟨source, _, hsource⟩ := bind_eq_ok.1 h
  exact (RegisterMap.pack_eq_ok_iff palette' _).2 (Config.packable_of_ofSource hsource)

theorem packedMap_of_ofText {palette : Palette} {text : String} {config : Config}
    (h : Config.ofText palette text = .ok config) :
    packedMap palette text = .ok (config.toMap.pack palette).1 := by
  have hpack := pack_toMap h palette
  rw [packedMap, h]
  dsimp only
  generalize config.toMap.pack palette = packed at hpack ⊢
  obtain ⟨map, outcome⟩ := packed
  cases hpack
  rfl

section

variable {palette : Palette} {files : FileSystem} {path : String} {map : RegisterMap}
  (h : Packs palette files path map)
include h

theorem Packs.isPacked : map.isPacked = true := by
  obtain ⟨text, config, -, hconfig, rfl⟩ := h
  exact (RegisterMap.isPacked_pack_iff palette _).2 (pack_toMap hconfig palette)

theorem Packs.packed : map.Packed := by
  obtain ⟨text, config, -, hconfig, rfl⟩ := h
  exact RegisterMap.packed_pack (pack_toMap hconfig palette)

/-- Nothing is wrong with what was packed, unless there are no fields. -/
theorem Packs.sound : map.Sound palette :=
  h.packed.sound h.isPacked palette

theorem Packs.exists_checkedArtifacts (hne : map.fields ≠ []) :
    ∃ wrapper template descriptor, map.artifacts = .ok [wrapper, template, descriptor] ∧
      map.checkedArtifacts palette = .ok [wrapper, template, descriptor] := by
  have hartifacts : map.artifacts = .ok _ := if_pos h.isPacked
  refine ⟨_, _, _, hartifacts, ?_⟩
  rw [h.sound.checkedArtifacts_eq, if_neg hne, hartifacts]

theorem Packs.fields_eq {text : String} {config : Config} (hread : files.readText path = .ok text)
    (hconfig : Config.ofText palette text = .ok config) : map.fields = config.fields := by
  rw [h.unique ⟨text, config, hread, hconfig, rfl⟩, RegisterMap.fields_pack, Config.fields_toMap]

end

/-- A configuration with fields is one whose packed map has fields. -/
theorem exists_packs_iff {palette : Palette} {files : FileSystem} {path : String} :
    (∃ map, Packs palette files path map ∧ map.fields ≠ []) ↔
      ∃ text config, files.readText path = .ok text ∧ Config.ofText palette text = .ok config ∧
        config.fields ≠ [] := by
  constructor
  · rintro ⟨map, hmap, hne⟩
    have ⟨text, config, hread, hconfig, _⟩ := hmap
    rw [hmap.fields_eq hread hconfig] at hne
    exact ⟨text, config, hread, hconfig, hne⟩
  · rintro ⟨text, config, hread, hconfig, hne⟩
    have hmap : Packs palette files path (config.toMap.pack palette).1 :=
      ⟨text, config, hread, hconfig, rfl⟩
    rw [← hmap.fields_eq hread hconfig] at hne
    exact ⟨_, hmap, hne⟩

/-! ## The course of a run -/

/-- How a run ends, and what it leaves then. -/
inductive Course (device : Device) (palette : Palette) (arguments : Arguments)
    (before : FileSystem) : Outcome → FileSystem → Prop where
  | unreadable {error} (hread : before.readText arguments.config = .error error) :
      Course device palette arguments before
        (failed palette "" "" (.unreadable arguments.config error)) before
  | refused {text refusal} (hread : before.readText arguments.config = .ok text)
      (hrefusal : Config.ofText palette text = .error refusal) :
      Course device palette arguments before (failed palette "" "" (.config refusal)) before
  | doubtful {map} (hmap : Packs palette before arguments.config map) (hnil : map.fields = []) :
      Course device palette arguments before
        (failed palette (listing arguments.quiet map) (verdict palette (map.validate palette))
          .doubtful) before
  | hindered {map generation after failure} (hmap : Packs palette before arguments.config map)
      (hne : map.fields ≠ [])
      (hrun : (Generation.run (store device) palette map arguments.outDirectory).run before =
        (generation, after)) (hfailure : generation.failure = some failure) :
      Course device palette arguments before
        (failed palette (listing arguments.quiet map) (verdict palette (map.validate palette))
          (.generation failure)) after
  | finished {map generation after} (hmap : Packs palette before arguments.config map)
      (hne : map.fields ≠ [])
      (hrun : (Generation.run (store device) palette map arguments.outDirectory).run before =
        (generation, after)) (hnone : generation.failure = none) :
      Course device palette arguments before
        ⟨0, listing arguments.quiet map ++
          summary palette map [map.wrapperName, map.templateName, map.descriptorName],
          verdict palette (map.validate palette)⟩ after

theorem run_generate (device : Device) (palette : Palette) (arguments : Arguments)
    (map : RegisterMap) (files : FileSystem) :
    (generate (store device) palette arguments map).run files =
      if (map.validate palette).isEmpty then
        let (generation, after) :=
          (Generation.run (store device) palette map arguments.outDirectory).run files
        match generation.failure with
        | some failure =>
          (failed palette (listing arguments.quiet map) (verdict palette (map.validate palette))
            (.generation failure), after)
        | none =>
          (⟨0, listing arguments.quiet map ++
            summary palette map [map.wrapperName, map.templateName, map.descriptorName],
            verdict palette (map.validate palette)⟩, after)
      else
        (failed palette (listing arguments.quiet map) (verdict palette (map.validate palette))
          .doubtful, files) := by
  rw [generate]
  cases (map.validate palette).isEmpty with
  | false => rfl
  | true =>
    simp only [Bool.not_true, Bool.false_eq_true, if_false, if_true, FileSystem.run_bind]
    generalize (Generation.run (store device) palette map arguments.outDirectory).run files = run
    obtain ⟨generation, after⟩ := run
    dsimp only
    cases generation.failure <;> rfl

theorem run_runWith (device : Device) (palette : Palette) (arguments : Arguments)
    (files : FileSystem) :
    (runWith (store device) palette arguments).run files =
      match files.readText arguments.config with
      | .error error => (failed palette "" "" (.unreadable arguments.config error), files)
      | .ok text =>
        match packedMap palette text with
        | .error failure => (failed palette "" "" failure, files)
        | .ok map => (generate (store device) palette arguments map).run files := by
  have hread : ((store device).readText arguments.config).run files =
      (files.readText arguments.config, files) := rfl
  rw [runWith, FileSystem.run_bind, hread]
  dsimp only
  cases files.readText arguments.config with
  | error error => rfl
  | ok text =>
    dsimp only
    cases packedMap palette text <;> rfl

theorem course_runWith (device : Device) (palette : Palette) (arguments : Arguments)
    (files : FileSystem) :
    Course device palette arguments files ((runWith (store device) palette arguments).run files).1
      ((runWith (store device) palette arguments).run files).2 := by
  rw [run_runWith]
  cases hread : files.readText arguments.config with
  | error error => exact .unreadable hread
  | ok text =>
    dsimp only
    cases hconfig : Config.ofText palette text with
    | error refusal =>
      rw [packedMap, hconfig]
      exact .refused hread hconfig
    | ok config =>
      have hmap : Packs palette files arguments.config (config.toMap.pack palette).1 :=
        ⟨text, config, hread, hconfig, rfl⟩
      rw [packedMap_of_ofText hconfig]
      dsimp only
      rw [run_generate]
      split
      · rename_i hempty
        have hne := hmap.sound.isEmpty_validate.1 hempty
        cases hrun : (Generation.run (store device) palette (config.toMap.pack palette).1
          arguments.outDirectory).run files with
        | mk generation after =>
          dsimp only
          cases hfailure : generation.failure with
          | none => exact .finished hmap hne hrun hfailure
          | some failure => exact .hindered hmap hne hrun hfailure
      · rename_i hfound
        exact .doubtful hmap (not_not.1 fun hne => hfound (hmap.sound.isEmpty_validate.2 hne))

/-! ## Ends -/

/-- If it comes to writing, the directory can be made and the artifacts can be written. -/
def Unhindered (device : Device) (palette : Palette) (arguments : Arguments)
    (files : FileSystem) : Prop :=
  ∀ map artifacts, Packs palette files arguments.config map →
    map.checkedArtifacts palette = .ok artifacts →
      ∃ made, ((store device).makeDirectories arguments.outDirectory).run files = (.ok (), made) ∧
        ∀ file ∈ Generation.filesIn arguments.outDirectory artifacts,
          made.Writable device file.1 file.2

variable {device : Device} {palette : Palette} {arguments : Arguments}
  {before after : FileSystem}

/-- Where nothing hinders it, a map that has fields is generated. -/
theorem Unhindered.failure_eq_none (h : Unhindered device palette arguments before)
    {map : RegisterMap} (hmap : Packs palette before arguments.config map) (hne : map.fields ≠ [])
    {generation : Generation}
    (hrun : (Generation.run (store device) palette map arguments.outDirectory).run before =
      (generation, after)) : generation.failure = none := by
  obtain ⟨_, _, _, -, hchecked⟩ := hmap.exists_checkedArtifacts hne
  obtain ⟨made, hmade, hwritable⟩ := h map _ hmap hchecked
  have hnone := (Generation.failure_eq_none_iff device palette map arguments.outDirectory before).2
    ⟨_, made, hchecked, hmade, hwritable⟩
  rwa [hrun] at hnone

/-- A map that was generated was not hindered. -/
theorem unhindered_of_failure_eq_none {map : RegisterMap}
    (hmap : Packs palette before arguments.config map) {generation : Generation}
    (hrun : (Generation.run (store device) palette map arguments.outDirectory).run before =
      (generation, after)) (hnone : generation.failure = none) :
    Unhindered device palette arguments before := by
  intro other artifacts hother hchecked
  cases hmap.unique hother
  have hfailure : ((Generation.run (store device) palette map arguments.outDirectory).run
      before).1.failure = none := by rw [hrun, hnone]
  obtain ⟨artifacts', made, hchecked', hmade, hwritable⟩ :=
    (Generation.failure_eq_none_iff device palette map arguments.outDirectory before).1 hfailure
  cases hchecked.symm.trans hchecked'
  exact ⟨made, hmade, hwritable⟩

namespace Course

variable {outcome : Outcome} (h : Course device palette arguments before outcome after)
include h

theorem exitCode_eq_zero_iff :
    outcome.exitCode = 0 ↔ Unhindered device palette arguments before ∧
      ∃ map, Packs palette before arguments.config map ∧ map.fields ≠ [] := by
  have hfailed (output errors : String) (failure : Failure) :
      (failed palette output errors failure).exitCode ≠ 0 := by
    change (1 : UInt8) ≠ 0
    decide
  cases h with
  | unreadable hread =>
    refine iff_of_false (hfailed _ _ _) ?_
    rintro ⟨-, map, ⟨text, config, hread', -⟩, -⟩
    cases hread.symm.trans hread'
  | refused hread hrefusal =>
    refine iff_of_false (hfailed _ _ _) ?_
    rintro ⟨-, map, ⟨text, config, hread', hconfig, -⟩, -⟩
    cases hread.symm.trans hread'
    cases hrefusal.symm.trans hconfig
  | doubtful hmap hnil =>
    refine iff_of_false (hfailed _ _ _) ?_
    rintro ⟨-, other, hother, hne⟩
    exact hne (hother.unique hmap ▸ hnil)
  | hindered hmap hne hrun hfailure =>
    refine iff_of_false (hfailed _ _ _) ?_
    rintro ⟨hfree, -⟩
    rw [hfree.failure_eq_none hmap hne hrun] at hfailure
    cases hfailure
  | finished hmap hne hrun hnone =>
    exact iff_of_true rfl ⟨unhindered_of_failure_eq_none hmap hrun hnone, _, hmap, hne⟩

theorem leaves (hzero : outcome.exitCode = 0) :
    ∃ map wrapper template descriptor, Packs palette before arguments.config map ∧
      map.artifacts = .ok [wrapper, template, descriptor] ∧
      Generation.Leaves arguments.outDirectory [wrapper, template, descriptor] before after := by
  cases h with
  | @finished map generation _ hmap hne hrun hnone =>
    have hends := Generation.ends_run device palette map arguments.outDirectory before
    rw [hrun] at hends
    obtain ⟨artifacts, made, hwritten, hmade, hsaves, -⟩ := hends.of_failure_eq_none hnone
    obtain ⟨wrapper, template, descriptor, hartifacts, hchecked⟩ :=
      hmap.exists_checkedArtifacts hne
    cases hwritten.symm.trans hchecked
    exact ⟨map, wrapper, template, descriptor, hmap, hartifacts,
      Generation.leaves_of_saves (FileSystem.makes_of_makeDirectories hmade) hsaves⟩
  | _ => cases hzero

theorem eq_of_ne_zero (hne : outcome.exitCode ≠ 0)
    (hfree : Unhindered device palette arguments before) : after = before := by
  cases h with
  | unreadable => rfl
  | refused => rfl
  | doubtful => rfl
  | hindered hmap hfields hrun hfailure =>
    rw [hfree.failure_eq_none hmap hfields hrun] at hfailure
    cases hfailure
  | finished => exact absurd rfl hne

end Course

/-! ## Quiet runs -/

/-- A quiet run does what a loud one does, but that it leaves out what the loud one shows
first. -/
structure Differs (shown : String) (loud silent : Outcome × FileSystem) : Prop where
  exitCode_eq : silent.1.exitCode = loud.1.exitCode
  errors_eq : silent.1.errors = loud.1.errors
  files_eq : silent.2 = loud.2
  output_eq : loud.1.output = shown ++ silent.1.output

theorem differs_generate (device : Device) (palette : Palette) (arguments : Arguments)
    (map : RegisterMap) (files : FileSystem) :
    Differs (Listing.render map ++ rule)
      ((generate (store device) palette { arguments with quiet := false } map).run files)
      ((generate (store device) palette { arguments with quiet := true } map).run files) := by
  have hloud : listing false map = Listing.render map ++ rule := rfl
  have hsilent : listing true map = "" := rfl
  rw [run_generate, run_generate, hloud, hsilent]
  split
  · generalize (Generation.run (store device) palette map arguments.outDirectory).run files = run
    obtain ⟨generation, after⟩ := run
    dsimp only
    cases generation.failure with
    | none => exact ⟨rfl, rfl, rfl, by rw [String.empty_append, String.append_assoc]⟩
    | some failure => exact ⟨rfl, rfl, rfl, String.append_empty.symm⟩
  · exact ⟨rfl, rfl, rfl, String.append_empty.symm⟩

theorem differs_runWith_of_packs {map : RegisterMap}
    (h : Packs palette before arguments.config map) :
    Differs (Listing.render map ++ rule)
      ((runWith (store device) palette { arguments with quiet := false }).run before)
      ((runWith (store device) palette { arguments with quiet := true }).run before) := by
  obtain ⟨text, config, hread, hconfig, rfl⟩ := h
  simp only [run_runWith, hread, packedMap_of_ofText hconfig]
  exact differs_generate device palette arguments _ before

theorem differs_runWith_of_not_packs (h : ∀ map, ¬Packs palette before arguments.config map) :
    Differs ""
      ((runWith (store device) palette { arguments with quiet := false }).run before)
      ((runWith (store device) palette { arguments with quiet := true }).run before) := by
  rw [run_runWith, run_runWith]
  dsimp only
  cases hread : before.readText arguments.config with
  | error error => exact ⟨rfl, rfl, rfl, String.empty_append.symm⟩
  | ok text =>
    cases hconfig : Config.ofText palette text with
    | error refusal =>
      dsimp only
      rw [packedMap, hconfig]
      exact ⟨rfl, rfl, rfl, String.empty_append.symm⟩
    | ok config => exact absurd ⟨text, config, hread, hconfig, rfl⟩ (h _)

/-! ## The whole program -/

/-- What a run does: it succeeds exactly for configurations with fields, if it is not hindered,
and leaves their artifacts; else it leaves no trace. -/
structure Complete (device : Device) (palette : Palette) (given : List String)
    (arguments : Arguments) (before : FileSystem) (outcome : Outcome) (after : FileSystem) :
    Prop where
  exitCode_eq_zero_iff : outcome.exitCode = 0 ↔ Unhindered device palette arguments before ∧
    ∃ text config, before.readText arguments.config = .ok text ∧
      Config.ofText palette text = .ok config ∧ config.fields ≠ []
  leaves : outcome.exitCode = 0 →
    ∃ map wrapper template descriptor, Packs palette before arguments.config map ∧
      map.artifacts = .ok [wrapper, template, descriptor] ∧
      Generation.Leaves arguments.outDirectory [wrapper, template, descriptor] before after
  unchanged : outcome.exitCode ≠ 0 → Unhindered device palette arguments before → after = before
  /-- The same list with the option for a quiet run is accepted too. -/
  read_eq : arguments.quiet = false → ∀ others, Arguments.Hushes given others →
    Arguments.read others = .ok { arguments with quiet := true }
  /-- All that a quiet run leaves out is the listing.  Where nothing can be packed, nothing is
  shown. -/
  quiet : arguments.quiet = false → ∀ others,
    Arguments.Hushes given others ∨
      Arguments.read others = .ok { arguments with quiet := true } →
    (∀ map, Packs palette before arguments.config map →
      Differs (Listing.render map ++ rule) (outcome, after)
        ((run (store device) palette others).run before)) ∧
    ((∀ map, ¬Packs palette before arguments.config map) →
      Differs "" (outcome, after) ((run (store device) palette others).run before))

theorem run_of_read {arguments : List String} {parsed : Arguments}
    (h : Arguments.read arguments = .ok parsed) (palette : Palette) :
    run (store device) palette arguments =
      runWith (store device) palette parsed := by
  rw [run, h]

theorem complete_run {arguments : List String} {parsed : Arguments}
    (h : Arguments.read arguments = .ok parsed) (device : Device) (palette : Palette)
    (files : FileSystem) :
    Complete device palette arguments parsed files
      ((run (store device) palette arguments).run files).1
      ((run (store device) palette arguments).run files).2 := by
  have hcourse := course_runWith device palette parsed files
  have hhushes : parsed.quiet = false → ∀ others, Arguments.Hushes arguments others →
      Arguments.read others = .ok { parsed with quiet := true } := by
    intro hloud others hothers
    exact Arguments.read_of_hushes hothers h hloud
  rw [run_of_read h]
  refine ⟨?exitCode, hcourse.leaves, hcourse.eq_of_ne_zero, hhushes, ?quiet⟩
  case exitCode =>
    rw [hcourse.exitCode_eq_zero_iff, exists_packs_iff]
  case quiet =>
    intro hloud others hothers
    have hparsed : parsed = { parsed with quiet := false } := by rw [← hloud]
    have hread : Arguments.read others = .ok { parsed with quiet := true } := by
      cases hothers with
      | inl hothers => exact hhushes hloud others hothers
      | inr hothers => exact hothers
    rw [run_of_read hread, hparsed]
    exact ⟨fun map => differs_runWith_of_packs, differs_runWith_of_not_packs⟩

/-- A relative directory that is made with the one that it is in, by a loud run and by a quiet
one. -/
theorem complete_run_timer :
    let arguments := ["timer.yml", "--out-dir=out/csr"]
    let others := ["timer.yml", "-q", "--out-dir=out/csr"]
    let parsed : Arguments := ⟨"timer.yml", "out/csr", false⟩
    let text := "vlnv: a:b:timer-1\nparameters: \x7binstance: ~, registers: \x7birq: ~\x7d\x7d\n"
    let files : FileSystem :=
      ⟨["home"], [(["home"], .directory), (["home", "timer.yml"], .file text.toUTF8)]⟩
    let loud := (run store .plain arguments).run files
    let silent := (run store .plain others).run files
    Arguments.read arguments = .ok parsed ∧ Arguments.Hushes arguments others ∧
      loud.1.exitCode = 0 ∧ silent.1.exitCode = 0 ∧
      Arguments.read others = .ok { parsed with quiet := true } ∧
      Complete .sound .plain arguments parsed files loud.1 loud.2 := by
  intro arguments others parsed text files loud silent
  have hread : Arguments.read arguments = .ok parsed := by rfl
  have hfront : Arguments.readFrom .nothing {} ["timer.yml"] =
      .ok { config := some "timer.yml" } := by rfl
  have hothers : Arguments.Hushes arguments others := .inserted hfront (by decide) (.inl rfl)
  have hzero : loud.1.exitCode = 0 := by decide +kernel
  have hcomplete := complete_run hread .sound .plain files
  have hpacks : ∃ map, Packs .plain files "timer.yml" map := by
    obtain ⟨map, _, _, _, hmap, -⟩ := hcomplete.leaves hzero
    exact ⟨map, hmap⟩
  obtain ⟨map, hmap⟩ := hpacks
  have hdiffers := (hcomplete.quiet rfl others (.inl hothers)).1 map hmap
  exact ⟨hread, hothers, hzero, hdiffers.exitCode_eq.trans hzero,
    hcomplete.read_eq rfl others hothers, hcomplete⟩

end RegMap.CommandLine
