import RegMap.Proofs.Descriptors
import RegMap.Proofs.Generation

/-!
# Artifacts stay in their directory

The files of the artifacts are named after the core, whose identifier anyone may choose.

* `Path.PlainName` are the names that lead into a directory and no further: joined with a
  directory they are its children (`Path.isChild_join`), and a file system finds them nowhere
  but there (`FileSystem.leadsInto_of_place`).
* `RegisterMap.render_ofMap`: the text of the descriptor.
* `RegisterMap.separate_artifacts`: the names of the three artifacts are plain and different,
  and the descriptor lists the other two.
-/

namespace RegMap

/-! ## Paths of names -/

namespace Path

/-- A name that leads into a directory and no further. -/
structure PlainName (name : String) : Prop where
  ne_empty : name ≠ ""
  ne_dot : name ≠ "."
  ne_dots : name ≠ ".."
  slash_notMem : '/' ∉ name.toList
  backslash_notMem : '\\' ∉ name.toList

/-- A path of a name in a directory. -/
structure IsChild (directory name path : String) : Prop where
  isAbsolute_eq : isAbsolute path = isAbsolute directory
  components_eq : components path = components directory ++ [name]

theorem PlainName.isAbsolute_eq {name : String} (h : PlainName name) : isAbsolute name = false :=
  decide_eq_false fun hhead => h.slash_notMem (List.mem_of_head? hhead)

/-- A plain name is only put behind its directory. -/
theorem join_of_plainName {name : String} (h : PlainName name) (directory : String) :
    join directory name =
      if directory = "" || endsInSlash directory then directory ++ name
      else directory ++ "/" ++ name := by
  rw [join, h.isAbsolute_eq]
  rfl

theorem segments_append_slash (left right : String) :
    segments (left ++ "/" ++ right) = segments left ++ segments right := by
  have htext : (left ++ "/" ++ right).toList = left.toList ++ '/' :: right.toList := by simp
  rw [segments, htext, Text.segments_append_cons, List.map_append]
  rfl

theorem segments_of_notMem {name : String} (h : '/' ∉ name.toList) : segments name = [name] := by
  rw [segments, Text.segments_of_notMem h, List.map_singleton, String.ofList_toList]

/-- The segments of a joined path are those of the directory, but for an empty last one, and
the name. -/
theorem exists_segments_join {name : String} (h : PlainName name) (directory : String) :
    ∃ front, segments (join directory name) = front ++ [name] ∧
      (segments directory = front ∨ segments directory = front ++ [""]) := by
  have hname := segments_of_notMem h.slash_notMem
  rw [join_of_plainName h]
  by_cases hempty : directory = ""
  · refine ⟨[], ?_, .inr (by rw [hempty]; rfl)⟩
    simp [hempty, hname]
  by_cases hslash : endsInSlash directory = true
  · obtain ⟨front, hfront⟩ : ∃ front, directory = front ++ "/" := by
      obtain ⟨front, hfront⟩ := List.getLast?_eq_some_iff.1 (of_decide_eq_true hslash)
      refine ⟨String.ofList front, ?_⟩
      rw [← String.toList_inj, hfront]
      simp
    refine ⟨segments front, ?_, .inr ?_⟩
    · rw [if_pos (by simp [hslash]), hfront, segments_append_slash, hname]
    · have hend : directory = front ++ "/" ++ "" := by simp [hfront]
      rw [hend, segments_append_slash]
      rfl
  · refine ⟨segments directory, ?_, .inl rfl⟩
    rw [if_neg (by simp [hempty, hslash]), segments_append_slash, hname]

theorem segments_ne_nil (path : String) : segments path ≠ [] := by
  simp [segments, Text.segments_ne_nil]

theorem names_join {name : String} (h : PlainName name) (directory : String) :
    names (join directory name) = names directory ++ [name] := by
  obtain ⟨front, hjoin, hdirectory⟩ := exists_segments_join h directory
  rcases hdirectory with hdirectory | hdirectory <;>
    simp [names, hjoin, hdirectory, h.ne_empty]

theorem exists_join_eq_append {name : String} (h : PlainName name) (directory : String) :
    ∃ more, join directory name = directory ++ more := by
  rw [join_of_plainName h]
  split
  · exact ⟨name, rfl⟩
  · exact ⟨"/" ++ name, String.append_assoc⟩

theorem isAbsolute_join {name : String} (h : PlainName name) (directory : String) :
    isAbsolute (join directory name) = isAbsolute directory := by
  by_cases hempty : directory = ""
  · simp only [join_of_plainName h, hempty, decide_true, Bool.true_or, if_true,
      String.empty_append, h.isAbsolute_eq]
    rfl
  · obtain ⟨more, hjoin⟩ := exists_join_eq_append h directory
    have hne : directory.toList ≠ [] := by simpa using hempty
    rw [isAbsolute, isAbsolute, hjoin, String.toList_append, List.head?_append_of_ne_nil _ hne]

/-- Whether a name counts that is not the first of its path. -/
def counts (name : String) : Bool :=
  name ≠ "" && name ≠ "."

theorem components_of_segments {path first : String} {rest : List String}
    (h : segments path = first :: rest) :
    components path = [first].filter (· ≠ "") ++ rest.filter counts := by
  rw [components, h]
  split
  · rename_i heq
    cases heq
    rfl
  · rename_i hdot
    have hfirst : first ≠ "." := fun heq => hdot rest (by rw [heq])
    have hcounts : counts = fun name => name ≠ "" && name ≠ "." := rfl
    by_cases hempty : first = "" <;> simp [hempty, hfirst, hcounts]

theorem components_join {name : String} (h : PlainName name) (directory : String) :
    components (join directory name) = components directory ++ [name] := by
  have hname : counts name = true := by simp [counts, h.ne_empty, h.ne_dot]
  have hlast : counts "" = false := by decide
  obtain ⟨front, hjoin, hdirectory⟩ := exists_segments_join h directory
  cases front with
  | nil =>
    have hempty : segments directory = [""] := hdirectory.resolve_left (segments_ne_nil directory)
    rw [components_of_segments hjoin, components_of_segments hempty]
    simp [h.ne_empty]
  | cons first rest =>
    rw [components_of_segments hjoin]
    rcases hdirectory with hdirectory | hdirectory <;>
      simp [components_of_segments hdirectory, hname, hlast]

/-- An ending makes a name of any stem without slashes. -/
theorem plainName_append {stem ending : String} (hslash : '/' ∉ stem.toList)
    (hbackslash : '\\' ∉ stem.toList) (hending : PlainName ending) (hlength : 2 < ending.length) :
    PlainName (stem ++ ending) := by
  have hlong : 2 < (stem ++ ending).length := by
    rw [String.length_append]
    omega
  refine ⟨?_, ?_, ?_, ?_, ?_⟩
  · intro heq
    exact absurd hlong (by rw [heq]; decide)
  · intro heq
    exact absurd hlong (by rw [heq]; decide)
  · intro heq
    exact absurd hlong (by rw [heq]; decide)
  · rw [String.toList_append, List.mem_append, not_or]
    exact ⟨hslash, hending.slash_notMem⟩
  · rw [String.toList_append, List.mem_append, not_or]
    exact ⟨hbackslash, hending.backslash_notMem⟩

theorem isChild_join {name : String} (h : PlainName name) (directory : String) :
    IsChild directory name (join directory name) :=
  ⟨isAbsolute_join h directory, components_join h directory⟩

end Path

/-! ## Places of names -/

namespace FileSystem

/-- What a path starts with may be a path if it is not empty. -/
theorem checkPath_of_append {left right : String} (hne : left ≠ "")
    (h : checkPath (left ++ right) = .ok ()) : checkPath left = .ok () := by
  rw [checkPath] at h ⊢
  split at h
  · cases h
  · rename_i hnul
    split at h
    · cases h
    · split at h
      · cases h
      · rename_i hsize
        rw [String.utf8ByteSize_append] at hsize
        rw [String.toList_append] at hnul
        rw [if_neg (by simp_all), if_neg hne, if_neg (by omega)]

theorem origin_join {name : String} (hname : Path.PlainName name) (files : FileSystem)
    (directory : String) :
    files.origin (Path.join directory name) = files.origin directory := by
  rw [origin, origin, Path.isAbsolute_join hname]

/-- The step to a plain name leads into the directory. -/
theorem step_eq_ok {files : FileSystem} {name : String} {inside place : List String}
    (hname : Path.PlainName name) (h : files.step inside name = .ok place) :
    files.find? inside = some .directory ∧ place = inside ++ [name] := by
  obtain ⟨entered, henter, hnext⟩ := bind_eq_ok.1 h
  obtain ⟨hfound, rfl⟩ := enter_eq_ok_iff.1 henter
  rw [next, if_neg hname.ne_dot, if_neg hname.ne_dots] at hnext
  split at hnext
  · cases hnext
  · cases hnext
    exact ⟨hfound, rfl⟩

/-- A place is that of a name in a directory, which is there.  The empty path stands for the
working directory. -/
def LeadsInto (files : FileSystem) (directory name : String) (place : List String) : Prop :=
  ∃ inside, place = inside ++ [name] ∧ files.find? inside = some .directory ∧
    (directory = "" ∧ inside = files.workingDirectory ∨ files.place directory = .ok inside)

/-- A path of a plain name in a directory leads there if it leads anywhere. -/
theorem leadsInto_of_place {files : FileSystem} {directory name : String} {place : List String}
    (hname : Path.PlainName name) (h : files.place (Path.join directory name) = .ok place) :
    files.LeadsInto directory name place := by
  obtain ⟨_, hcheck, hwalk⟩ := bind_eq_ok.1 h
  rw [Path.names_join hname, origin_join hname, walk_eq_foldlM, List.foldlM_append] at hwalk
  obtain ⟨inside, hinside, hstep⟩ := bind_eq_ok.1 hwalk
  rw [← walk_eq_foldlM] at hinside
  obtain ⟨last, hlast, hend⟩ := bind_eq_ok.1 hstep
  cases hend
  obtain ⟨hfound, hplace⟩ := step_eq_ok hname hlast
  refine ⟨inside, hplace, hfound, ?_⟩
  by_cases hempty : directory = ""
  · subst hempty
    cases hinside
    exact .inl ⟨rfl, rfl⟩
  · obtain ⟨more, hjoin⟩ := Path.exists_join_eq_append hname directory
    rw [hjoin] at hcheck
    exact .inr (bind_eq_ok.2 ⟨(), checkPath_of_append hempty hcheck, hinside⟩)

end FileSystem

/-! ## Artifacts -/

theorem Vlnv.moduleName_subset (vlnv : Vlnv) : vlnv.moduleName.toList ⊆ vlnv.name.toList := by
  rw [moduleName, String.toList_ofList]
  exact List.takeWhile_subset _

namespace RegisterMap

theorem nodup_names {map : RegisterMap} {artifacts : List Artifact}
    (h : map.artifacts = .ok artifacts) : (artifacts.map (·.name)).Nodup := by
  refine List.pairwise_map.2 ((pairwise_lastName?_artifacts h "").imp ?_)
  intro left right hne heq
  exact hne (congrArg (fun name => Path.lastName? (Path.join "" name)) heq)

section

variable {map : RegisterMap} (h : Vlnv.WellFormed map.vlnv.segments)
include h

theorem plainName_artifacts {artifacts : List Artifact} (hartifacts : map.artifacts = .ok artifacts)
    {artifact : Artifact} (hmem : artifact ∈ artifacts) : Path.PlainName artifact.name := by
  obtain ⟨-, hslash, hbackslash⟩ := map.vlnv.wellFormed_segments_iff.1 h
  have hmodule {ending : String} (hending : Path.PlainName ending) (hlength : 2 < ending.length) :
      Path.PlainName (map.vlnv.moduleName ++ ending) :=
    Path.plainName_append (fun hmem => hslash (map.vlnv.moduleName_subset hmem))
      (fun hmem => hbackslash (map.vlnv.moduleName_subset hmem)) hending hlength
  rw [RegisterMap.artifacts] at hartifacts
  split at hartifacts
  · cases hartifacts
    simp only [List.mem_cons, List.not_mem_nil, or_false] at hmem
    rcases hmem with rfl | rfl | rfl
    · exact hmodule (by constructor <;> decide) (by decide)
    · exact hmodule (by constructor <;> decide) (by decide)
    · exact Path.plainName_append hslash hbackslash (by constructor <;> decide) (by decide)
  · cases hartifacts

/-- The name of a source file is written in a descriptor as it is. -/
theorem dottedWord_moduleName_append {ending : String}
    (hall : ending.toList.all Yaml.isWordCharacter = true) (hdot : '.' ∈ ending.toList) :
    Yaml.DottedWord (map.vlnv.moduleName ++ ending).toList := by
  have hidentifier := (map.vlnv.wellFormed_segments_iff.1 h).1
  rw [← Vlnv.isIdentifier_iff] at hidentifier
  rw [String.toList_append]
  exact .of_isIdentifier hidentifier hall hdot

theorem dottedWord_wrapperName : Yaml.DottedWord map.wrapperName.toList :=
  dottedWord_moduleName_append h (by decide) (by decide)

theorem dottedWord_templateName : Yaml.DottedWord map.templateName.toList :=
  dottedWord_moduleName_append h (by decide) (by decide)

theorem render_ofMap : (Core.ofMap map map.wrapperName map.templateName).render =
    "CAPI=2:\nname: " ++ String.ofList (Yaml.Tree.scalarLine 2 map.vlnv.text) ++
      "filesets:\n  rtl:\n    files:\n" ++
      "    - " ++ Core.SourceFile.text ⟨map.wrapperName, false⟩ ++
      "    - " ++ Core.SourceFile.text ⟨map.templateName, true⟩ ++
      "targets:\n  default:\n    filesets:\n    - rtl\n" := by
  have hfiles : ∀ file ∈ (Core.ofMap map map.wrapperName map.templateName).files,
      Yaml.DottedWord file.name.toList := by
    simp only [Core.ofMap, List.forall_mem_cons]
    exact ⟨dottedWord_wrapperName h, dottedWord_templateName h, nofun⟩
  rw [Core.render_of_dottedWord (List.cons_ne_nil _ _) hfiles, ← String.toList_inj]
  simp [Core.ofMap, Core.formatLine, Core.fileSet, Core.target, toString]

end

/-- The files of a map are its wrapper, its template and its descriptor, whose names differ and
lead into any directory and no further.  The descriptor lists the other two. -/
structure Separate (map : RegisterMap) (wrapper template descriptor : Artifact) : Prop where
  artifacts_eq : map.artifacts = .ok [wrapper, template, descriptor]
  names_eq : [wrapper, template, descriptor].map (·.name) =
    [map.vlnv.moduleName ++ ".sv", map.vlnv.moduleName ++ ".vh", map.vlnv.name ++ ".core"]
  nodup_names : ([wrapper, template, descriptor].map (·.name)).Nodup
  plainName : ∀ artifact ∈ [wrapper, template, descriptor], Path.PlainName artifact.name
  isChild : ∀ artifact ∈ [wrapper, template, descriptor], ∀ directory,
    Path.IsChild directory artifact.name (Path.join directory artifact.name)
  leadsInto : ∀ artifact ∈ [wrapper, template, descriptor],
    ∀ (files : FileSystem) directory place,
      files.place (Path.join directory artifact.name) = .ok place →
        files.LeadsInto directory artifact.name place
  document_eq : descriptor.text =
    s!"{Core.formatLine}\n{Yaml.Tree.document (Core.ofMap map wrapper.name template.name).entries}"
  lists : Core.Lists (Core.ofMap map wrapper.name template.name).entries
    [⟨wrapper.name, false⟩, ⟨template.name, true⟩]
  /-- The whole text. -/
  text_eq : descriptor.text =
    "CAPI=2:\nname: " ++ String.ofList (Yaml.Tree.scalarLine 2 map.vlnv.text) ++
      "filesets:\n  rtl:\n    files:\n" ++
      "    - " ++ Core.SourceFile.text ⟨wrapper.name, false⟩ ++
      "    - " ++ Core.SourceFile.text ⟨template.name, true⟩ ++
      "targets:\n  default:\n    filesets:\n    - rtl\n"
  scalar_eq : ∀ source ∈ [wrapper, template], ∀ indent,
    Yaml.Tree.scalar indent source.name = source.name.toList

/-- Whatever text identifies the core of a packed map, its artifacts stay apart and in their
directory. -/
theorem separate_artifacts {text : String} {map : RegisterMap}
    (hvlnv : Vlnv.ofText text = .ok map.vlnv) (hpacked : map.isPacked = true) :
    ∃ wrapper template descriptor, map.Separate wrapper template descriptor := by
  have hwell := (Vlnv.ofText_eq_ok_iff.1 hvlnv).2
  have hartifacts : map.artifacts = .ok _ := if_pos hpacked
  have hplain := fun artifact hmem =>
    plainName_artifacts hwell hartifacts (hmem : artifact ∈ _)
  refine ⟨_, _, _, hartifacts, rfl, nodup_names hartifacts, hplain, ?isChild, ?leadsInto, rfl,
    Core.lists_entries (Core.ofMap map map.wrapperName map.templateName), ?text_eq, ?scalar_eq⟩
  case isChild =>
    exact fun artifact hmem => Path.isChild_join (hplain artifact hmem)
  case leadsInto =>
    exact fun artifact hmem _ _ _ => FileSystem.leadsInto_of_place (hplain artifact hmem)
  case text_eq =>
    exact render_ofMap hwell
  case scalar_eq =>
    simp only [List.forall_mem_cons]
    exact ⟨Yaml.Tree.scalar_eq_of_dottedWord (dottedWord_wrapperName hwell),
      Yaml.Tree.scalar_eq_of_dottedWord (dottedWord_templateName hwell), nofun⟩

/-- A core whose name goes on behind a dash, and has no library. -/
theorem separate_artifacts_dashed :
    let vlnv : Vlnv := ⟨"acme", "", "timer-.. é", some ""⟩
    let map := (new vlnv none).changed [.add ⟨"ctrl", 8, .readWrite, 1⟩, .pack .plain]
    Vlnv.ofText "acme::timer-.. é:" = .ok map.vlnv ∧ map.isPacked = true ∧
      ∃ wrapper template descriptor, map.Separate wrapper template descriptor := by
  intro vlnv map
  have hvlnv : Vlnv.ofText "acme::timer-.. é:" = .ok map.vlnv := by rfl
  have hpacked : map.isPacked = true := rfl
  exact ⟨hvlnv, hpacked, separate_artifacts hvlnv hpacked⟩

end RegisterMap

end RegMap
