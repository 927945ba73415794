import RegMap.Proofs.Places

/-!
# What file operations leave

An operation on files changes what it is for, and nothing else.  Two relations between the
file systems before and after say so, and both go on over several operations.

* `FileSystem.Makes`: nothing has changed but for new directories at given paths.
  `FileSystem.makes_of_makeDirectories` shows it for the making of a directory with those
  that it is in, also if that fails halfway.
* `FileSystem.Saves`: nothing has changed but for the files of given paths, which hold the
  given texts.  `FileSystem.saves_write` shows it for one file.

A device may refuse what it is given, or take only the beginning of a text.
`FileSystem.Spoils` is all that is left then, and `FileSystem.spoils_write` shows it.
-/

namespace RegMap.FileSystem

variable {device : Device}

/-! ## Directories -/

theorem isDirectory_iff {files : FileSystem} {path : String} :
    files.isDirectory path = true ↔
      ∃ place, files.place path = .ok place ∧ files.find? place = some .directory := by
  rw [isDirectory]
  cases hplace : files.place path with
  | error error => simp
  | ok place =>
    simp only [Except.ok.injEq, exists_eq_left']
    rw [enter]
    cases files.find? place with
    | none => simp [Except.isOk, Except.toBool]
    | some entry => cases entry <;> simp [Except.isOk, Except.toBool]

theorem Keeps.isDirectory {before after : FileSystem} (h : before.Keeps after) {path : String}
    (hpath : before.isDirectory path = true) : after.isDirectory path = true := by
  obtain ⟨place, hplace, hfound⟩ := isDirectory_iff.1 hpath
  exact isDirectory_iff.2 ⟨place, h.place hplace, h.find?_eq place hfound⟩

theorem makeDirectory_eq_ok {files after : FileSystem} {path : String}
    (h : files.makeDirectory device path = .ok after) :
    ∃ place, files.Locates path place ∧ files.find? place = none ∧
      after = files.put place .directory := by
  obtain ⟨⟨directory, name?⟩, hparent, h⟩ := bind_eq_ok.1 h
  cases name? with
  | none => cases h
  | some name =>
    dsimp only at h
    split at h
    · cases h
    · rename_i hnone
      split at h
      · cases h
      · cases h
        exact ⟨directory ++ [name], ⟨directory, name, hparent, rfl⟩, by simpa using hnone, rfl⟩

/-- Nothing has changed, except that places of the given paths, where there was nothing, are
directories now. -/
structure Makes (paths : List String) (before after : FileSystem) : Prop where
  workingDirectory_eq : after.workingDirectory = before.workingDirectory
  find?_eq_or : ∀ place, after.find? place = before.find? place ∨
    before.find? place = none ∧ after.find? place = some .directory ∧
      ∃ path ∈ paths, after.Locates path place

namespace Makes

theorem refl (paths : List String) (files : FileSystem) : Makes paths files files :=
  ⟨rfl, fun _ => .inl rfl⟩

theorem keeps {paths : List String} {before after : FileSystem}
    (h : Makes paths before after) : before.Keeps after where
  workingDirectory_eq := h.workingDirectory_eq
  find?_eq := by
    intro place hplace
    rcases h.find?_eq_or place with heq | ⟨hnone, -⟩
    · rw [heq, hplace]
    · rw [hnone] at hplace
      cases hplace

theorem trans {left right : List String} {a b c : FileSystem} (hab : Makes left a b)
    (hbc : Makes right b c) : Makes (left ++ right) a c where
  workingDirectory_eq := hbc.workingDirectory_eq.trans hab.workingDirectory_eq
  find?_eq_or := by
    intro place
    rcases hbc.find?_eq_or place with hlater | ⟨hnone, hmade, path, hpath, hplace⟩
    · rcases hab.find?_eq_or place with hearlier | ⟨hnone, hmade, path, hpath, hplace⟩
      · exact .inl (hlater.trans hearlier)
      · refine .inr ⟨hnone, hlater.trans hmade, path, ?_, hbc.keeps.locates hplace⟩
        exact List.mem_append_left _ hpath
    · -- what was made first is there, and is not made again
      rcases hab.find?_eq_or place with hearlier | ⟨-, hmade', -⟩
      · refine .inr ⟨hearlier.symm.trans hnone, hmade, path, ?_, hplace⟩
        exact List.mem_append_right _ hpath
      · rw [hnone] at hmade'
        cases hmade'

theorem mono {left right : List String} (hsub : left ⊆ right) {a b : FileSystem}
    (h : Makes left a b) : Makes right a b where
  workingDirectory_eq := h.workingDirectory_eq
  find?_eq_or := fun place => (h.find?_eq_or place).imp_right
    fun ⟨hnone, hmade, path, hpath, hplace⟩ => ⟨hnone, hmade, path, hsub hpath, hplace⟩

end Makes

/-- A directory that could be made is there. -/
theorem makes_makeDirectory {files after : FileSystem} {path : String}
    (h : files.makeDirectory device path = .ok after) :
    Makes [path] files after ∧ after.isDirectory path = true := by
  obtain ⟨place, hlocates, hnone, rfl⟩ := makeDirectory_eq_ok h
  have hkeeps : files.Keeps (files.put place .directory) :=
    keeps_put (by rw [hnone]; exact nofun) .directory
  have hlocates' := hkeeps.locates hlocates
  have hfound := files.find?_put_self .directory hlocates.ne_nil
  refine ⟨⟨rfl, fun other => ?_⟩, isDirectory_iff.2 ⟨place, hlocates'.place_eq, hfound⟩⟩
  by_cases hother : other = place
  · subst hother
    exact .inr ⟨hnone, hfound, path, List.mem_singleton_self path, hlocates'⟩
  · exact .inl (find?_put_of_ne files .directory hother)

/-- A directory that is there cannot be made again. -/
theorem makeDirectory_of_isDirectory (device : Device) {files : FileSystem} {path : String}
    (h : files.isDirectory path = true) :
    ∃ error, files.makeDirectory device path = .error error := by
  cases hmake : files.makeDirectory device path with
  | error error => exact ⟨error, rfl⟩
  | ok after =>
    obtain ⟨place, hlocates, hnone, -⟩ := makeDirectory_eq_ok hmake
    obtain ⟨there, hthere, hfound⟩ := isDirectory_iff.1 h
    rw [hlocates.place_eq, Except.ok.injEq] at hthere
    rw [← hthere, hnone] at hfound
    cases hfound

/-! ## Directories with those that they are in -/

/-- What runs second sees what the first left. -/
theorem run_bind {σ α β : Type} (x : StateM σ α) (f : α → StateM σ β) (s : σ) :
    (x >>= f).run s = (f (x.run s).1).run (x.run s).2 :=
  rfl

theorem run_isDirectory (device : Device) (files : FileSystem) (path : String) :
    ((store device).isDirectory path).run files = (files.isDirectory path, files) :=
  rfl

theorem run_makeDirectory (device : Device) (files : FileSystem) (path : String) :
    ((store device).makeDirectory path).run files =
      match files.makeDirectory device path with
      | .ok after => (.ok (), after)
      | .error error => (.error error, files) :=
  rfl

theorem run_ensureDirectory (device : Device) (files : FileSystem) (path : String) :
    ((store device).ensureDirectory path).run files =
      match files.makeDirectory device path with
      | .ok after => (.ok (), after)
      | .error error => (if files.isDirectory path then .ok () else .error error, files) := by
  rw [FileStore.ensureDirectory, run_bind, run_makeDirectory]
  cases files.makeDirectory device path with
  | ok after => rfl
  | error error =>
    dsimp only
    rw [run_bind, run_isDirectory]
    cases files.isDirectory path <;> rfl

/-- What is to be a directory is one, or nothing has changed. -/
theorem makes_ensureDirectory (device : Device) (files : FileSystem) (path : String) :
    Makes [path] files (((store device).ensureDirectory path).run files).2 ∧
      ((((store device).ensureDirectory path).run files).1 = .ok () →
        (((store device).ensureDirectory path).run files).2.isDirectory path = true) := by
  rw [run_ensureDirectory]
  cases hmake : files.makeDirectory device path with
  | ok after =>
    obtain ⟨hmakes, hthere⟩ := makes_makeDirectory hmake
    exact ⟨hmakes, fun _ => hthere⟩
  | error error =>
    refine ⟨Makes.refl [path] files, fun hok => ?_⟩
    dsimp only at hok ⊢
    by_contra hnot
    rw [if_neg hnot] at hok
    cases hok

theorem run_ensureDirectory_of_isDirectory (device : Device) {files : FileSystem}
    {path : String} (h : files.isDirectory path = true) :
    ((store device).ensureDirectory path).run files = (.ok (), files) := by
  obtain ⟨error, herror⟩ := makeDirectory_of_isDirectory device h
  rw [run_ensureDirectory, herror]
  dsimp only
  rw [if_pos h]

theorem run_makeFirst_cons (device : Device) {path : String} (hpath : path ≠ "")
    (outer : List String) (files : FileSystem) :
    ((store device).makeFirst (path :: outer)).run files =
      match ((store device).ensureDirectory path).run files with
      | (.error .notFound, tried) =>
        match ((store device).makeFirst outer).run tried with
        | (.ok (), around) => ((store device).ensureDirectory path).run around
        | (.error error, around) => (.error error, around)
      | (outcome, tried) => (outcome, tried) := by
  rw [FileStore.makeFirst, if_neg hpath, run_bind]
  obtain ⟨outcome, tried⟩ := ((store device).ensureDirectory path).run files
  dsimp only
  split
  · rw [run_bind]
    dsimp only
    obtain ⟨inner, around⟩ := ((store device).makeFirst outer).run tried
    cases inner <;> rfl
  · rename_i hother
    split
    · rename_i heq
      cases heq
      exact absurd rfl hother
    · rename_i heq
      cases heq
      rfl

theorem run_makeFirst_empty (device : Device) (outer : List String) (files : FileSystem) :
    ((store device).makeFirst ("" :: outer)).run files = (.ok (), files) := by
  rw [FileStore.makeFirst, if_pos rfl]
  rfl

/-- Nothing but missing directories is made, also if not all of them can be. -/
theorem makes_makeFirst (device : Device) (paths : List String) (files : FileSystem) :
    Makes paths files (((store device).makeFirst paths).run files).2 := by
  induction paths generalizing files with
  | nil => exact Makes.refl [] files
  | cons path outer ih =>
    by_cases hpath : path = ""
    · rw [hpath, run_makeFirst_empty]
      exact Makes.refl _ files
    · have htried := (makes_ensureDirectory device files path).1
      rw [run_makeFirst_cons device hpath]
      split
      · rename_i tried heq
        rw [heq] at htried
        have haround := ih tried
        split
        · rename_i around hinner
          rw [hinner] at haround
          -- those around it are there now, so the directory is tried again
          have hagain := (makes_ensureDirectory device around path).1
          refine ((htried.trans haround).trans hagain).mono ?_
          simp
        · rename_i hinner
          rw [hinner] at haround
          exact htried.trans haround
      · rename_i heq
        rw [heq] at htried
        exact htried.mono (by simp)

theorem isDirectory_makeFirst {path : String} (hpath : path ≠ "") {outer : List String}
    {files : FileSystem} (h : (((store device).makeFirst (path :: outer)).run files).1 = .ok ()) :
    (((store device).makeFirst (path :: outer)).run files).2.isDirectory path = true := by
  have htried := (makes_ensureDirectory device files path).2
  rw [run_makeFirst_cons device hpath] at h ⊢
  split at h
  · split at h
    · rename_i around _
      exact (makes_ensureDirectory device around path).2 h
    · cases h
  · rename_i heq
    rw [heq] at htried
    exact htried h

/-- A path leads to a directory; the empty one leads to the working directory. -/
def HasDirectory (files : FileSystem) (path : String) : Prop :=
  path = "" ∨ files.isDirectory path = true

theorem Keeps.hasDirectory {before after : FileSystem} (h : before.Keeps after) {path : String}
    (hpath : before.HasDirectory path) : after.HasDirectory path :=
  hpath.imp_right h.isDirectory

/-- Only a directory and those that it is in are made for it. -/
theorem makes_of_makeDirectories {files made : FileSystem} {path : String}
    {outcome : Except FileError Unit}
    (h : ((store device).makeDirectories path).run files = (outcome, made)) :
    Makes (Path.ancestors path) files made := by
  have hmakes := makes_makeFirst device (Path.ancestors path) files
  rwa [← FileStore.makeDirectories, h] at hmakes

theorem hasDirectory_of_makeDirectories {files made : FileSystem} {path : String}
    (h : ((store device).makeDirectories path).run files = (.ok (), made)) :
    made.HasDirectory path := by
  by_cases hpath : path = ""
  · exact .inl hpath
  · have hok : (((store device).makeDirectories path).run files).1 = .ok () := by rw [h]
    have hthere := isDirectory_makeFirst hpath hok
    rw [← Path.ancestors, ← FileStore.makeDirectories, h] at hthere
    exact .inr hthere

theorem run_makeDirectories_of_hasDirectory (device : Device) {files : FileSystem}
    {path : String} (h : files.HasDirectory path) :
    ((store device).makeDirectories path).run files = (.ok (), files) := by
  by_cases hpath : path = ""
  · subst hpath
    exact run_makeFirst_empty device _ files
  · have hthere := run_ensureDirectory_of_isDirectory device (h.resolve_left hpath)
    rw [FileStore.makeDirectories, Path.ancestors, run_makeFirst_cons device hpath, hthere]

/-! ## Files -/

/-- What the file of a path holds, if it is there. -/
def content? (files : FileSystem) (path : String) : Option ByteArray :=
  match files.place path with
  | .error _ => none
  | .ok place =>
    match files.find? place with
    | some (.file content) => some content
    | _ => none

/-- The file of a path holds a text. -/
def Stores (files : FileSystem) (path text : String) : Prop :=
  ∃ place, files.Locates path place ∧ Path.endsInSlash path = false ∧
    files.find? place = some (.file text.toUTF8)

theorem Stores.content?_eq {files : FileSystem} {path text : String} (h : files.Stores path text) :
    files.content? path = some text.toUTF8 := by
  obtain ⟨place, hlocates, -, hfound⟩ := h
  rw [content?, hlocates.place_eq]
  dsimp only
  rw [hfound]

/-- A file can be opened to be written: it is there, or may be made. -/
def Opens (files : FileSystem) (device : Device) (path : String) (place : List String) : Prop :=
  files.Locates path place ∧ Path.endsInSlash path = false ∧
    files.find? place ≠ some .directory ∧ device.openFault? place = none

theorem target_eq_ok_iff {files : FileSystem} {path : String} {place : List String} :
    files.target device path = .ok place ↔ files.Opens device path place := by
  unfold target Opens
  rw [bind_eq_ok]
  constructor
  · rintro ⟨⟨directory, name?⟩, hparent, h⟩
    cases name? with
    | none => cases h
    | some name =>
      dsimp only at h
      split at h
      · cases h
      · rename_i hslash
        split at h
        · cases h
        · rename_i hentry
          split at h
          · cases h
          · rename_i hopen
            cases h
            exact ⟨⟨directory, name, hparent, rfl⟩, by simpa using hslash, hentry, hopen⟩
  · rintro ⟨⟨directory, name, hparent, rfl⟩, hslash, hentry, hopen⟩
    refine ⟨(directory, some name), hparent, ?_⟩
    dsimp only
    rw [hslash, if_neg Bool.false_ne_true, hopen]
    split
    · rename_i hdirectory
      exact absurd hdirectory hentry
    · rfl

/-- A text can be written: its file can be opened, and the device takes all of it. -/
def Writable (files : FileSystem) (device : Device) (path text : String) : Prop :=
  ∃ place, files.Opens device path place ∧ device.writeFault? place text.toUTF8 = none

theorem write_of_opens {files : FileSystem} {path : String} {place : List String}
    (h : files.Opens device path place) (text : String) :
    files.write device path text =
      match device.writeFault? place text.toUTF8 with
      | some (count, error) =>
        (.error error, files.put place (.file (text.toUTF8.extract 0 count)))
      | none => (.ok (), files.put place (.file text.toUTF8)) := by
  have htarget := target_eq_ok_iff.2 h
  cases hfault : device.writeFault? place text.toUTF8 with
  | none => simp only [write, htarget, hfault]
  | some => simp only [write, htarget, hfault]

theorem write_eq_ok {files after : FileSystem} {path text : String}
    (h : files.write device path text = (.ok (), after)) :
    ∃ place, files.Opens device path place ∧ device.writeFault? place text.toUTF8 = none ∧
      after = files.put place (.file text.toUTF8) := by
  cases htarget : files.target device path with
  | error error =>
    unfold write at h
    rw [htarget] at h
    cases h
  | ok place =>
    have hopens := target_eq_ok_iff.1 htarget
    rw [write_of_opens hopens] at h
    split at h
    · cases h
    · rename_i hfault
      cases h
      exact ⟨place, hopens, hfault, rfl⟩

theorem Writable.exists_write {files : FileSystem} {path text : String}
    (h : files.Writable device path text) :
    ∃ after, files.write device path text = (.ok (), after) := by
  obtain ⟨place, hopens, hfault⟩ := h
  refine ⟨files.put place (.file text.toUTF8), ?_⟩
  rw [write_of_opens hopens, hfault]

theorem run_write (device : Device) (files : FileSystem) (path text : String) :
    ((store device).write path text).run files = files.write device path text :=
  rfl

/-- Nothing has changed but for the files of the given paths. -/
structure Alters (paths : List String) (before after : FileSystem) : Prop where
  workingDirectory_eq : after.workingDirectory = before.workingDirectory
  directory_iff : ∀ place,
    after.find? place = some .directory ↔ before.find? place = some .directory
  find?_eq_or : ∀ place, after.find? place = before.find? place ∨
    ∃ path ∈ paths, after.Locates path place

namespace Alters

theorem refl (files : FileSystem) : Alters [] files files :=
  ⟨rfl, fun _ => Iff.rfl, fun _ => .inl rfl⟩

variable {paths : List String} {before after : FileSystem}

theorem keeps (h : Alters paths before after) : before.Keeps after :=
  ⟨h.workingDirectory_eq, fun place => (h.directory_iff place).2⟩

/-- The directories after are those before. -/
theorem keeps_symm (h : Alters paths before after) : after.Keeps before :=
  ⟨h.workingDirectory_eq.symm, fun place => (h.directory_iff place).1⟩

theorem opens_iff (h : Alters paths before after) {path : String} {place : List String} :
    after.Opens device path place ↔ before.Opens device path place := by
  have hentry := not_congr (h.directory_iff place)
  constructor
  · rintro ⟨hlocates, hslash, hfile, hopen⟩
    exact ⟨h.keeps_symm.locates hlocates, hslash, hentry.1 hfile, hopen⟩
  · rintro ⟨hlocates, hslash, hfile, hopen⟩
    exact ⟨h.keeps.locates hlocates, hslash, hentry.2 hfile, hopen⟩

/-- Writing does not change what can be written. -/
theorem writable_iff (h : Alters paths before after) {path text : String} :
    after.Writable device path text ↔ before.Writable device path text := by
  unfold Writable
  simp only [h.opens_iff]

/-- A text stays where no file of that name is altered. -/
theorem stores_of_stores (h : Alters paths before after) {path text : String}
    (hpath : before.Stores path text)
    (hne : ∀ other ∈ paths, Path.lastName? path ≠ Path.lastName? other) :
    after.Stores path text := by
  obtain ⟨place, hlocates, hslash, hfound⟩ := hpath
  have hlater := h.keeps.locates hlocates
  refine ⟨place, hlater, hslash, ?_⟩
  rcases h.find?_eq_or place with heq | ⟨other, hmem, hother⟩
  · rw [heq, hfound]
  · -- two paths to one place have one last name
    exact absurd (hlater.lastName?_eq.trans hother.lastName?_eq.symm) (hne other hmem)

theorem trans {more : List String} {last : FileSystem} (h : Alters paths before after)
    (hmore : Alters more after last) : Alters (paths ++ more) before last where
  workingDirectory_eq := hmore.workingDirectory_eq.trans h.workingDirectory_eq
  directory_iff := fun place => (hmore.directory_iff place).trans (h.directory_iff place)
  find?_eq_or := by
    intro place
    rcases hmore.find?_eq_or place with hlater | ⟨path, hpath, hplace⟩
    · rcases h.find?_eq_or place with hearlier | ⟨path, hpath, hplace⟩
      · exact .inl (hlater.trans hearlier)
      · exact .inr ⟨path, List.mem_append_left _ hpath, hmore.keeps.locates hplace⟩
    · exact .inr ⟨path, List.mem_append_right _ hpath, hplace⟩

end Alters

/-- Whatever is put into a file that was opened, nothing else changes. -/
theorem alters_put {files : FileSystem} {path : String} {place : List String}
    (h : files.Opens device path place) (content : ByteArray) :
    Alters [path] files (files.put place (.file content)) := by
  obtain ⟨hlocates, -, hentry, -⟩ := h
  have hkeeps := keeps_put hentry (.file content)
  have hfound := files.find?_put_self (.file content) hlocates.ne_nil
  refine ⟨rfl, fun other => ⟨fun hother => ?_, hkeeps.find?_eq other⟩, fun other => ?_⟩
  · by_cases heq : other = place
    · rw [heq, hfound] at hother
      cases hother
    · rwa [find?_put_of_ne files _ heq] at hother
  · by_cases heq : other = place
    · subst heq
      exact .inr ⟨path, List.mem_singleton_self path, hkeeps.locates hlocates⟩
    · exact .inl (find?_put_of_ne files _ heq)

/-! ## Files that were written -/

/-- Nothing has changed, except that the files of the given paths hold the given texts, which the
device takes. -/
structure Saves (device : Device) (saved : List (String × String)) (before after : FileSystem) :
    Prop extends Alters (saved.map (·.1)) before after where
  stores : ∀ file ∈ saved, after.Stores file.1 file.2
  writable : ∀ file ∈ saved, after.Writable device file.1 file.2

namespace Saves

theorem refl (files : FileSystem) : Saves device [] files files :=
  ⟨.refl files, nofun, nofun⟩

theorem trans {left right : List (String × String)} {a b c : FileSystem}
    (hab : Saves device left a b) (hbc : Saves device right b c)
    (hne : ∀ x ∈ left, ∀ y ∈ right, Path.lastName? x.1 ≠ Path.lastName? y.1) :
    Saves device (left ++ right) a c := by
  refine ⟨by simpa using hab.toAlters.trans hbc.toAlters, ?_, ?_⟩
  · intro file hfile
    rcases List.mem_append.1 hfile with hleft | hright
    · refine hbc.stores_of_stores (hab.stores file hleft) ?_
      rw [List.forall_mem_map]
      exact hne file hleft
    · exact hbc.stores file hright
  · intro file hfile
    rcases List.mem_append.1 hfile with hleft | hright
    · exact hbc.writable_iff.2 (hab.writable file hleft)
    · exact hbc.writable file hright

theorem find?_eq {before after : FileSystem} (h : Saves device [] before after)
    (place : List String) : after.find? place = before.find? place := by
  rcases h.find?_eq_or place with heq | ⟨path, hpath, -⟩
  · exact heq
  · cases hpath

end Saves

theorem saves_write {files after : FileSystem} {path text : String}
    (h : files.write device path text = (.ok (), after)) :
    Saves device [(path, text)] files after := by
  obtain ⟨place, hopens, hfault, rfl⟩ := write_eq_ok h
  have halters := alters_put hopens text.toUTF8
  have hlater := halters.opens_iff.2 hopens
  have hfound := files.find?_put_self (.file text.toUTF8) hopens.1.ne_nil
  refine ⟨halters, ?_, ?_⟩
  · intro file hfile
    rw [List.mem_singleton.1 hfile]
    exact ⟨place, hlater.1, hlater.2.1, hfound⟩
  · intro file hfile
    rw [List.mem_singleton.1 hfile]
    exact ⟨place, hlater, hfault⟩

/-- A text that is stored can be written again, which changes nothing. -/
theorem saves_nil_of_stores {files : FileSystem} {path text : String}
    (hwritable : files.Writable device path text) (hstores : files.Stores path text) :
    ∃ after, files.write device path text = (.ok (), after) ∧ Saves device [] files after := by
  obtain ⟨place, hopens, hfault⟩ := hwritable
  obtain ⟨there, hlocates, -, hfound⟩ := hstores
  have hplace : there = place :=
    Except.ok.inj (hlocates.place_eq.symm.trans hopens.1.place_eq)
  rw [hplace] at hfound
  have hsame : ∀ other,
      (files.put place (.file text.toUTF8)).find? other = files.find? other := by
    intro other
    by_cases heq : other = place
    · rw [heq, hfound, find?_put_self _ _ hopens.1.ne_nil]
    · exact find?_put_of_ne files _ heq
  refine ⟨files.put place (.file text.toUTF8), ?_, ⟨rfl, ?_, ?_⟩, nofun, nofun⟩
  · rw [write_of_opens hopens, hfault]
  · intro other
    rw [hsame]
  · exact fun other => .inl (hsame other)

/-! ## Files that could not be written -/

/-- What a failed writing has left: nothing has changed if the file could not be opened.  If it
could, it holds the beginning of the text, up to where the device stopped. -/
inductive Spoils (device : Device) (path text : String) (error : FileError)
    (before : FileSystem) : FileSystem → Prop where
  | unopened (h : before.target device path = .error error) :
      Spoils device path text error before before
  | stopped {place : List String} {count : Nat} (hopens : before.Opens device path place)
      (hfault : device.writeFault? place text.toUTF8 = some (count, error)) :
      Spoils device path text error before
        (before.put place (.file (text.toUTF8.extract 0 count)))

theorem spoils_write {files after : FileSystem} {path text : String} {error : FileError}
    (h : files.write device path text = (.error error, after)) :
    Spoils device path text error files after := by
  cases htarget : files.target device path with
  | error reason =>
    unfold write at h
    rw [htarget] at h
    cases h
    exact .unopened htarget
  | ok place =>
    have hopens := target_eq_ok_iff.1 htarget
    rw [write_of_opens hopens] at h
    split at h
    · rename_i hfault
      cases h
      exact .stopped hopens hfault
    · cases h

/-- The file of a path holds the beginning of a text, after which the device stopped. -/
def Broken (files : FileSystem) (device : Device) (path text : String) (error : FileError)
    (place : List String) : Prop :=
  files.Opens device path place ∧ ∃ count,
    device.writeFault? place text.toUTF8 = some (count, error) ∧
      files.find? place = some (.file (text.toUTF8.extract 0 count))

/-- A file that cannot be opened holds no text that broke off. -/
theorem not_broken_of_target {files : FileSystem} {path text : String} {error reason : FileError}
    (h : files.target device path = .error reason) (place : List String) :
    ¬files.Broken device path text error place := by
  intro hbroken
  cases h.symm.trans (target_eq_ok_iff.2 hbroken.1)

theorem broken_put {files : FileSystem} {path text : String} {error : FileError}
    {place : List String} {count : Nat} (hopens : files.Opens device path place)
    (hfault : device.writeFault? place text.toUTF8 = some (count, error)) :
    (files.put place (.file (text.toUTF8.extract 0 count))).Broken device path text error
      place := by
  have hfound := files.find?_put_self (.file (text.toUTF8.extract 0 count)) hopens.1.ne_nil
  exact ⟨(alters_put hopens _).opens_iff.2 hopens, count, hfault, hfound⟩

namespace Spoils

variable {path text : String} {error : FileError} {before after : FileSystem}

theorem alters (h : Spoils device path text error before after) : Alters [path] before after := by
  cases h with
  | unopened => exact ⟨rfl, fun _ => Iff.rfl, fun _ => .inl rfl⟩
  | stopped hopens => exact alters_put hopens _

theorem find?_eq_or_broken (h : Spoils device path text error before after)
    (place : List String) :
    after.find? place = before.find? place ∨ after.Broken device path text error place := by
  cases h with
  | unopened => exact .inl rfl
  | @stopped there count hopens hfault =>
    by_cases heq : place = there
    · rw [heq]
      exact .inr (broken_put hopens hfault)
    · exact .inl (find?_put_of_ne before _ heq)

/-- A file that could be opened holds the beginning of its text. -/
theorem unopened_or_broken (h : Spoils device path text error before after) :
    (after.target device path = .error error ∧
        ∀ place, ¬after.Broken device path text error place) ∨
      ∃ place, after.Broken device path text error place := by
  cases h with
  | unopened htarget => exact .inl ⟨htarget, not_broken_of_target htarget⟩
  | @stopped place _ hopens hfault => exact .inr ⟨place, broken_put hopens hfault⟩

end Spoils

end RegMap.FileSystem
