import Mathlib.Data.List.Basic
import RegMap.FileSystem

/-!
# Places of paths

A path leads through directories to a place.  What is proved about it here does not depend
on the operation that the path is for.

* `Path.lastName?_join_ne`: files that end differently have different names.
* `FileSystem.walk_eq_foldlM` takes a walk apart into steps, one for each name.
* `FileSystem.Locates`: the place of a path is in the directory before its last name.
* `FileSystem.Keeps` relates a file system to a later one that still has its directories.
  Paths that led somewhere lead there still.
-/

namespace RegMap

theorem bind_eq_ok {ε α β : Type} {x : Except ε α} {f : α → Except ε β} {b : β} :
    (x >>= f) = .ok b ↔ ∃ a, x = .ok a ∧ f a = .ok b := by
  cases x <;> simp [bind, Except.bind]

/-! ## Names -/

namespace Path

/-- The name of a path in the directory that it is in. -/
def lastName? (path : String) : Option String :=
  (names path).getLast?

/-- The last name of a path ends like the path. -/
theorem exists_lastName?_append (stem : String) {ending : String} (hne : ending ≠ "")
    (hslash : '/' ∉ ending.toList) :
    ∃ front, lastName? (stem ++ ending) = some (front ++ ending) := by
  obtain ⟨before, last, hsegments⟩ := Text.exists_segments_append hslash stem.toList
  refine ⟨String.ofList last, ?_⟩
  have hlast : String.ofList (last ++ ending.toList) = String.ofList last ++ ending := by
    rw [String.ofList_append, String.ofList_toList]
  have hkept : String.ofList last ++ ending ≠ "" := by simp [hne]
  rw [lastName?, names, segments, String.toList_append, hsegments, List.map_append,
    List.filter_append, List.map_singleton, hlast, List.getLast?_append]
  simp [hkept]

/-- The path of a file ends like the name of the file. -/
theorem exists_lastName?_join (directory stem : String) {ending : String} (hne : ending ≠ "")
    (hslash : '/' ∉ ending.toList) :
    ∃ front, lastName? (join directory (stem ++ ending)) = some (front ++ ending) := by
  rw [join]
  split_ifs
  · exact exists_lastName?_append stem hne hslash
  · rw [← String.append_assoc]
    exact exists_lastName?_append _ hne hslash
  · rw [toString, instToStringString, ← String.append_assoc]
    exact exists_lastName?_append _ hne hslash

/-- Files with different last characters have different last names. -/
theorem lastName?_join_ne (directory stem other : String) {left right : String} {a b : Char}
    (hleft : left.toList.getLast? = some a) (hright : right.toList.getLast? = some b)
    (hab : a ≠ b) (hslash : '/' ∉ left.toList) (hslash' : '/' ∉ right.toList) :
    lastName? (join directory (stem ++ left)) ≠ lastName? (join directory (other ++ right)) := by
  have hne : ∀ {ending : String} {c : Char}, ending.toList.getLast? = some c → ending ≠ "" := by
    rintro ending c hlast rfl
    cases hlast
  obtain ⟨front, hfront⟩ := exists_lastName?_join directory stem (hne hleft) hslash
  obtain ⟨front', hfront'⟩ := exists_lastName?_join directory other (hne hright) hslash'
  rw [hfront, hfront']
  intro h
  have hlast := congrArg (fun name : Option String => name.bind (·.toList.getLast?)) h
  simp [List.getLast?_append, hleft, hright, hab] at hlast

end Path

namespace FileSystem

/-! ## Walks -/

theorem enter_eq_ok_iff {files : FileSystem} {place result : List String} :
    files.enter place = .ok result ↔ files.find? place = some .directory ∧ result = place := by
  rw [enter]
  cases hfound : files.find? place with
  | none => simp
  | some entry =>
    cases entry with
    | directory => simp [eq_comm]
    | file content => simp

/-- Where a name leads from a directory. -/
def next (place : List String) (name : String) : Except FileError (List String) :=
  if name = "." then .ok place
  else if name = ".." then .ok place.dropLast
  else if name.utf8ByteSize > maxName then .error .nameTooLong
  else .ok (place ++ [name])

/-- One step of a walk. -/
def step (files : FileSystem) (place : List String) (name : String) :
    Except FileError (List String) :=
  files.enter place >>= (next · name)

theorem walk_eq_foldlM (files : FileSystem) (place names : List String) :
    files.walk place names = names.foldlM files.step place := by
  induction names generalizing place with
  | nil => rfl
  | cons name rest ih =>
    rw [walk, List.foldlM_cons, step, bind_assoc]
    refine bind_congr fun inside => ?_
    rw [next]
    split
    · exact ih inside
    · split
      · exact ih inside.dropLast
      · split
        · rfl
        · exact ih (inside ++ [name])

/-- A path leads to the place of its last name in the directory that it is in. -/
theorem place_of_parent {files : FileSystem} {path name : String} {directory : List String}
    (h : files.parent path = .ok (directory, some name)) :
    files.place path = .ok (directory ++ [name]) ∧ Path.lastName? path = some name := by
  obtain ⟨_, hcheck, h⟩ := bind_eq_ok.1 h
  obtain ⟨front, hfront, h⟩ := bind_eq_ok.1 h
  obtain ⟨inside, hinside, h⟩ := bind_eq_ok.1 h
  split at h
  · cases h
  · cases h
  · cases h
  · rename_i last hdot hdots hlast
    split at h
    · cases h
    · rename_i hsize
      cases h
      have hnames : (Path.names path).dropLast ++ [name] = Path.names path :=
        List.dropLast_append_getLast? name hlast
      have hstep : files.step front name = .ok (directory ++ [name]) := by
        rw [step, hinside]
        change next directory name = _
        rw [next, if_neg (by rintro rfl; exact hdot rfl), if_neg (by rintro rfl; exact hdots rfl),
          if_neg hsize]
      refine ⟨?_, hlast⟩
      -- the walk to the last name is the walk to the directory and one step more
      rw [FileSystem.place, hcheck]
      change files.walk _ _ = _
      rw [← hnames, walk_eq_foldlM, List.foldlM_append, ← walk_eq_foldlM, hfront]
      change [name].foldlM files.step front = _
      rw [List.foldlM_cons, hstep]
      rfl

/-- Where the file of a path is: it has a name in a directory that is there. -/
def Locates (files : FileSystem) (path : String) (place : List String) : Prop :=
  ∃ directory name, files.parent path = .ok (directory, some name) ∧ place = directory ++ [name]

namespace Locates

variable {files : FileSystem} {path : String} {place : List String} (h : files.Locates path place)
include h

theorem place_eq : files.place path = .ok place := by
  obtain ⟨directory, name, hparent, rfl⟩ := h
  exact (place_of_parent hparent).1

theorem lastName?_eq : Path.lastName? path = place.getLast? := by
  obtain ⟨directory, name, hparent, rfl⟩ := h
  rw [(place_of_parent hparent).2, List.getLast?_concat]

theorem ne_nil : place ≠ [] := by
  obtain ⟨directory, name, -, rfl⟩ := h
  exact List.concat_ne_nil name directory

end Locates

/-! ## Later file systems -/

/-- Paths start where they did, and directories are still there. -/
structure Keeps (before after : FileSystem) : Prop where
  workingDirectory_eq : after.workingDirectory = before.workingDirectory
  find?_eq : ∀ place, before.find? place = some .directory → after.find? place = some .directory

/-- What is put where there was no directory does not take one away. -/
theorem keeps_put {files : FileSystem} {place : List String}
    (h : files.find? place ≠ some .directory) (entry : Entry) :
    files.Keeps (files.put place entry) where
  workingDirectory_eq := rfl
  find?_eq := by
    intro other hother
    have hne : other ≠ place := by
      rintro rfl
      exact h hother
    rw [find?_put_of_ne files entry hne, hother]

namespace Keeps

variable {before after : FileSystem} (h : before.Keeps after)
include h

theorem enter {place result : List String} (hok : before.enter place = .ok result) :
    after.enter place = .ok result := by
  rw [enter_eq_ok_iff] at hok ⊢
  exact ⟨h.find?_eq place hok.1, hok.2⟩

theorem walk {place names result : List String} (hok : before.walk place names = .ok result) :
    after.walk place names = .ok result := by
  rw [walk_eq_foldlM] at hok ⊢
  induction names generalizing place with
  | nil => exact hok
  | cons name rest ih =>
    rw [List.foldlM_cons, bind_eq_ok] at hok ⊢
    obtain ⟨inside, hstep, hrest⟩ := hok
    obtain ⟨entered, henter, hnext⟩ := bind_eq_ok.1 hstep
    exact ⟨inside, bind_eq_ok.2 ⟨entered, h.enter henter, hnext⟩, ih hrest⟩

theorem origin_eq (path : String) : after.origin path = before.origin path := by
  rw [origin, origin, h.workingDirectory_eq]

theorem place {path : String} {result : List String} (hok : before.place path = .ok result) :
    after.place path = .ok result := by
  obtain ⟨_, hcheck, hwalk⟩ := bind_eq_ok.1 hok
  refine bind_eq_ok.2 ⟨_, hcheck, ?_⟩
  rw [h.origin_eq]
  exact h.walk hwalk

theorem parent {path : String} {result : List String × Option String}
    (hok : before.parent path = .ok result) : after.parent path = .ok result := by
  obtain ⟨_, hcheck, hok⟩ := bind_eq_ok.1 hok
  obtain ⟨front, hfront, hok⟩ := bind_eq_ok.1 hok
  obtain ⟨inside, hinside, hlast⟩ := bind_eq_ok.1 hok
  refine bind_eq_ok.2 ⟨_, hcheck, bind_eq_ok.2 ⟨front, ?_, ?_⟩⟩
  · rw [h.origin_eq]
    exact h.walk hfront
  · exact bind_eq_ok.2 ⟨inside, h.enter hinside, hlast⟩

theorem locates {path : String} {place : List String} (hpath : before.Locates path place) :
    after.Locates path place := by
  obtain ⟨directory, name, hparent, rfl⟩ := hpath
  exact ⟨directory, name, h.parent hparent, rfl⟩

end Keeps

end FileSystem

end RegMap
