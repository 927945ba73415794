import RegMap.FileStore

/-!
# File systems as values

A file system is a tree of directories and files, given by what there is at each
place. Places are lists of names from the root, which is always a directory. What
is to be written goes to a device, which may not take it, or not all of it.
-/

namespace RegMap

/-- What there is at a place. -/
inductive Entry where
  | directory
  | file (content : ByteArray)

/-- A tree of directories and files, with the directory in which relative paths start. -/
structure FileSystem where
  workingDirectory : List String
  entries : List (List String × Entry)

/-- What keeps a device from writing, place by place. A file may be opened, which
empties it or makes it, and still not take all of its content. -/
structure Device where
  /-- Why a directory cannot be made where there is nothing. -/
  makeFault? (place : List String) : Option FileError
  /-- Why a file cannot be opened to be written. -/
  openFault? (place : List String) : Option FileError
  /-- After how many octets the writing of a content ends, and why. -/
  writeFault? (place : List String) (content : ByteArray) : Option (Nat × FileError)

/-- The device that takes everything. -/
def Device.sound : Device where
  makeFault? _ := none
  openFault? _ := none
  writeFault? _ _ := none

namespace FileSystem

/-- What there is at a place, if anything. -/
def find? (files : FileSystem) (place : List String) : Option Entry :=
  if place = [] then some .directory else files.entries.lookup place

/-- The file system with something else at a place. -/
def put (files : FileSystem) (place : List String) (entry : Entry) : FileSystem :=
  { files with entries := (place, entry) :: files.entries.filter (·.1 ≠ place) }

theorem find?_put_self (files : FileSystem) {place : List String} (entry : Entry)
    (h : place ≠ []) : (files.put place entry).find? place = some entry := by
  simp [find?, put, h]

/-- Leaving out the entries of one place does not change what there is at others. -/
theorem lookup_filter_ne {place other : List String} (entries : List (List String × Entry))
    (h : other ≠ place) :
    (entries.filter (·.1 ≠ place)).lookup other = entries.lookup other := by
  induction entries with
  | nil => rfl
  | cons pair rest ih =>
    obtain ⟨found, entry⟩ := pair
    by_cases hp : found = place
    · have hne : (other == found) = false := by simpa [hp] using h
      rw [List.filter_cons_of_neg (by simpa using hp), ih, List.lookup_cons, hne]
    · rw [List.filter_cons_of_pos (by simpa using hp), List.lookup_cons, List.lookup_cons, ih]

theorem find?_put_of_ne (files : FileSystem) {place other : List String} (entry : Entry)
    (h : other ≠ place) : (files.put place entry).find? other = files.find? other := by
  have hne : (other == place) = false := by simpa using h
  unfold find? put
  rw [List.lookup_cons, hne, lookup_filter_ne files.entries h]

/-! ## Finding places -/

/-- The longest name, in octets. -/
def maxName : Nat := 255

/-- The longest path, in octets. -/
def maxPath : Nat := 4095

/-- Checks that a place is a directory. -/
def enter (files : FileSystem) (place : List String) : Except FileError (List String) :=
  match files.find? place with
  | some .directory => .ok place
  | some (.file _) => .error .notDirectory
  | none => .error .notFound

/-- The place that names lead to from a place. All but the last are names in
directories; `..` leads out of one, but not out of the root. -/
def walk (files : FileSystem) (place : List String) :
    List String → Except FileError (List String)
  | [] => .ok place
  | name :: rest => do
    let place ← files.enter place
    if name = "." then walk files place rest
    else if name = ".." then walk files place.dropLast rest
    else if name.utf8ByteSize > maxName then throw .nameTooLong
    else walk files (place ++ [name]) rest

/-- Checks what a path may look like. -/
def checkPath (path : String) : Except FileError Unit :=
  if path.toList.contains '\x00' then .error .nulInPath
  else if path = "" then .error .notFound
  else if path.utf8ByteSize > maxPath then .error .nameTooLong
  else .ok ()

/-- Where a path starts. -/
def origin (files : FileSystem) (path : String) : List String :=
  if Path.isAbsolute path then [] else files.workingDirectory

/-- The place of a path. -/
def place (files : FileSystem) (path : String) : Except FileError (List String) := do
  checkPath path
  files.walk (files.origin path) (Path.names path)

/-- The directory that a path's last name is in, and that name. Names that lead
to directories which are there anyway are not counted. -/
def parent (files : FileSystem) (path : String) :
    Except FileError (List String × Option String) := do
  checkPath path
  let names := Path.names path
  let place ← files.enter (← files.walk (files.origin path) names.dropLast)
  match names.getLast? with
  | none | some "." | some ".." => return (place, none)
  | some name =>
    if name.utf8ByteSize > maxName then throw .nameTooLong else return (place, some name)

/-! ## Operations -/

/-- Whether there is a directory at a path. -/
def isDirectory (files : FileSystem) (path : String) : Bool :=
  match files.place path with
  | .error _ => false
  | .ok place => (files.enter place).isOk

/-- The text of a file. -/
def readText (files : FileSystem) (path : String) : Except FileError String := do
  let place ← files.place path
  match files.find? place with
  | none => throw .notFound
  | some .directory => throw .isDirectory
  | some (.file content) =>
    if Path.endsInSlash path then
      throw .notDirectory
    match String.fromUTF8? content with
    | some text => return text
    | none => throw .notText

/-- The file system with a new directory. -/
def makeDirectory (files : FileSystem) (device : Device) (path : String) :
    Except FileError FileSystem := do
  let (place, name) ← files.parent path
  match name with
  | none => throw .alreadyExists
  | some name =>
    if (files.find? (place ++ [name])).isSome then throw .alreadyExists
    else
      match device.makeFault? (place ++ [name]) with
      | some error => throw error
      | none => return files.put (place ++ [name]) .directory

/-- The place of a file that can be opened to be written. -/
def target (files : FileSystem) (device : Device) (path : String) :
    Except FileError (List String) := do
  let (place, name) ← files.parent path
  match name with
  | none => throw .isDirectory
  | some name =>
    if Path.endsInSlash path then
      throw .isDirectory
    match files.find? (place ++ [name]) with
    | some .directory => throw .isDirectory
    | _ =>
      match device.openFault? (place ++ [name]) with
      | some error => throw error
      | none => return place ++ [name]

/-- Writes a text into a file. If the device stops in between, the file holds what
was written until then. -/
def write (files : FileSystem) (device : Device) (path text : String) :
    Except FileError Unit × FileSystem :=
  match files.target device path with
  | .error error => (.error error, files)
  | .ok place =>
    match device.writeFault? place text.toUTF8 with
    | some (count, error) => (.error error, files.put place (.file (text.toUTF8.extract 0 count)))
    | none => (.ok (), files.put place (.file text.toUTF8))

/-- Changes a file system unless that fails. -/
def change (operation : FileSystem → Except FileError FileSystem) :
    StateM FileSystem (Except FileError Unit) := fun files =>
  match operation files with
  | .ok files => (.ok (), files)
  | .error error => (.error error, files)

/-- The store on a device whose files are the state. -/
def store (device : Device := .sound) : FileStore (StateM FileSystem) where
  readText path := return (← get).readText path
  makeDirectory path := change (·.makeDirectory device path)
  isDirectory path := return (← get).isDirectory path
  write path text := (·.write device path text)

end FileSystem

end RegMap
