import Cadence.Config.Text

/-!
A folder of configuration files. A path goes through directories, one name after the other, where a dot stays in place
and two dots go back up, but not out of the folder. A path that ends with a slash can only mean a directory, so that no
file is written there. `load` and `save` read and write configurations, and `saveTemplate` leaves alone what is there
already.
-/

namespace Cadence

/-- A file holds a text, or bytes that are none. -/
inductive FolderEntry
  | directory
  | file (content : Option String)
deriving DecidableEq

structure FolderPath where
  directories : List String
  /-- Nothing, if the path ends at the last of the directories. -/
  last : Option String
  slash : Bool

def FolderPath.ofText (text : String) : FolderPath :=
  let parts := text.splitOn "/"
  let names := parts.filter fun part => part != ""
  let slash := parts.getLast? == some ""
  match names.getLast? with
  | none => ⟨[], none, slash⟩
  | some name => if name = "." ∨ name = ".." then ⟨names, none, slash⟩ else ⟨names.dropLast, some name, slash⟩

abbrev Location := List String

structure Folder where
  entries : List (Location × FolderEntry)

namespace Folder

def fileName : String := "timer.toml"

def empty : Folder := ⟨[]⟩

def find? (f : Folder) (place : Location) : Option FolderEntry :=
  if place.isEmpty then some .directory else f.entries.lookup place

private def set (f : Folder) (place : Location) (e : FolderEntry) : Folder :=
  ⟨(place, e) :: f.entries.filter fun old => old.1 != place⟩

def enter (f : Folder) (here : Location) (name : String) : Except FileFault Location :=
  if name = "." then .ok here
  else if name = ".." then .ok here.dropLast
  else match f.find? (here ++ [name]) with
    | none => .error .notFound
    | some .directory => .ok (here ++ [name])
    | some (.file _) => .error .notDirectory

def locate (f : Folder) (path : FolderPath) : Except FileFault Location := do
  let here ← path.directories.foldlM f.enter []
  .ok (here ++ path.last.toList)

def read (f : Folder) (path : FolderPath) : Except FileFault String := do
  let place ← f.locate path
  match f.find? place with
  | none => .error .notFound
  | some .directory => .error .isDirectory
  | some (.file content) =>
    if path.slash then .error .notDirectory
    else match content with
      | none => .error .notText
      | some text => .ok text

def write (f : Folder) (path : FolderPath) (content : Option String) : Except FileFault Folder := do
  let place ← f.locate path
  if path.slash ∨ f.find? place = some .directory then .error .isDirectory else .ok (f.set place (.file content))

private def enterOrMake (state : Folder × Location) (name : String) : Except FileFault (Folder × Location) :=
  let (f, here) := state
  match f.enter here name with
  | .ok next => .ok (f, next)
  | .error .notFound => .ok (f.set (here ++ [name]) .directory, here ++ [name])
  | .error fault => .error fault

def makeDirectory (f : Folder) (path : FolderPath) : Except FileFault Folder := do
  let (f, here) ← path.directories.foldlM enterOrMake (f, [])
  let place := here ++ path.last.toList
  match f.find? place with
  | none => .ok (f.set place .directory)
  | some .directory => .ok f
  | some (.file _) => .error .alreadyThere

def exists? (f : Folder) (path : FolderPath) : Bool :=
  match f.locate path with
  | .error _ => false
  | .ok place =>
    match f.find? place with
    | none => false
    | some .directory => true
    | some (.file _) => ! path.slash

/-- The configuration in a file. `shown` is the path as messages show it. -/
def load [TzDatabase] (f : Folder) (path : FolderPath) (shown : String) : Except Error Configuration :=
  match f.read path with
  | .error fault => .error (.config (.unreadableFile shown fault))
  | .ok text =>
    match Configuration.ofText text with
    | .error (.config fault) => .error (.config (.inFile shown fault))
    | result => result

def putText (f : Folder) (path : FolderPath) (text : String) : Except Error Folder :=
  match f.write path (some text) with
  | .ok f => .ok f
  | .error fault => .error (.file fault)

def save (f : Folder) (path : FolderPath) (c : Configuration) : Except Error Folder := do
  let text ← c.toText
  f.putText path text

def saveTemplate (f : Folder) (path : FolderPath) : Except Error Folder :=
  if f.exists? path then .ok f else f.putText path Configuration.template

theorem find?_set (f : Folder) (place : Location) (e : FolderEntry) (nonempty : place ≠ []) :
    (f.set place e).find? place = some e := by
  simp [find?, set, nonempty]

theorem find?_set_other (f : Folder) {place other : Location} (e : FolderEntry) (different : other ≠ place) :
    (f.set place e).find? other = f.find? other := by
  have kept : (f.entries.filter fun old => old.1 != place).lookup other = f.entries.lookup other := by
    induction f.entries with
    | nil => rfl
    | cons old entries ih =>
      obtain ⟨key, held⟩ := old
      by_cases same : key = place
      · have passed : (other == key) = false := by simp [same, different]
        rw [List.filter_cons_of_neg (by simp [same]), ih]
        simp [List.lookup_cons, passed]
      · rw [List.filter_cons_of_pos (by simp [same])]
        simp only [List.lookup_cons, ih]
  have new : (other == place) = false := by simp [different]
  simp [find?, set, List.lookup_cons, new, kept]

theorem write_eq_ok {f g : Folder} {path : FolderPath} {content : Option String} (h : f.write path content = .ok g) :
    ∃ place, f.locate path = .ok place ∧ path.slash = false ∧ f.find? place ≠ some .directory ∧
      g.find? place = some (.file content) ∧ ∀ other, other ≠ place → g.find? other = f.find? other := by
  rw [write] at h
  cases located : f.locate path with
  | error fault =>
    rw [located] at h
    cases h
  | ok place =>
    rw [located] at h
    simp only [bind, Except.bind] at h
    split at h
    · cases h
    · rename_i allowed
      cases h
      obtain ⟨file, free⟩ := not_or.mp allowed
      have nonempty : place ≠ [] := by
        rintro rfl
        exact free rfl
      exact ⟨place, rfl, by simpa using file, free, f.find?_set place _ nonempty,
        fun _ different => f.find?_set_other _ different⟩

theorem write_other {f g : Folder} {path : FolderPath} {content : Option String} (h : f.write path content = .ok g)
    (other : Option String) : ∃ g, f.write path other = .ok g := by
  obtain ⟨place, located, file, free, -⟩ := write_eq_ok h
  exact ⟨_, by rw [write, located]; exact if_neg (by simp [file, free])⟩

section Write

variable {f g : Folder} {path : FolderPath} {content : Option String} (h : f.write path content = .ok g)
include h

theorem enter_write {here next : Location} {name : String} (entered : f.enter here name = .ok next) :
    g.enter here name = .ok next := by
  obtain ⟨place, -, -, free, -, kept⟩ := write_eq_ok h
  rw [enter] at entered ⊢
  split
  · rwa [if_pos ‹_›] at entered
  · rw [if_neg ‹_›] at entered
    split
    · rwa [if_pos ‹_›] at entered
    · rw [if_neg ‹_›] at entered
      -- A directory that can be entered is not the place of the file.
      have elsewhere : here ++ [name] ≠ place := by
        intro same
        rw [same] at entered
        split at entered
        · cases entered
        · exact free ‹_›
        · cases entered
      rwa [kept _ elsewhere]

theorem locate_write {other : FolderPath} {place : Location} (located : f.locate other = .ok place) :
    g.locate other = .ok place := by
  have entered : ∀ (names : List String) (here next : Location), names.foldlM f.enter here = .ok next →
      names.foldlM g.enter here = .ok next := by
    intro names
    induction names with
    | nil => exact fun _ _ same => same
    | cons name names ih =>
      intro here next walked
      rw [List.foldlM_cons] at walked ⊢
      cases first : f.enter here name with
      | error fault =>
        rw [first] at walked
        cases walked
      | ok there =>
        rw [first] at walked
        rw [enter_write h first]
        exact ih there next walked
  rw [locate] at located ⊢
  cases walked : other.directories.foldlM f.enter [] with
  | error fault =>
    rw [walked] at located
    cases located
  | ok here =>
    rw [walked] at located
    rw [entered _ _ _ walked]
    exact located

end Write

theorem read_write {f g : Folder} {path : FolderPath} {text : String} (h : f.write path (some text) = .ok g) :
    g.read path = .ok text := by
  obtain ⟨place, located, file, -, found, -⟩ := write_eq_ok h
  rw [read, locate_write h located]
  simp [bind, Except.bind, found, file]

end Folder

end Cadence
