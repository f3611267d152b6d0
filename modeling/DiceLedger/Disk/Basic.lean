import DiceLedger.Disk.Fault
import DiceLedger.Disk.Path

/-!
# A file system

A disk holds files and directories at places; a place is the list of names that leads to it
from the root. Everything that is seen of a disk is seen through `find?`, and every change is
one `put` or one removal of a tree. Paths are followed name by name from the working
directory, and all names but the last have to be directories on the way.
-/

namespace DiceLedger

/-- The names from the root to a file or directory. -/
abbrev Place := List String

inductive Entry
  | file (content : ByteArray)
  | directory

/-- A file system, and the directory from which paths are followed. -/
structure Disk where
  entries : List (Place × Entry)
  home : Place

namespace Disk

def blank : Disk := ⟨[(["home"], .directory)], ["home"]⟩

/-- What is at a place. The root is always a directory. -/
def find? (d : Disk) (place : Place) : Option Entry :=
  if place = [] then some .directory else d.entries.lookup place

/-- Put a file or directory at a place, in place of what was there. -/
def put (d : Disk) (place : Place) (e : Entry) : Disk :=
  { d with entries := (place, e) :: d.entries.filter (·.1 ≠ place) }

def prune (d : Disk) (place : Place) : Disk :=
  { d with entries := d.entries.filter fun (other, _) => !place.isPrefixOf other }

theorem find?_root (d : Disk) : d.find? [] = some .directory := rfl

theorem lookup_filter_ne {place other : Place} (h : other ≠ place) (es : List (Place × Entry)) :
    (es.filter (·.1 ≠ place)).lookup other = es.lookup other := by
  induction es with
  | nil => rfl
  | cons e es ih =>
    obtain ⟨q, e⟩ := e
    by_cases hq : q = place
    · subst hq
      rw [List.filter_cons_of_neg (by simp), List.lookup_cons,
        show (other == q) = false by simpa using h]
      exact ih
    · rw [List.filter_cons_of_pos (by simpa using hq), List.lookup_cons, List.lookup_cons, ih]

/-- After `put`, the new entry is at its place and all else is as before. -/
theorem find?_put (d : Disk) {place : Place} (h : place ≠ []) (e : Entry) (other : Place) :
    (d.put place e).find? other = if other = place then some e else d.find? other := by
  by_cases ho : other = place
  · subst ho
    simp [find?, put, h]
  · by_cases hr : other = []
    · simp [find?, hr, Ne.symm h]
    · simp only [find?, put, hr, if_false, ho]
      rw [List.lookup_cons, show (other == place) = false by simpa using ho]
      exact lookup_filter_ne ho _

def longestName : Nat := 255

def longestPath : Nat := 4095

/-- The place that names lead to from a place. The last name need not exist. -/
def follow (d : Disk) : Place → List String → Except Errno Place
  | here, [] => .ok here
  | here, name :: rest =>
    if name = "" || name = "." then d.follow here rest
    else if name = ".." then d.follow here.dropLast rest
    else if longestName < name.utf8ByteSize then .error .nameTooLong
    else if rest.isEmpty then .ok (here ++ [name])
    else match d.find? (here ++ [name]) with
      | none => .error .noEntry
      | some (.file _) => .error .notDirectory
      | some .directory => d.follow (here ++ [name]) rest

def place? (d : Disk) (path : String) : Except DiskFault Place :=
  if path.toList.contains '\x00' then .error .nullInPath
  else if path.isEmpty then .error (.system .noEntry path)
  else if longestPath < path.utf8ByteSize then .error (.system .nameTooLong path)
  else
    let start := if path.toList.head? = some '/' then [] else d.home
    (d.follow start (Path.components path)).mapError (.system · path)

def isThere (d : Disk) (path : String) : Bool :=
  match d.place? path with
  | .ok place => (d.find? place).isSome
  | .error _ => false

def isDirectory (d : Disk) (path : String) : Bool :=
  match d.place? path with
  | .ok place =>
    match d.find? place with
    | some .directory => true
    | _ => false
  | .error _ => false

def read (d : Disk) (path : String) : Except DiskFault ByteArray := do
  let place ← d.place? path
  match d.find? place with
  | none => .error (.system .noEntry path)
  | some .directory => .error (.system .isDirectory path)
  | some (.file content) => .ok content

/-- Make a file empty, creating it if need be. -/
def create (d : Disk) (path : String) : Except DiskFault Disk := do
  let place ← d.place? path
  match d.find? place with
  | some .directory => .error (.system .isDirectory path)
  | _ => .ok (d.put place (.file .empty))

def append (d : Disk) (path : String) (bytes : ByteArray) : Except DiskFault Disk := do
  let place ← d.place? path
  match d.find? place with
  | some .directory => .error (.system .isDirectory path)
  | some (.file content) => .ok (d.put place (.file (content ++ bytes)))
  | none => .ok (d.put place (.file bytes))

/-- Make a directory in a directory that exists. Slashes at the end of the path do not count. -/
def makeDirectory (d : Disk) (path : String) : Except DiskFault Disk := do
  let bare := (path.toList.reverse.dropWhile (· = '/')).reverse
  let place ← (d.place? (if bare.isEmpty then path else String.ofList bare)).mapError fun
    | .system error _ => .system error path
    | .nullInPath => .nullInPath
  match d.find? place with
  | some _ => .error (.system .taken path)
  | none => .ok (d.put place .directory)

/-- A change that takes several steps. What it has done stays done when it fails. -/
abbrev Change := EStateM DiskFault Disk Unit

/-- A change that is made at once or not at all. -/
def step (change : Disk → Except DiskFault Disk) : Change := fun d =>
  match change d with
  | .ok d => .ok () d
  | .error fault => .error fault d

def ensureDirectory (path : String) : Change := fun d =>
  match d.makeDirectory path with
  | .ok d => .ok () d
  | .error (.system error path) =>
    if d.isDirectory path then .ok () d else .error (.system error path) d
  | .error .nullInPath => .error .nullInPath d

/-- Make a directory and those above it, as many of `levels` as are missing. A directory that
is there already will do; so will the current one, `.`, of a directory just made. -/
def makeLevels : (levels : Nat) → (path : String) → Change
  | 0, path => ensureDirectory path
  | levels + 1, path => do
    let (head, tail) := Path.parent path
    if !head.isEmpty && !tail.isEmpty && !(← get).isThere head then
      makeLevels levels head
      unless tail = "." do ensureDirectory path
    else ensureDirectory path

def makeDirectories (path : String) : Change := makeLevels path.length path

/-- Write a file anew, making its directory if need be. -/
def write (path : String) (bytes : ByteArray) : Change := do
  let directory := (Path.split path).1
  unless directory.isEmpty do makeDirectories directory
  step (·.create path)
  step (·.append path bytes)

def remove (d : Disk) (path : String) : Except DiskFault Disk := do
  let place ← d.place? path
  if (d.find? place).isSome then .ok (d.prune place) else .error (.system .noEntry path)

/-- All files and directories below the working directory, with their places from there. -/
def listing (d : Disk) : List (Place × Entry) :=
  d.entries.filterMap fun (place, e) =>
    if d.home.isPrefixOf place && place ≠ d.home then some (place.drop d.home.length, e) else none

end Disk

end DiceLedger
