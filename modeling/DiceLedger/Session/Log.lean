import DiceLedger.Session.Load

/-!
# The session log

Rolls are kept in sessions, each a file of its own in one directory; an index lists them in
the order in which they were begun, and the last one is current. A record is not written at
once: it waits in memory, marked with the session that was current when it came, until the
log is flushed. What a flush cannot write keeps waiting, ahead of what came meanwhile.

Other hands are at work too: at each of its operations on files, `Turn` says what is recorded
just then and whether the operation fails. The log proceeds one operation at a time, so that
what it leaves behind at any failure can be told.
-/

namespace DiceLedger.Session

open DiceLedger.Text DiceLedger.Time

/-- A record that waits to be written, and its session. -/
structure Pending where
  session : String
  record : RollRecord
  deriving DecidableEq, Repr

/-- A log of sessions kept in `directory`. -/
structure Log where
  directory : String
  current : Option String := none
  pending : List Pending := []
  deriving DecidableEq, Repr

/-- What happens at one operation on files: records that come in just before it, and the
trouble, if any, with which it fails. An operation that fails so changes nothing. -/
structure Turn where
  arrivals : List RollRecord := []
  failure : Option Trouble := none
  deriving DecidableEq, Repr

/-- A log, the disk it writes to, and the turns to come. When none are left the disk is at
the log's service. -/
structure Archive where
  log : Log
  disk : Disk
  turns : List Turn := []

inductive Fault
  | noSession
  | disk (fault : DiskFault)
  | index (fault : Utf8.Fault)
  deriving DecidableEq, Repr

def Fault.message : Fault → String
  | .noSession => "No roll session is open."
  | .disk fault => fault.message
  | .index fault => fault.message

namespace Log

def record (log : Log) (r : RollRecord) : Except Fault Log :=
  match log.current with
  | none => .error .noSession
  | some session => .ok { log with pending := log.pending ++ [⟨session, r⟩] }

/-- The log after records of other hands; they are lost while no session is open. -/
def receive (log : Log) (rs : List RollRecord) : Log :=
  match log.current with
  | none => log
  | some session => { log with pending := log.pending ++ rs.map (⟨session, ·⟩) }

def path (log : Log) (name : String) : String := Path.join log.directory name

def indexName : String := "sessions.txt"

def indexPath (log : Log) : String := log.path indexName

end Log

/-- A step of the log's work. What it has done stays done when it fails. -/
abbrev Work := EStateM Fault Archive

/-- One operation on files, at its turn. -/
def attempt (path : String) (change : Disk.Change) (a : Archive) :
    Except DiskFault Unit × Archive :=
  let turn := a.turns.head?.getD {}
  let a := { a with log := a.log.receive turn.arrivals, turns := a.turns.tail }
  match turn.failure with
  | some trouble => (.error (.system (.trouble trouble) path), a)
  | none =>
    match change a.disk with
    | .ok () disk => (.ok (), { a with disk })
    | .error fault disk => (.error fault, { a with disk })

def perform (path : String) (change : Disk.Change) : Work Unit := fun a =>
  match attempt path change a with
  | (.ok (), a) => .ok () a
  | (.error fault, a) => .error (.disk fault) a

/-- The records of each session, sessions in the order of their first record. -/
def groups (batch : List Pending) : List (String × List RollRecord) :=
  (batch.map (·.session)).eraseDups.map fun session =>
    (session, (batch.filter (·.session = session)).map (·.record))

/-- Write records at the end of their session's file. -/
def Log.appendRows (log : Log) (session : String) (rs : List RollRecord) : Disk.Change :=
  Disk.step (·.append (log.path session) (rowBytes (rs.map row)))

/-- Write group after group, and return the records that could not be written. An error that
is not the system's ends the work. -/
def writeGroups : List (String × List RollRecord) → Work (List Pending)
  | [] => return []
  | (session, rs) :: rest => fun a =>
    match attempt (a.log.path session) (a.log.appendRows session rs) a with
    | (.ok (), a) => writeGroups rest a
    | (.error (.system _ _), a) =>
      match writeGroups rest a with
      | .ok failed a => .ok (rs.map (⟨session, ·⟩) ++ failed) a
      | .error fault a => .error fault a
    | (.error .nullInPath, a) => .error (.disk .nullInPath) a

/-- Write all that waits. The answer tells whether something could not be written; it waits on. -/
def flush : Work Bool := do
  let batch := (← get).log.pending
  modify fun a => { a with log := { a.log with pending := [] } }
  let failed ← writeGroups (groups batch)
  modify fun a => { a with log := { a.log with pending := failed ++ a.log.pending } }
  return !failed.isEmpty

/-- The names in an index: its lines without the blanks around them, empty ones left out. -/
def names (index : List Char) : List String :=
  ((stretches index).map trim).filter (!·.isEmpty) |>.map String.ofList

/-- The sessions in the order in which they were begun; none while there is no index. -/
def sessions (a : Archive) : Except Fault (List String) :=
  match a.disk.read a.log.indexPath with
  | .error (.system .noEntry _) => .ok []
  | .error fault => .error (.disk fault)
  | .ok content =>
    let reading := Utf8.read content
    match reading.fault with
    | some fault => .error (.index fault)
    | none => .ok (names reading.text)

/-- The `n`-th name for a session that begins at a moment, counted from zero: from the second
on they are numbered. -/
def candidate (begun : Moment) (n : Nat) : String :=
  let number := if n = 0 then [] else '_' :: decimal (n + 1)
  String.ofList (begun.stem ++ number ++ ".csv".toList)

/-- Is a name neither that of the current session nor that of a file? -/
def isFree (a : Archive) (name : String) : Bool :=
  a.log.current ≠ some name && !a.disk.isThere (a.log.path name)

/-- A name for a session that begins now: the first that is free. Every name that is not free
is the current one or takes up an entry of the disk, so two more candidates than there are
entries suffice. -/
def freshName (begun : Moment) (a : Archive) : String :=
  let candidates := (List.range (a.disk.entries.length + 2)).map (candidate begun)
  (candidates.find? (isFree a)).getD (candidate begun (a.disk.entries.length + 2))

/-- Make the file of a session, with its header. -/
def Log.makeSheet (log : Log) (name : String) : Work Unit := do
  perform (log.path name) (Disk.step (·.create (log.path name)))
  perform (log.path name) (Disk.step (·.append (log.path name) (rowBytes [header])))

/-- Make the file of a session that begins now, and list it. -/
def enlist (now : Moment) : Work String := do
  let log := (← get).log
  let name := freshName now.toUniversal (← get)
  log.makeSheet name
  perform log.indexPath
    (Disk.step (·.append log.indexPath (Utf8.write (name.toList ++ ['\n']))))
  return name

/-- Let a session be the current one. -/
def Archive.resume (a : Archive) (name : String) : Archive :=
  { a with log := { a.log with current := some name } }

/-- Begin a session: write what waits, make the directory and the file with its header, list
it, and only then let it be current. -/
def newSession (now : Moment) : Work String := do
  let _ ← flush
  let log := (← get).log
  perform log.directory (Disk.makeDirectories log.directory)
  let name ← enlist now
  modify (·.resume name)
  return name

def consult : Work (List String) := do
  let path := (← get).log.indexPath
  perform path (pure ())
  match sessions (← get) with
  | .error fault => throw fault
  | .ok listed => return listed

/-- Resume the last session, or begin the first. -/
def init (now : Moment) : Work String := do
  let log := (← get).log
  perform log.directory (Disk.makeDirectories log.directory)
  match (← consult).getLast? with
  | none => newSession now
  | some name =>
    modify (·.resume name)
    return name

def recordRoll (r : RollRecord) : Work Unit := fun a =>
  match a.log.record r with
  | .ok log => .ok () { a with log }
  | .error fault => .error fault a

/-- The session log as a log of rolls. -/
def rollLog : RollLog Log where
  record r log :=
    match log.record r with
    | .ok log => (none, log)
    | .error fault => (some (.refused fault.message), log)

end DiceLedger.Session
