import DiceLedger.Disk.Basic
import DiceLedger.Roll.Log
import DiceLedger.Session.Csv
import DiceLedger.Text.Integer
import DiceLedger.Text.Lines
import DiceLedger.Time.Iso
import DiceLedger.Time.IsoReader

/-!
# Session files

A session file has a header and one row for each die. The header names the columns, which may
come in any order and among others; the last column of a name counts. Rows are turned into
records one after the other as they are read, and the first fault ends the reading, whether it
lies in a row, in the rows or in the bytes.
-/

namespace DiceLedger.Session

open DiceLedger.Text DiceLedger.Time

inductive Column
  | user
  | result
  | sides
  | time
  deriving DecidableEq, Repr

def Column.name : Column → String
  | .user => "user_id"
  | .result => "result"
  | .sides => "sides"
  | .time => "timestamp"

def header : Csv.Row := [Column.user, .result, .sides, .time].map (·.name.toList)

def row (r : RollRecord) : Csv.Row :=
  [signedDecimal r.roller, signedDecimal r.result, signedDecimal r.sides, r.time.isoText]

def rowBytes (rows : List Csv.Row) : ByteArray := Utf8.write (rows.flatMap Csv.writeRow)

inductive Cause
  | disk (fault : DiskFault)
  | bytes (fault : Utf8.Fault)
  | noColumn (column : Column)
  | integer (fault : Integer.Fault)
  | time (fault : IsoFault)
  deriving DecidableEq, Repr

def Cause.message : Cause → String
  | .disk fault => fault.message
  | .bytes fault => fault.message
  | .noColumn column => quoted column.name
  | .integer fault => fault.message
  | .time fault => fault.message

/-- Why a session cannot be loaded. A row that is too short and a field that is too long are
not reported as faults of the session. -/
inductive LoadFault
  | unloadable (session : String) (cause : Cause)
  | missing (column : Column)
  | overlong
  deriving DecidableEq, Repr

def LoadFault.message : LoadFault → String
  | .unloadable session cause => "Could not load session " ++ session ++ ": " ++ cause.message
  | .missing .time => "fromisoformat: argument must be str"
  | .missing _ =>
    "int() argument must be a string, a bytes-like object or a real number, not 'NoneType'"
  | .overlong => "field larger than field limit (131072)"

/-- The place of the last column of a name. -/
def column? (names : Csv.Row) (c : Column) : Option Nat :=
  (names.zipIdx.filter fun (name, _) => name = c.name.toList).getLast?.map (·.2)

def field (session : String) (names fields : Csv.Row) (c : Column) : Except LoadFault String :=
  match column? names c with
  | none => .error (.unloadable session (.noColumn c))
  | some place =>
    match fields[place]? with
    | none => .error (.missing c)
    | some chars => .ok (String.ofList chars)

def integerField (session : String) (names fields : Csv.Row) (c : Column) :
    Except LoadFault Int := do
  (Integer.read (← field session names fields c)).mapError (.unloadable session <| .integer ·)

def record (session : String) (names fields : Csv.Row) : Except LoadFault RollRecord := do
  let roller ← integerField session names fields .user
  let result ← integerField session names fields .result
  let sides ← integerField session names fields .sides
  let time ← (IsoReader.read (← field session names fields .time)).mapError
    (.unloadable session <| .time ·)
  return { roller, result, sides, time }

/-- The records of a file's bytes. Empty rows do not count, but the first row is the header
even if it is empty. -/
def parse (session : String) (content : ByteArray) : Except LoadFault (List RollRecord) := do
  let reading := Utf8.read content
  let sheet := Csv.read reading.fault.isSome reading.lines
  let records ← match sheet.rows with
    | [] => .ok []
    | names :: rows => (rows.filter (· ≠ [])).mapM (record session names)
  if sheet.overlong then .error .overlong
  else match reading.fault with
    | some fault => .error (.unloadable session (.bytes fault))
    | none => .ok records

def load (d : Disk) (directory session : String) : Except LoadFault (List RollRecord) := do
  let content ← (d.read (Path.join directory session)).mapError (.unloadable session <| .disk ·)
  parse session content

end DiceLedger.Session
