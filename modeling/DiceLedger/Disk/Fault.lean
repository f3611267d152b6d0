import DiceLedger.Text.Quoted

/-!
# Faults of a file system

Every operation on files may fail, in one of the ways that the system numbers. A path that
holds a null character does not even reach the system.
-/

namespace DiceLedger

open DiceLedger.Text

/-- The ways in which the system fails whatever is on the disk. -/
inductive Trouble
  | inputOutput
  | denied
  | noSpace
  deriving DecidableEq, Repr

/-- The ways in which the system fails: over what is, or is not, at a path, and by trouble. -/
inductive Errno
  | noEntry
  | taken
  | notDirectory
  | isDirectory
  | nameTooLong
  | trouble (t : Trouble)
  deriving DecidableEq, Repr

def Errno.code : Errno → Nat
  | .noEntry => 2
  | .trouble .inputOutput => 5
  | .trouble .denied => 13
  | .taken => 17
  | .notDirectory => 20
  | .isDirectory => 21
  | .trouble .noSpace => 28
  | .nameTooLong => 36

def Errno.text : Errno → String
  | .noEntry => "No such file or directory"
  | .trouble .inputOutput => "Input/output error"
  | .trouble .denied => "Permission denied"
  | .taken => "File exists"
  | .notDirectory => "Not a directory"
  | .isDirectory => "Is a directory"
  | .trouble .noSpace => "No space left on device"
  | .nameTooLong => "File name too long"

inductive DiskFault
  | system (error : Errno) (path : String)
  | nullInPath
  deriving DecidableEq, Repr

def DiskFault.message : DiskFault → String
  | .system error path =>
    "[Errno " ++ String.ofList (decimal error.code) ++ "] " ++ error.text ++ ": " ++ quoted path
  | .nullInPath => "embedded null byte"

end DiceLedger
