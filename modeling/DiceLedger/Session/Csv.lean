/-!
# Rows of comma-separated fields

A row ends in a carriage return and a line feed, and its fields are separated by commas. A
field that holds a comma, a quote or a line end is written in quotes, and quotes in it are
doubled. The reader takes any line end, and quotes only at the start of a field; whatever
follows a closing quote belongs to the field.
-/

namespace DiceLedger.Csv

abbrev Field := List Char
abbrev Row := List Field

def fieldLimit : Nat := 131072

def isSpecial (c : Char) : Bool := c == ',' || c == '"' || c == '\r' || c == '\n'

def writeField (field : Field) : List Char :=
  if field.any isSpecial then
    '"' :: field.flatMap (fun c => if c = '"' then ['"', '"'] else [c]) ++ ['"']
  else field

def writeRow (row : Row) : List Char :=
  ",".toList.intercalate (row.map writeField) ++ ['\r', '\n']

/-- Where the reader is: before a row, behind a carriage return, before a field, in a field,
in a quoted field, or behind a quote in one. -/
inductive Mode
  | row
  | lineFeed
  | field
  | plain
  | quoted
  | quote
  deriving DecidableEq, Repr

/-- What has been read: rows, fields of the row at hand and characters of the field at hand,
the newest first, with the number of these characters. `overlong` is set by a character too
many, after which nothing is read. -/
structure Reader where
  rows : List Row := []
  fields : List Field := []
  chars : List Char := []
  size : Nat := 0
  mode : Mode := .row
  overlong : Bool := false

namespace Reader

def add (r : Reader) (c : Char) (mode : Mode) : Reader :=
  if r.size < fieldLimit then { r with chars := c :: r.chars, size := r.size + 1, mode }
  else { r with overlong := true }

def endField (r : Reader) (mode : Mode) : Reader :=
  { r with fields := r.chars.reverse :: r.fields, chars := [], size := 0, mode }

def endRow (r : Reader) (mode : Mode) : Reader :=
  { r with rows := r.fields.reverse :: r.rows, fields := [], mode }

def behind (c : Char) : Mode := if c = '\r' then .lineFeed else .row

def start (r : Reader) (c : Char) : Reader :=
  if c = '\r' || c = '\n' then (r.endField .row).endRow (behind c)
  else if c = '"' then { r with mode := .quoted }
  else if c = ',' then r.endField .field
  else r.add c .plain

/-- Read a character before a row; an empty line is a row of no fields. -/
def startRow (r : Reader) (c : Char) : Reader :=
  if c = '\r' || c = '\n' then r.endRow (behind c) else r.start c

def read (r : Reader) (c : Char) : Reader :=
  if r.overlong then r
  else match r.mode with
    | .row => r.startRow c
    | .lineFeed => if c = '\n' then { r with mode := .row } else r.startRow c
    | .field => r.start c
    | .plain =>
      if c = '\r' || c = '\n' then (r.endField .row).endRow (behind c)
      else if c = ',' then r.endField .field
      else r.add c .plain
    | .quoted => if c = '"' then { r with mode := .quote } else r.add c .quoted
    | .quote =>
      if c = '"' then r.add c .quoted
      else if c = '\r' || c = '\n' then (r.endField .row).endRow (behind c)
      else if c = ',' then r.endField .field
      else r.add c .plain

/-- The end of the text ends the row at hand, even within quotes. -/
def finish (r : Reader) : Reader :=
  if r.overlong then r
  else match r.mode with
    | .row | .lineFeed => r
    | .field | .plain | .quoted | .quote => (r.endField .row).endRow .row

end Reader

/-- The rows of a text, and whether reading them ended at a field that is too long. -/
structure Sheet where
  rows : List Row
  overlong : Bool
  deriving DecidableEq, Repr

/-- The rows of a text. When the text was cut short, a row that it leaves open is dropped. -/
def read (cut : Bool) (text : List Char) : Sheet :=
  let r := text.foldl Reader.read {}
  let r := if cut then r else r.finish
  ⟨r.rows.reverse, r.overlong⟩

end DiceLedger.Csv
