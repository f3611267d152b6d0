import DiceLedger.Text.Digit
import DiceLedger.Text.Quoted

/-!
# Reading UTF-8

A file is decoded in blocks of `blockSize` bytes, as it is read. Well-formed bytes give their
text and nothing else can be seen of the blocks. In a malformed file the text of the blocks
before the fault has been read by the time the fault shows, and the fault names a position in
the data at hand: the bytes of a character left over from the block before, then the block.
-/

namespace DiceLedger.Text.Utf8

def blockSize : Nat := 8192

inductive Reason
  | startByte
  | continuationByte
  | truncated
  deriving DecidableEq, Repr

/-- A fault: `count` bytes from position `start` on, the first of which is `byte`. -/
structure Fault where
  byte : UInt8
  start : Nat
  count : Nat
  reason : Reason
  deriving DecidableEq, Repr

def Reason.message : Reason → String
  | .startByte => "invalid start byte"
  | .continuationByte => "invalid continuation byte"
  | .truncated => "unexpected end of data"

/-- A single byte is shown; of more bytes only the positions are. -/
def Fault.message (f : Fault) : String :=
  let number n := String.ofList (decimal n)
  let place := if f.count = 1
    then "byte 0x" ++ String.ofList (hexadecimal 2 f.byte.toNat) ++ " in position " ++ number f.start
    else "bytes in position " ++ number f.start ++ "-" ++ number (f.start + f.count - 1)
  "'utf-8' codec can't decode " ++ place ++ ": " ++ f.reason.message

/-- The length of the character that starts with this byte, if one can. -/
def width? (b : UInt8) : Option Nat :=
  if b < 0x80 then some 1
  else if b < 0xC2 then none
  else if b < 0xE0 then some 2
  else if b < 0xF0 then some 3
  else if b < 0xF5 then some 4
  else none

/-- May `b` follow the first byte of a character? Overlong forms, surrogates and values
above the last code point are ruled out here. -/
def isSecond (lead b : UInt8) : Bool :=
  let low : UInt8 := if lead = 0xE0 then 0xA0 else if lead = 0xF0 then 0x90 else 0x80
  let high : UInt8 := if lead = 0xED then 0x9F else if lead = 0xF4 then 0x8F else 0xBF
  low ≤ b && b ≤ high

def isLater (b : UInt8) : Bool := 0x80 ≤ b && b ≤ 0xBF

/-- How many of the `missing` bytes after the first one are there and in order, and whether
the next one is there but out of order. -/
def follow (fits : UInt8 → Bool) : (missing : Nat) → List UInt8 → Nat × Bool
  | 0, _ => (0, false)
  | _ + 1, [] => (0, false)
  | missing + 1, b :: rest =>
    if fits b then
      let (n, stray) := follow isLater missing rest
      (n + 1, stray)
    else (0, true)

inductive Front
  | char (c : Char) (width : Nat)
  | unfinished
  | bad (count : Nat) (reason : Reason)

def codePoint (lead : UInt8) (later : List UInt8) : Nat :=
  let bits := match later.length with
    | 0 => lead.toNat
    | 1 => lead.toNat % 32
    | 2 => lead.toNat % 16
    | _ => lead.toNat % 8
  later.foldl (fun n b => 64 * n + b.toNat % 64) bits

/-- The character that starts with `lead`. Unless these are the `last` bytes, a character may
be unfinished, and so may a surrogate, which is refused only with its third byte. -/
def front (last : Bool) (lead : UInt8) (rest : List UInt8) : Front :=
  match width? lead with
  | none => .bad 1 .startByte
  | some width =>
    let (n, stray) := follow (isSecond lead) (width - 1) rest
    if n + 1 = width then .char (Char.ofNat (codePoint lead (rest.take n))) width
    else if stray then
      if !last && lead = 0xED && rest.length = 1 && rest.all isLater then .unfinished
      else .bad (n + 1) .continuationByte
    else if last then .bad (n + 1) .truncated
    else .unfinished

/-- The text decoded so far, newest character first, with what is left of the data: the bytes
of an unfinished character, or a fault. -/
structure Progress where
  text : List Char
  left : List UInt8
  fault : Option Fault

/-- Decode the data at hand, `position` bytes of which are done. -/
def decode (last : Bool) (position : Nat) (text : List Char) : List UInt8 → Progress
  | [] => ⟨text, [], none⟩
  | lead :: rest =>
    match front last lead rest with
    | .char c width => decode last (position + width) (c :: text) (rest.drop (width - 1))
    | .unfinished => ⟨text, lead :: rest, none⟩
    | .bad count reason => ⟨text, lead :: rest, some ⟨lead, position, count, reason⟩⟩
termination_by bytes => bytes.length
decreasing_by simp only [List.length_drop, List.length_cons]; omega

def blocks (bytes : List UInt8) : List (List UInt8) :=
  if bytes.isEmpty then [] else bytes.take blockSize :: blocks (bytes.drop blockSize)
termination_by bytes.length
decreasing_by
  have : bytes ≠ [] := by simp_all
  have := List.length_pos_iff.2 this
  simp [blockSize]
  omega

/-- What a reader gets: a text, and the fault that ended it, if one did. -/
structure Reading where
  text : List Char
  fault : Option Fault

/-- Decode block by block; the bytes left over at the end are decoded as the last. -/
def decodeBlocks (text : List Char) (left : List UInt8) : List (List UInt8) → Reading
  | [] =>
    let p := decode true 0 text left
    ⟨p.text.reverse, p.fault⟩
  | block :: rest =>
    let p := decode false 0 text (left ++ block)
    match p.fault with
    | some fault => ⟨text.reverse, some fault⟩
    | none => decodeBlocks p.text p.left rest

def read (bytes : ByteArray) : Reading :=
  match bytes.utf8Decode? with
  | some chars => ⟨chars.toList, none⟩
  | none => decodeBlocks [] [] (blocks bytes.toList)

def write (text : List Char) : ByteArray := (String.ofList text).toUTF8

theorem read_write (text : List Char) : read (write text) = ⟨text, none⟩ := by
  have h : (write text).utf8Decode? = some text.toArray := by
    simp [write, String.toByteArray_ofList, List.utf8Decode?_utf8Encode]
  simp [read, h]

theorem write_append (s t : List Char) : write (s ++ t) = write s ++ write t := by
  simp [write, String.ofList_append, String.toByteArray_append]

end DiceLedger.Text.Utf8
