import DiceLedger.Text.Blank

/-!
# Escaping markup

A chat message gives meaning to some characters. A backslash in front of one takes its meaning
away. Links are left alone, in angle brackets or bare; marked are the characters of emphasis
and of code anywhere, a labelled link, and at the start of a line a quotation, a heading or a
list item. The text is read from left to right, and at each place the first rule that applies
takes the whole of what it matches.
-/

namespace DiceLedger.Text.Markdown

def isEmphasis (c : Char) : Bool :=
  c == '_' || c == '\\' || c == '~' || c == '|' || c == '*' || c == '\x60'

/-- A bare link does not end in one of these. -/
def isTrailing (c : Char) : Bool :=
  c == '.' || c == ',' || c == ':' || c == ';' || c == '"' || c == '\'' || c == ']'

def after? (start cs : List Char) : Option (List Char) :=
  if start.isPrefixOf cs then some (cs.drop start.length) else none

/-- The length of a link in angle brackets: a scheme, a colon and a slash, and an address
without blanks. -/
def bracketed? : List Char → Option Nat
  | '<' :: cs =>
    let scheme := cs.takeWhile fun c => c != ':' && c != ' ' && c != '>'
    match cs.drop scheme.length with
    | ':' :: '/' :: rest =>
      let address := rest.takeWhile fun c => c != ' ' && c != '>'
      if scheme.isEmpty || address.isEmpty then none
      else match rest.drop address.length with
        | '>' :: _ => some (scheme.length + address.length + 4)
        | _ => none
    | _ => none
  | _ => none

/-- The length of an address: as far as it goes without blanks and angle brackets, but not
ending in punctuation. -/
def address? (cs : List Char) : Option Nat :=
  let run := cs.takeWhile fun c => !isBlank c && c != '<'
  let length := (run.reverse.dropWhile isTrailing).length
  if 2 ≤ length then some length else none

/-- The length of a bare link. -/
def bare? (cs : List Char) : Option Nat :=
  let schemes := ["https://".toList, "http://".toList, "steam://".toList]
  schemes.findSome? fun scheme =>
    (after? scheme cs).bind fun rest => (address? rest).map (scheme.length + ·)

/-- The length of a labelled link within its line: from the opening bracket to the last
closing parenthesis, if `](` stands in between with something on its either side. -/
def labelled? : List Char → Option Nat
  | '[' :: cs =>
    let line := cs.takeWhile (· != '\n')
    let upTo := (line.reverse.dropWhile (· != ')')).reverse
    -- between the brackets and between the parentheses stands at least one character
    let middle := (upTo.drop 1).dropLast.dropLast
    if (middle.zip (middle.drop 1)).contains (']', '(') then some (upTo.length + 1) else none
  | _ => none

/-- The length of a quotation mark at the start of a line, with the blank that ends it. -/
def quotation? : List Char → Option Nat
  | '>' :: '>' :: '>' :: c :: _ => if isBlank c then some 4 else none
  | '>' :: c :: _ => if isBlank c then some 2 else none
  | _ => none

/-- The length of a heading mark: up to three hashes. -/
def heading? (cs : List Char) : Option Nat :=
  let length := ((cs.take 3).takeWhile (· == '#')).length
  if 0 < length then some length else none

/-- The length of a list mark: blanks and a dash. -/
def item? (cs : List Char) : Option Nat :=
  let blanks := cs.takeWhile isBlank
  match cs.drop blanks.length with
  | '-' :: _ => some (blanks.length + 1)
  | _ => none

inductive Mark
  | link (length : Nat)
  | markup (length : Nat)
  deriving DecidableEq, Repr

def mark? (lineStart : Bool) (cs : List Char) : Option Mark :=
  let atStart (length? : Option Nat) := if lineStart then length? else none
  (((bracketed? cs).orElse fun _ => bare? cs).map Mark.link).orElse fun _ =>
    Option.map Mark.markup <|
      (if (cs.head?.map isEmphasis).getD false then some 1 else none)
      |>.orElse (fun _ => atStart (quotation? cs))
      |>.orElse (fun _ => labelled? cs)
      |>.orElse (fun _ => atStart (heading? cs))
      |>.orElse (fun _ => atStart (item? cs))

/-- Escape the text; `skip` characters of it belong to a mark that has been dealt with. -/
def escapeFrom (lineStart : Bool) (skip : Nat) : List Char → List Char
  | [] => []
  | c :: cs =>
    match skip with
    | skip + 1 => c :: escapeFrom (c == '\n') skip cs
    | 0 =>
      match mark? lineStart (c :: cs) with
      | none => c :: escapeFrom (c == '\n') 0 cs
      | some (.link length) => c :: escapeFrom (c == '\n') (length - 1) cs
      | some (.markup length) => '\\' :: c :: escapeFrom (c == '\n') (length - 1) cs

def escape (text : String) : String := String.ofList (escapeFrom true 0 text.toList)

end DiceLedger.Text.Markdown
