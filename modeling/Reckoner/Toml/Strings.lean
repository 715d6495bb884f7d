import Reckoner.Json.Strings

/-!
# TOML Strings

The four ways to write a string: between quotation marks with escapes or between apostrophes
without, on one line or, between three of either, on several.  Each reader starts after the opening
mark and gives the characters and the text after the closing one.
-/

namespace Reckoner.Toml

/-- Control characters other than the tab may not be written as they are. -/
def isForbidden (c : Char) : Bool :=
  (decide (c.toNat < 0x20) && c != '\t') || c.toNat == 0x7f

def isBlank (c : Char) : Bool := c == ' ' || c == '\t'

/-! ## Escapes -/

/-- The character with the scalar value that some hexadecimal digits write. -/
def hexChar? (digits : List Char) : Option Char := do
  let code ← Json.hexNumber? digits
  if code.isValidChar then some (Char.ofNat code) else none

def escaped? : Char → Option Char
  | 'b' => some '\x08'
  | 't' => some '\t'
  | 'n' => some '\n'
  | 'f' => some '\x0c'
  | 'r' => some '\r'
  | 'e' => some '\x1b'
  | '"' => some '"'
  | '\\' => some '\\'
  | _ => none

def push (c : Char) (read : Option (List Char × List Char)) : Option (List Char × List Char) :=
  read.map fun (text, rest) => (c :: text, rest)

def push? (c : Option Char) (read : Option (List Char × List Char)) :
    Option (List Char × List Char) :=
  c.bind (push · read)

/-! ## One line -/

/-- A string between quotation marks. -/
def readBasic : List Char → Option (List Char × List Char)
  | [] => none
  | '"' :: rest => some ([], rest)
  | '\\' :: 'x' :: a :: b :: rest => push? (hexChar? [a, b]) (readBasic rest)
  | '\\' :: 'u' :: a :: b :: c :: d :: rest => push? (hexChar? [a, b, c, d]) (readBasic rest)
  | '\\' :: 'U' :: a :: b :: c :: d :: e :: f :: g :: h :: rest =>
    push? (hexChar? [a, b, c, d, e, f, g, h]) (readBasic rest)
  | '\\' :: letter :: rest => push? (escaped? letter) (readBasic rest)
  | c :: rest => if isForbidden c then none else push c (readBasic rest)

/-- A string between apostrophes. -/
def readLiteral : List Char → Option (List Char × List Char)
  | [] => none
  | '\'' :: rest => some ([], rest)
  | c :: rest => if isForbidden c then none else push c (readLiteral rest)

/-! ## Several lines -/

/-- The text without the line break that it begins with, if it does. -/
def skipLineBreak : List Char → List Char
  | '\n' :: rest => rest
  | '\r' :: '\n' :: rest => rest
  | rest => rest

/-- Nothing but white space is left on the line. -/
def endsLine (cs : List Char) : Bool :=
  match cs.dropWhile isBlank with
  | '\n' :: _ => true
  | '\r' :: '\n' :: _ => true
  | _ => false

/-- What follows the three closing marks: up to two more of them belong to the string. -/
def closeMultiline (mark : Char) : List Char → List Char × List Char
  | a :: b :: rest =>
    if a = mark then
      if b = mark then ([mark, mark], rest) else ([mark], b :: rest)
    else ([], a :: b :: rest)
  | [a] => if a = mark then ([mark], []) else ([], [a])
  | [] => ([], [])

/-- A string between three quotation marks.  A backslash at the end of a line takes away the line
break and the white space up to the next character; `skipping` says that this is going on. -/
def readMultilineBasic : (skipping : Bool) → List Char → Option (List Char × List Char)
  | _, [] => none
  | true, '\r' :: '\n' :: rest => readMultilineBasic true rest
  | _, '"' :: '"' :: '"' :: rest => some (closeMultiline '"' rest)
  | _, '\\' :: 'x' :: a :: b :: rest =>
    push? (hexChar? [a, b]) (readMultilineBasic false rest)
  | _, '\\' :: 'u' :: a :: b :: c :: d :: rest =>
    push? (hexChar? [a, b, c, d]) (readMultilineBasic false rest)
  | _, '\\' :: 'U' :: a :: b :: c :: d :: e :: f :: g :: h :: rest =>
    push? (hexChar? [a, b, c, d, e, f, g, h]) (readMultilineBasic false rest)
  | _, '\\' :: letter :: rest =>
    if endsLine (letter :: rest) then readMultilineBasic true rest
    else push? (escaped? letter) (readMultilineBasic false rest)
  | false, '\r' :: '\n' :: rest => push '\n' (readMultilineBasic false rest)
  | skipping, c :: rest =>
    if skipping && (isBlank c || c == '\n') then readMultilineBasic true rest
    else if c = '\n' then push c (readMultilineBasic false rest)
    else if isForbidden c then none
    else push c (readMultilineBasic false rest)

/-- A string between three apostrophes. -/
def readMultilineLiteral : List Char → Option (List Char × List Char)
  | [] => none
  | '\'' :: '\'' :: '\'' :: rest => some (closeMultiline '\'' rest)
  | '\r' :: '\n' :: rest => push '\n' (readMultilineLiteral rest)
  | c :: rest =>
    if isForbidden c && c != '\n' then none else push c (readMultilineLiteral rest)

end Reckoner.Toml
