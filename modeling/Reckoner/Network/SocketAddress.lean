import Reckoner.Json.Strings
import Reckoner.Numeral.Digits
import Reckoner.Numeral.Powers

/-!
# Socket Addresses

An internet address with a port, read from and written in the usual notation: four decimal octets,
or eight hexadecimal groups in brackets, of which one run of zeros may be left out and the last two
may be written as octets.  Writing leaves out the longest run of at least two zeros, the first one
if several are as long.
-/

namespace Reckoner

structure IPv4 where
  a : UInt8
  b : UInt8
  c : UInt8
  d : UInt8
deriving DecidableEq, Repr

/-- An address and a port. -/
inductive SocketAddress where
  | v4 (host : IPv4) (port : UInt16)
  /-- Eight groups, and the scope, zero if there is none. -/
  | v6 (groups : List UInt16) (scope : UInt32) (port : UInt16)
deriving DecidableEq, Repr

namespace Network

/-- A way to read something off the beginning of a text. -/
abbrev Reader (α : Type) := List Char → Option (α × List Char)

/-! ## Numbers -/

/-- A decimal number of at most `most`, leading zeros allowed. -/
def readDecimal (most : Nat) : Reader Nat := fun cs =>
  let digits := cs.takeWhile Char.isDigit
  let value := Numeral.readDigits digits
  if digits = [] ∨ value > most then none else some (value, cs.dropWhile Char.isDigit)

/-- An octet: at most three digits, no leading zero. -/
def readOctet : Reader UInt8 := fun cs =>
  match cs.takeWhile Char.isDigit with
  | '0' :: _ :: _ => none
  | _ => (readDecimal 255 cs).map fun (value, rest) => (.ofNat value, rest)

def isHexDigit (c : Char) : Bool := (Json.hexValue? c).isSome

/-- A group: at most four hexadecimal digits. -/
def readGroup : Reader UInt16 := fun cs =>
  let digits := cs.takeWhile isHexDigit
  if digits = [] ∨ digits.length > 4 then none
  else (Json.hexNumber? digits).map fun value => (.ofNat value, cs.dropWhile isHexDigit)

def readChar (c : Char) : List Char → Option (List Char)
  | first :: rest => if first = c then some rest else none
  | [] => none

/-- A colon and a port. -/
def readPort : Reader UInt16 := fun cs => do
  let cs ← readChar ':' cs
  let (port, cs) ← readDecimal 65535 cs
  some (.ofNat port, cs)

/-! ## Addresses -/

def readIPv4 : Reader IPv4 := fun cs => do
  let (a, cs) ← readOctet cs
  let cs ← readChar '.' cs
  let (b, cs) ← readOctet cs
  let cs ← readChar '.' cs
  let (c, cs) ← readOctet cs
  let cs ← readChar '.' cs
  let (d, cs) ← readOctet cs
  some (⟨a, b, c, d⟩, cs)

def IPv4.groups (host : Reckoner.IPv4) : List UInt16 :=
  [.ofNat (host.a.toNat * 256 + host.b.toNat), .ofNat (host.c.toNat * 256 + host.d.toNat)]

/-- A list of groups as far as it goes, whether it ends with octets, and the rest of the text. -/
structure Groups where
  groups : List UInt16
  octets : Bool
  rest : List Char

/-- At most so many groups with colons between them, octets counting as two; `separated` asks for a
colon before the first. -/
def readGroups : (limit : Nat) → (separated : Bool) → List Char → Groups
  | 0, _, cs => ⟨[], false, cs⟩
  | limit + 1, separated, cs =>
    match if separated then readChar ':' cs else some cs with
    | none => ⟨[], false, cs⟩
    | some start =>
      match if limit > 0 then readIPv4 start else none with
      | some (host, rest) => ⟨IPv4.groups host, true, rest⟩
      | none =>
        match readGroup start with
        | none => ⟨[], false, cs⟩
        | some (group, rest) =>
          let more := readGroups limit true rest
          ⟨group :: more.groups, more.octets, more.rest⟩

def groupCount : Nat := 8

/-- Eight groups, or fewer with two colons where zeros are left out, at least one. -/
def readIPv6 : Reader (List UInt16) := fun cs =>
  let head := readGroups groupCount false cs
  if head.groups.length = groupCount then some (head.groups, head.rest)
  else if head.octets then none
  else do
    let cs ← readChar ':' head.rest
    let cs ← readChar ':' cs
    let tail := readGroups (groupCount - (head.groups.length + 1)) false cs
    let zeros := groupCount - head.groups.length - tail.groups.length
    some (head.groups ++ List.replicate zeros 0 ++ tail.groups, tail.rest)

/-- A percent sign and the number of a scope, zero if there is none. -/
def readScope (cs : List Char) : UInt32 × List Char :=
  match readChar '%' cs with
  | none => (0, cs)
  | some start =>
    match readDecimal (twoPow 32 - 1) start with
    | none => (0, cs)
    | some (scope, rest) => (.ofNat scope, rest)

def readV4 : Reader SocketAddress := fun cs => do
  let (host, cs) ← readIPv4 cs
  let (port, cs) ← readPort cs
  some (.v4 host port, cs)

def readV6 : Reader SocketAddress := fun cs => do
  let cs ← readChar '[' cs
  let (groups, cs) ← readIPv6 cs
  let (scope, cs) := readScope cs
  let cs ← readChar ']' cs
  let (port, cs) ← readPort cs
  some (.v6 groups scope port, cs)

/-! ## Writing -/

def IPv4.text (host : Reckoner.IPv4) : String :=
  ".".intercalate ([host.a, host.b, host.c, host.d].map toString)

/-- A group in hexadecimal, lower case, without leading zeros. -/
def groupText (group : UInt16) : String := .ofList (Nat.toDigits 16 group.toNat)

def groupsText (groups : List UInt16) : String := ":".intercalate (groups.map groupText)

def leadingZeros (groups : List UInt16) : Nat := (groups.takeWhile (· == 0)).length

/-- The first of the longest runs of zeros in some groups, the first of which has the number
`start`: where the run begins and how long it is. -/
def longestZeros (start : Nat) : List UInt16 → Nat × Nat
  | [] => (start, 0)
  | group :: rest =>
    let here := leadingZeros (group :: rest)
    let (later, length) := longestZeros (start + 1) rest
    if here ≥ length then (start, here) else (later, length)

def ipv6Text (groups : List UInt16) : String :=
  match groups with
  | [0, 0, 0, 0, 0, 0xffff, high, low] =>
    let octet (n : Nat) : UInt8 := .ofNat n
    "::ffff:" ++ IPv4.text ⟨octet (high.toNat / 256), octet (high.toNat % 256),
      octet (low.toNat / 256), octet (low.toNat % 256)⟩
  | groups =>
    let (start, length) := longestZeros 0 groups
    if length > 1 then
      groupsText (groups.take start) ++ "::" ++ groupsText (groups.drop (start + length))
    else groupsText groups

end Network

namespace SocketAddress

open Network

def ofText? (text : String) : Option SocketAddress :=
  let cs := text.toList
  match (readV4 cs).orElse fun _ => readV6 cs with
  | some (address, []) => some address
  | _ => none

def text : SocketAddress → String
  | v4 host port => IPv4.text host ++ ":" ++ toString port
  | v6 groups scope port =>
    let scopeText := if scope = 0 then "" else "%" ++ toString scope
    "[" ++ ipv6Text groups ++ scopeText ++ "]:" ++ toString port

end SocketAddress

end Reckoner
