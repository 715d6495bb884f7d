import Reckoner.Json.Strings

/-!
# Paths

The path of a request, and the characters that a percent sign and two hexadecimal digits stand for.
-/

namespace Reckoner.Web

/-- The path after a scheme and a host, if the text has both: the root, if nothing follows them. -/
def afterHost? (cs : List Char) : Option (List Char) :=
  match cs.dropWhile (· != ':') with
  | ':' :: '/' :: '/' :: rest =>
    match rest.dropWhile (· != '/') with
    | [] => some ['/']
    | path => some path
  | _ => none

/-- The path of what a request asks for: all before a query or a fragment, without a scheme and a
host where the target does not begin with its path. -/
def pathOf (target : String) : String :=
  let cs := target.toList.takeWhile fun c => c != '?' && c != '#'
  .ofList (if cs.head? = some '/' then cs else (afterHost? cs).getD cs)

def hexByte? (byte : UInt8) : Option Nat := Json.hexValue? (Char.ofNat byte.toNat)

def escapedByte? (high low : UInt8) : Option UInt8 := do
  let high ← hexByte? high
  let low ← hexByte? low
  some (.ofNat (16 * high + low))

/-- The bytes with their escapes taken out.  A percent sign without two hexadecimal digits after it
stands for itself. -/
def unescape : List UInt8 → List UInt8
  | percent :: high :: low :: rest =>
    match if percent = 0x25 then escapedByte? high low else none with
    | some byte => byte :: unescape rest
    | none => percent :: unescape (high :: low :: rest)
  | byte :: rest => byte :: unescape rest
  | [] => []

/-- The text of a path with its escapes taken out, unless their bytes are no UTF-8. -/
def decodePath? (path : List Char) : Option String :=
  String.fromUTF8? ⟨(unescape (String.ofList path).toUTF8.toList).toArray⟩

end Reckoner.Web
