import Reckoner.Answer
import Reckoner.Web.Asset
import Reckoner.Web.MediaType
import Reckoner.Web.Path

/-!
# The Web Service

One reply for each request.  The page, its files and a sign of life are there to be read; an
expression is worked out by sending a JSON object whose member `expr` holds it.  A name outside the
vocabulary is forbidden, and every other fault is a bad request.
-/

namespace Reckoner.Web

/-! ## Requests and replies -/

/-- A request. -/
structure Request where
  method : String
  /-- The path, perhaps with a query. -/
  target : String
  contentType : Option String
  body : ByteArray

/-- A reply. -/
structure Reply where
  status : Nat
  contentType : Option String := none
  /-- The methods that are allowed, where the method was at fault. -/
  allow : Option String := none
  body : String := ""
deriving DecidableEq, Repr

namespace Status

def ok : Nat := 200

def badRequest : Nat := 400

def forbidden : Nat := 403

def notFound : Nat := 404

def methodNotAllowed : Nat := 405

def internalError : Nat := 500

/-- The status for a kind of fault. -/
def ofKind : FaultKind → Nat
  | .badRequest => badRequest
  | .forbidden => forbidden
  | .internal => internalError

end Status

def jsonType : String := "application/json"

def plainType : String := "text/plain; charset=utf-8"

/-! ## Calculations -/

/-- The longest body that is read, in bytes. -/
def maxBodyLength : Nat := 2 * 1024 * 1024

def maxBodyNesting : Nat := 127

/-- The value that a body holds, if it is JSON by its type and by its text. -/
def readBody (contentType : Option String) (body : ByteArray) : Option Json.Value := do
  let mediaType ← MediaType.ofText? (← contentType)
  if mediaType.isJson && decide (body.size ≤ maxBodyLength) then
    let text ← String.fromUTF8? body
    let tree ← Json.Tree.ofChars? maxBodyNesting text.toList
    Json.Value.ofTree? tree
  else none

/-- The text of an expression: a string as it is, a number as it is written, and one or zero for
a truth value. -/
def expressionText : Json.Value → Option String
  | .string text => some text
  | .number value => some value.text
  | .bool value => some (if value then "1" else "0")
  | _ => none

def expressionOf (body : Option Json.Value) : Option String := do
  let value ← body
  let member ← value.member? "expr"
  expressionText member

def noExpression : String := "No expression provided"

def answerReply (status : Nat) (answer : Answer) : Reply :=
  { status := status, contentType := some jsonType, body := answer.toText }

def calculationReply (limits : Limits) (body : Option Json.Value) : Reply :=
  match expressionOf body with
  | none => answerReply Status.badRequest (.failure noExpression)
  | some expression =>
    let calculation := Calculation.ofText expression limits
    let status := calculation.faultKind?.elim Status.ok Status.ofKind
    answerReply status calculation.answer

/-! ## Files -/

def assetReply (name : String) : Reply :=
  match Asset.named? name with
  | some asset =>
    { status := Status.ok, contentType := some asset.contentType, body := asset.content }
  | none => { status := Status.notFound, contentType := some plainType, body := "Not found" }

def badPathReply : Reply :=
  { status := Status.badRequest, contentType := some plainType,
    body := "Invalid URL: Invalid UTF-8 in `path`" }

def healthReply : Reply :=
  { status := Status.ok, contentType := some jsonType,
    body := "\x7b\"status\":\"ok\"\x7d" }

/-! ## Routes -/

/-- What a path leads to. -/
inductive Route where
  | page
  /-- A file, by its name as it stands in the path. -/
  | asset (name : List Char)
  | health
  | calculation
deriving DecidableEq, Repr

namespace Route

def ofPath? (path : String) : Option Route :=
  if path = "/" then some .page
  else if path = "/health" then some .health
  else if path = "/api/calc" then some .calculation
  else
    let folder := "/static/".toList
    let name := path.toList.drop folder.length
    if folder.isPrefixOf path.toList && !name.isEmpty then some (.asset name) else none

def methods : Route → List String
  | calculation => ["POST"]
  | _ => ["GET", "HEAD"]

def reply (limits : Limits) (request : Request) : Route → Reply
  | page => assetReply "index.html"
  | asset name => (decodePath? name).elim badPathReply assetReply
  | health => healthReply
  | calculation => calculationReply limits (readBody request.contentType request.body)

end Route

/-- The reply without its body, where only the rest was asked for. -/
def Reply.headOnly (reply : Reply) (method : String) : Reply :=
  if method = "HEAD" then { reply with body := "" } else reply

/-- The reply to a request. -/
def respond (limits : Limits) (request : Request) : Reply :=
  match Route.ofPath? (pathOf request.target) with
  | none => { status := Status.notFound }
  | some route =>
    if route.methods.contains request.method then
      (route.reply limits request).headOnly request.method
    else
      { status := Status.methodNotAllowed, allow := some (",".intercalate route.methods) }

end Reckoner.Web
