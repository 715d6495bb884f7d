import Reckoner.Web.Asset.Page
import Reckoner.Web.Asset.Script
import Reckoner.Web.Asset.StyleSheet

/-!
# Assets

The three files that the service gives out, by their names.
-/

namespace Reckoner.Web

/-- A file with its type. -/
structure Asset where
  contentType : String
  content : String
deriving DecidableEq, Repr

namespace Asset

def htmlType : String := "text/html; charset=utf-8"

def scriptType : String := "text/javascript; charset=utf-8"

def styleType : String := "text/css; charset=utf-8"

def named? : String → Option Asset
  | "index.html" => some ⟨htmlType, page⟩
  | "main.js" => some ⟨scriptType, script⟩
  | "style.css" => some ⟨styleType, styleSheet⟩
  | _ => none

end Asset

end Reckoner.Web
