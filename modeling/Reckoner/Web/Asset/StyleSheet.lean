/-!
# The Style Sheet of the Page

How the page looks, one line of it an item.
-/

namespace Reckoner.Web.Asset

def styleSheet : String :=
  "\n".intercalate [
    "body \x7b font-family: system-ui, sans-serif; background: #1e1f22; color: #e6e6e6; " ++
      "display: flex; justify-content: center; padding-top: 4rem; \x7d",
    ".calc \x7b width: 22rem; \x7d",
    "#expr \x7b width: 100%; box-sizing: border-box; font-size: 1.4rem; padding: .5rem; " ++
      "background: #2b2d31; color: inherit; border: 1px solid #444; border-radius: 6px; " ++
      "\x7d",
    "#result \x7b font-size: 1.6rem; margin: .75rem 0; min-height: 2rem; word-break: " ++
      "break-all; \x7d",
    ".keys \x7b display: grid; grid-template-columns: repeat(4, 1fr); gap: .4rem; \x7d",
    ".keys button \x7b font-size: 1.1rem; padding: .6rem 0; background: #383a40; color: " ++
      "inherit; border: none; border-radius: 6px; cursor: pointer; \x7d",
    ".keys button:hover \x7b background: #4a4d55; \x7d",
    "#equals \x7b background: #5865f2; \x7d",
    ""]

end Reckoner.Web.Asset
