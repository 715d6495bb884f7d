/-!
# The Calculator Page

The page that the service shows, one line of it an item.
-/

namespace Reckoner.Web.Asset

def page : String :=
  "\n".intercalate [
    "<!doctype html>",
    "<html lang=\"en\">",
    "<head>",
    "  <meta charset=\"utf-8\">",
    "  <meta name=\"viewport\" content=\"width=device-width, initial-scale=1\">",
    "  <title>calcd</title>",
    "  <link rel=\"stylesheet\" href=\"/static/style.css\">",
    "</head>",
    "<body>",
    "  <main class=\"calc\">",
    "    <input id=\"expr\" type=\"text\" autocomplete=\"off\" spellcheck=\"false\" " ++
      "placeholder=\"2^10 + sqrt(2)\">",
    "    <div id=\"result\">= 0</div>",
    "    <div class=\"keys\">",
    "      <button data-func=\"sin(\">sin</button>",
    "      <button data-func=\"cos(\">cos</button>",
    "      <button data-func=\"tan(\">tan</button>",
    "      <button data-func=\"sqrt(\">&radic;</button>",
    "      <button data-func=\"log(\">ln</button>",
    "      <button data-func=\"abs(\">abs</button>",
    "      <button data-func=\"round(\">round</button>",
    "      <button data-func=\"pow(\">pow</button>",
    "      <button data-insert=\"pi\">&pi;</button>",
    "      <button data-insert=\"e\">e</button>",
    "      <button data-insert=\"(\">(</button>",
    "      <button data-insert=\")\">)</button>",
    "      <button data-insert=\"7\">7</button>",
    "      <button data-insert=\"8\">8</button>",
    "      <button data-insert=\"9\">9</button>",
    "      <button data-insert=\"/\">&divide;</button>",
    "      <button data-insert=\"4\">4</button>",
    "      <button data-insert=\"5\">5</button>",
    "      <button data-insert=\"6\">6</button>",
    "      <button data-insert=\"*\">&times;</button>",
    "      <button data-insert=\"1\">1</button>",
    "      <button data-insert=\"2\">2</button>",
    "      <button data-insert=\"3\">3</button>",
    "      <button data-insert=\"-\">&minus;</button>",
    "      <button data-insert=\"0\">0</button>",
    "      <button data-insert=\".\">.</button>",
    "      <button data-insert=\"^\">^</button>",
    "      <button data-insert=\"+\">+</button>",
    "      <button data-insert=\",\">,</button>",
    "      <button data-action=\"del\">del</button>",
    "      <button data-action=\"clear\">C</button>",
    "      <button id=\"equals\">=</button>",
    "    </div>",
    "  </main>",
    "  <script src=\"/static/main.js\"></script>",
    "</body>",
    "</html>",
    ""]

end Reckoner.Web.Asset
