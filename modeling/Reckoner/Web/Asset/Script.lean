/-!
# The Script of the Page

What the page does when a key is pressed, one line of it an item.
-/

namespace Reckoner.Web.Asset

def script : String :=
  "\n".intercalate [
    "const $expr = document.getElementById(\"expr\");",
    "const $result = document.getElementById(\"result\");",
    "const $equals = document.getElementById(\"equals\");",
    "const API = \"/api/calc\";",
    "",
    "function insertText(txt) \x7b",
    "    const start = $expr.selectionStart;",
    "    const end = $expr.selectionEnd;",
    "    const before = $expr.value.slice(0, start);",
    "    const after = $expr.value.slice(end);",
    "",
    "    // Implicit multiplication when a function or constant follows a value.",
    "    const lastChar = start > 0 ? before.slice(-1) : \"\";",
    "    const multiplies = txt.endsWith(\"(\") || txt === \"pi\" || txt === \"e\";",
    "    if (multiplies && /[\\d.a-zA-Z)]/.test(lastChar)) \x7b",
    "        txt = \"*\" + txt;",
    "    \x7d",
    "",
    "    $expr.value = before + txt + after;",
    "    const caret = start + txt.length;",
    "    $expr.focus();",
    "    $expr.setSelectionRange(caret, caret);",
    "\x7d",
    "",
    "function delChar() \x7b",
    "    const start = $expr.selectionStart;",
    "    const end = $expr.selectionEnd;",
    "",
    "    if (start !== end) \x7b",
    "        $expr.value = $expr.value.slice(0, start) + $expr.value.slice(end);",
    "        $expr.setSelectionRange(start, start);",
    "    \x7d else if (start > 0) \x7b",
    "        $expr.value = $expr.value.slice(0, start - 1) + $expr.value.slice(start);",
    "        $expr.setSelectionRange(start - 1, start - 1);",
    "    \x7d",
    "    $expr.focus();",
    "\x7d",
    "",
    "async function calculate() \x7b",
    "    const expr = $expr.value.trim();",
    "    if (!expr) \x7b $result.textContent = \"= 0\"; return; \x7d",
    "",
    "    try \x7b",
    "        const res = await fetch(API, \x7b",
    "            method: \"POST\",",
    "            headers: \x7b \"Content-Type\": \"application/json\" \x7d,",
    "            body: JSON.stringify(\x7b expr \x7d),",
    "        \x7d);",
    "        const data = await res.json().catch(() => null);",
    "",
    "        if (data && data.ok) \x7b",
    "            $result.textContent = \"= \" + data.result;",
    "        \x7d else \x7b",
    "            $result.textContent = \"Error: \" + ((data && data.error) || \"Server " ++
      "error (\" + res.status + \")\");",
    "        \x7d",
    "    \x7d catch (e) \x7b",
    "        console.error(\"calc request failed:\", e);",
    "        $result.textContent = \"Network error\";",
    "    \x7d",
    "\x7d",
    "",
    "document.querySelectorAll(\".keys button\").forEach(btn => \x7b",
    "    btn.addEventListener(\"mousedown\", e => e.preventDefault());",
    "\x7d);",
    "document.querySelectorAll(\"button[data-insert]\").forEach(btn => \x7b",
    "    btn.addEventListener(\"click\", () => insertText(btn.getAttribute(\"data-insert\")));",
    "\x7d);",
    "document.querySelectorAll(\"button[data-func]\").forEach(btn => \x7b",
    "    btn.addEventListener(\"click\", () => insertText(btn.getAttribute(\"data-func\")));",
    "\x7d);",
    "document.querySelector(\"button[data-action='clear']\").addEventListener(\"click\", " ++
      "() => \x7b",
    "    $expr.value = \"\";",
    "    $result.textContent = \"= 0\";",
    "    $expr.focus();",
    "\x7d);",
    "document.querySelector(\"button[data-action='del']\").addEventListener(\"click\", delChar);",
    "$equals.addEventListener(\"click\", calculate);",
    "",
    "$expr.addEventListener(\"keydown\", e => \x7b",
    "    if (e.key === \"Enter\") \x7b",
    "        e.preventDefault();",
    "        calculate();",
    "    \x7d",
    "\x7d);",
    "$expr.addEventListener(\"input\", () => \x7b",
    "    clearTimeout($expr._t);",
    "    $expr._t = setTimeout(calculate, 250);",
    "\x7d);",
    "",
    "$expr.focus();",
    ""]

end Reckoner.Web.Asset
