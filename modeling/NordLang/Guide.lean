import NordLang.Command

/-!
# The guide

A short introduction to the language for people who write programs in it.
-/

namespace NordLang

def guideLines : List String :=
  ["# Writing Nord Programs",
   "",
   "Nord is a small expression-oriented scripting language. A program is a",
   "single expression; use `block ... end` to sequence several.",
   "Use the nord_write tool to create .nord files, then nord_check or nord_parse.",
   "",
   "## Literals",
   "```",
   "42",
   "true",
   "\"text with \\\"escapes\\\"\\n\"",
   "name",
   "```",
   "",
   "## Bindings and assignment",
   "```",
   "let total = 1 + 2 * 3",
   "total = total - 1",
   "```",
   "Assignment is left-associative: `a = b = c` means `(a = b) = c`.",
   "",
   "## Arrays and objects",
   "```",
   "[1, 2, 3]",
   "#\x7bname: \"nord\", size: 3\x7d",
   "```",
   "No trailing commas.",
   "",
   "## Functions (zero or one parameter)",
   "```",
   "fn(x) x * 2",
   "fn() block let y = 1; y + 1 end",
   "```",
   "",
   "## Conditionals",
   "```",
   "if x > 0 then \"positive\" else \"not positive\" end",
   "if ready then go() end",
   "```",
   "Branches are `;`-separated sequences and may be empty.",
   "",
   "## Blocks",
   "```",
   "block",
   "  let x = 10;",
   "  let y = x * 2;",
   "  y",
   "end",
   "```",
   "",
   "## Calls, indexing, members",
   "```",
   "f(1)[0].x",
   "obj.method(arg).field[2]",
   "```",
   "",
   "## Operators, loosest to tightest",
   "`=`, `||`, `&&`, `== != < <= > >=`, `+ -`, `* / %`, unary `- !`,",
   "postfix `() [] .`",
   "",
   "## Important Rules",
   "1. `if`, `let`, `fn`, `block`, arrays and objects must be parenthesized",
   "   when used as an operand: `(fn(x) x)(1)`, `([1, 2])[0]`",
   "2. Calls take at most one argument",
   "3. Strings use double quotes only",
   "4. Files must end with .nord extension"]

def guide : String := linesText guideLines

end NordLang
