/-!
# Line ends

Files may end their lines by a line feed, a carriage return or both.  Reading a file as text turns
each of the three into one line feed.
-/

namespace NordLang.Text

/-- Replaces every carriage return, together with a line feed right after it, by a line feed. -/
def unifyLines : List Char → List Char
  | [] => []
  | '\r' :: '\n' :: rest => '\n' :: unifyLines rest
  | '\r' :: rest => '\n' :: unifyLines rest
  | c :: rest => c :: unifyLines rest

end NordLang.Text
