/-!
# String literals

A string literal stands between quotes, and the tree keeps the text between them as the body of a
double-quoted literal. `content` takes the quotes off; the body of a single-quoted literal is turned
into a double-quoted one by `requote`, which frees an escaped single quote and escapes a double one.
-/

namespace IndexedLoop.Quoted

/-- The body of a single-quoted literal as the body of a double-quoted one. -/
def requote : List Char → List Char
  | [] => []
  | '\\' :: '\'' :: rest => '\'' :: requote rest
  | '\\' :: c :: rest => '\\' :: c :: requote rest
  | '"' :: rest => '\\' :: '"' :: requote rest
  | c :: rest => c :: requote rest

/-- The text without its first and its last character. Both have to be one byte wide, and there have
to be two of them; any other text has an empty inside. -/
def inside : List Char → List Char
  | [] => []
  | c :: rest =>
    match rest.getLast? with
    | some last => if c.utf8Size = 1 ∧ last.utf8Size = 1 then rest.dropLast else []
    | none => []

/-- The body of a literal as it stands between double quotes. -/
def content (text : String) : String :=
  let chars := text.toList
  if chars.head? = some '\'' then String.ofList (requote (inside chars))
  else String.ofList (inside chars)

end IndexedLoop.Quoted
