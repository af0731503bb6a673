/-!
# S-expressions

Pairs, lists and atoms, and their text. A list is a chain of pairs that ends in `nil`; a chain that ends
in something else shows it behind a point.
-/

namespace IndexedLoop

/-- An s-expression. -/
inductive Sexpr where
  | nil
  | symbol (name : String)
  | string (text : String)
  /-- A number, as it is written. -/
  | number (text : String)
  | boolean (value : Bool)
  /-- A fixed row of numbers. -/
  | vector (items : List Nat)
  | pair (head tail : Sexpr)
deriving DecidableEq, Inhabited, Repr

namespace Sexpr

/-- The items as a list. -/
def list (items : List Sexpr) : Sexpr := items.foldr .pair .nil

/-- A whole number. -/
def nat (n : Nat) : Sexpr := .number (toString n)

/-- A value under a name. -/
def named (name : String) (value : Sexpr) : Sexpr := .pair (.symbol name) value

/-- Values under names. -/
def fields (fs : List (String × Sexpr)) : Sexpr := list (fs.map fun (name, value) => named name value)

/-- A value that may be absent, as a list of at most one item. -/
def option : Option Sexpr → Sexpr
  | none => .nil
  | some value => list [value]

/-- A digit of base sixteen. -/
def hexDigit (n : Nat) : Char :=
  if n < 10 then Char.ofNat (48 + n) else Char.ofNat (55 + n)

/-- A character inside a quoted text. -/
def quotedChar (c : Char) : String :=
  match c with
  | '"' => "\\\""
  | '\\' => "\\\\"
  | '\n' => "\\n"
  | '\r' => "\\r"
  | '\t' => "\\t"
  | '\x07' => "\\a"
  | '\x08' => "\\b"
  | _ =>
    let n := c.toNat
    if n < 0x20 ∨ n = 0x7F then
      "\\x" ++ String.ofList [hexDigit (n / 16), hexDigit (n % 16)] ++ ";"
    else c.toString

/-- A quoted text. -/
def quotedText (s : String) : String :=
  "\"" ++ String.join (s.toList.map quotedChar) ++ "\""

mutual

/-- The text of an s-expression. -/
def text : Sexpr → String
  | .nil => "()"
  | .symbol name => name
  | .string s => quotedText s
  | .number s => s
  | .boolean true => "#t"
  | .boolean false => "#f"
  | .vector items => "#(" ++ " ".intercalate (items.map toString) ++ ")"
  | .pair head tail => "(" ++ head.text ++ tail.tailText ++ ")"

/-- The text of what follows the first item of a chain of pairs. -/
def tailText : Sexpr → String
  | .nil => ""
  | .pair head tail => " " ++ head.text ++ tail.tailText
  | .symbol name => " . " ++ name
  | .string s => " . " ++ quotedText s
  | .number s => " . " ++ s
  | .boolean true => " . #t"
  | .boolean false => " . #f"
  | .vector items => " . #(" ++ " ".intercalate (items.map toString) ++ ")"

end

end Sexpr

end IndexedLoop
