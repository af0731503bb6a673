import IndexedLoop.Grammar.List

/-!
# The grammar of markup

An element of markup is an expression: `<a b="c">text</a>`, or `<a/>` without content. The names of its
two tags need not agree. Between tags stand text, character references, expressions in braces and other
elements. Inside of markup a mark ends where it is complete, whatever follows it.
-/

namespace IndexedLoop.Grammar

open Surface Parse

/-- The mark stands next, behind blanks and comments. -/
def atMark (mark : String) : Parse Bool := do
  return Lexical.startsWith mark.toList (← look).start.rest

/-- Reads a mark, with the slot behind it. -/
def mark (mark : String) (slot : Slot) : Parse Unit := do
  let l ← look
  guard (Lexical.startsWith mark.toList l.start.rest)
  set ((l.start.advance mark.length).facing slot)

/-- Reads a name of markup, and says whether it is a word without a hyphen. -/
def markupWord : Parse Bool := do
  let l ← look
  match Lexical.hyphenated? l.start.rest, l.token with
  | some n, _ =>
    set ((l.start.advance n).facing .plain)
    return false
  | none, .word _ =>
    accept l .plain
    return true
  | none, _ => failure

/-- Reads a name of markup that may be in a namespace. A word of an element's name may also have members
behind points. -/
def markupName (members : Bool) : Parse Unit := do
  let isWord ← markupWord
  if ← atMark ":" then
    mark ":" .plain
    let _ ← markupWord
  else if members && isWord then
    rounds pathIn

/-- Reads expressions in braces, a spread one, or nothing. -/
def markupBraces (g : Level) : Parse Unit := do
  mark "\x7b" .plain
  let l ← look
  if l.isPunct "\x7d" then
    accept l .plain
  else if l.isPunct "..." then
    accept l .plain
    let _ ← g.expr .inner
    expect "\x7d" .plain
  else
    let _ ← enclosed g "\x7d" .plain

/-- Reads the string of an attribute behind its opening quote. -/
def attributeStringIn (quote : Char) : (rounds : List Symbol) → Parse Unit
  | [] => failure
  | _ :: n => do
    let c ← get
    match (Lexical.markupComment? c.rest).or (Lexical.reference? c.rest) with
    | some size =>
      set (c.advance size)
      attributeStringIn quote n
    | none =>
      match Lexical.attributeText quote c.rest with
      | size + 1 =>
        set (c.advance (size + 1))
        attributeStringIn quote n
      | 0 =>
        guard (Lexical.startsWith [quote] c.rest)
        set (c.advance 1)

/-- Reads the value of an attribute. -/
def attributeValue (g : Level) : Parse Unit := do
  if ← atMark "\"" then
    mark "\"" .plain
    rounds (attributeStringIn '"')
  else if ← atMark "'" then
    mark "'" .plain
    rounds (attributeStringIn '\'')
  else if ← atMark "\x7b" then
    markupBraces g
  else
    let _ ← g.element .plain

/-- Reads the attributes of a tag. -/
def attributesIn (g : Level) : (rounds : List Symbol) → Parse Unit
  | [] => failure
  | _ :: n => do
    if ← atMark "\x7b" then
      markupBraces g
      attributesIn g n
    else unless (← atMark ">") || (← atMark "/>") do
      markupName false
      if ← atMark "=" then
        mark "=" .plain
        attributeValue g
      attributesIn g n

/-- Reads the content of an element up to the start of its closing tag. -/
def contentIn (g : Level) : (rounds : List Symbol) → Parse Unit
  | [] => failure
  | _ :: n => do
    let c ← get
    match Lexical.content c.rest with
    | size + 1 =>
      set (c.advance (size + 1))
      contentIn g n
    | 0 =>
      match Lexical.markupComment? c.rest with
      | some size =>
        set (c.advance size)
        contentIn g n
      | none =>
        let start := (← look).start
        match Lexical.reference? start.rest with
        | some size =>
          set (start.advance size)
          contentIn g n
        | none =>
          if ← atMark "</" then
            mark "</" .plain
          else if ← atMark "\x7b" then
            markupBraces g
            contentIn g n
          else
            let _ ← g.element .plain
            contentIn g n

/-- Reads the content of an element and its closing tag. -/
def elementTail (g : Level) (slot : Slot) : Parse Construct := do
  lose 1
  rounds (contentIn g)
  unless ← atMark ">" do
    markupName true
  mark ">" slot
  return .markupElement

/-- Reads an element. One whose tag has a name may have no content. -/
def element (g : Level) (slot : Slot) : Parse Construct := do
  mark "<" .plain
  if ← atMark ">" then
    mark ">" .plain
    elementTail g slot
  else
    markupName true
    rounds (attributesIn g)
    if ← atMark "/>" then
      mark "/>" slot
      return .markupEmptyElement
    else
      mark ">" .plain
      elementTail g slot

end IndexedLoop.Grammar
