import IndexedLoop.Grammar.Declaration

/-!
# The grammar of modules

Imports and exports. Both words may also start an expression.
-/

namespace IndexedLoop.Grammar

open Surface Parse

/-- Reads the name of something imported or exported: any word, or a string. Says whether it is a
word. -/
def moduleName : Parse Bool := do
  let l ← look
  match l.token with
  | .word _ =>
    accept l .plain
    return true
  | .string _ =>
    accept l .plain
    return false
  | _ => failure

/-- Reads an imported name, which a string cannot be without a new name. -/
def importedName : Parse Unit := do
  let isWord ← moduleName
  if ← tryWord "as" .plain then
    let _ ← word .plain
  else guard isWord

/-- Reads an exported name, with its new name if there is one. -/
def exportedName : Parse Unit := do
  let _ ← moduleName
  if ← tryWord "as" .plain then
    let _ ← moduleName

/-- Reads names up to the closing brace, with the slot behind it. -/
def moduleNamesIn (name : Parse Unit) (slot : Slot) : (rounds : List Symbol) → Parse Unit
  | [] => failure
  | _ :: n => do
    unless ← tryPunct "\x7d" slot do
      name
      if ← tryPunct "," .plain then
        moduleNamesIn name slot n
      else expect "\x7d" slot

/-- Reads names up to the closing brace, with the slot behind it. A comma may stand alone. -/
def moduleNames (name : Parse Unit) (slot : Slot) : Parse Unit := do
  if ← tryPunct "," .plain then
    expect "\x7d" slot
  else rounds (moduleNamesIn name slot)

/-- Reads the source of a module behind the word `from`. -/
def fromSource : Parse Unit := do
  expectWord "from" .plain
  string .ending

/-! ## Imports -/

/-- Reads the part of an import behind its default name. -/
def importNames : Parse Unit := do
  if ← tryPunct "*" .plain then
    expectWord "as" .plain
    let _ ← word .plain
  else
    expect "\x7b" .plain
    moduleNames importedName .plain

/-- Reads what is imported, and from where. -/
def importClause : Parse Unit := do
  let l ← look
  match l.token with
  | .string _ => accept l .ending
  | .word _ =>
    accept l .plain
    if ← tryPunct "," .plain then
      importNames
    fromSource
  | _ =>
    importNames
    fromSource

/-- Reads an import behind its keyword. -/
def importStatement (g : Level) (start : Place) : Parse Stmt := do
  importClause
  if ← tryWord "with" .plain then
    let l ← look
    expect "\x7b" .plain
    let _ ← objectTail g .object l.start.place .ending
  semicolon
  return .other ⟨← extentFrom start, .importStatement⟩

/-- The word that was looked at starts an import statement and no expression. -/
def startsImport (l : Lexeme) : Bool :=
  let next := l.next .plain
  l.isWord "import" && !(next.isPunct "(" || next.isPunct "." || next.isPunct "?.")

/-! ## Exports -/

/-- Reads a declaration of variables that is exported, or what else `other` reads. The slots behind the
words `let` and `async` are given. -/
def exportedDeclaration (g : Level) (slot : Slot) (other : Place → (decorated : Bool) → Parse Unit) :
    Parse Unit := do
  let start := (← look).start.place
  let decorated ← decorators g
  let l ← look
  match declarationKind? l slot with
  | some kind =>
    guard !decorated
    accept l .plain
    let _ ← declarationTail g l.start.place kind
  | none => other start decorated

/-- Reads a function or a class with a name that is exported. Only a class has decorators. -/
def exportedDefinition (g : Level) (start : Place) (decorated : Bool) : Parse Unit := do
  let l ← look
  guard (!decorated || l.isWord "class")
  let d ← definition g start l .plain .ending
  let _ ← d.declare

/-- Reads what an export gives away by default and is no declaration of variables: a function or a class
with a name, or an expression. -/
def exportedValue (g : Level) (start : Place) (decorated : Bool) : Parse Unit := do
  let l ← look
  guard (!decorated || l.isWord "class")
  if startsDefinition l .wide then
    let d ← definition g start l .wide .wide
    if ← goesOn false then
      let _ ← exprFrom g .statement (← d.toOperand)
      semicolon
    else
      let _ ← d.declare
  else
    if decorated then
      accept l .plain
      let _ ← exprFrom g .statement (← classExpr g .statement start)
    else
      let _ ← g.expr .statement
    semicolon

/-- Reads an export behind its keyword. With decorators before it, it exports a declaration. -/
def exportStatement (g : Level) (start : Place) (decorated : Bool) : Parse Stmt := do
  let l ← look
  match l.token with
  | .punct "*" =>
    guard !decorated
    accept l .plain
    if ← tryWord "as" .plain then
      let _ ← moduleName
    fromSource
    semicolon
  | .punct "\x7b" =>
    guard !decorated
    accept l .plain
    moduleNames exportedName .ending
    if (← look).isWord "from" then
      fromSource
    semicolon
  | .word "default" =>
    accept l .plain
    exportedDeclaration g .wide (exportedValue g)
  | _ => exportedDeclaration g .plain (exportedDefinition g)
  return .other ⟨← extentFrom start, .exportStatement⟩

/-- The word that was looked at starts an export and no expression. -/
def startsExport (l : Lexeme) : Bool :=
  l.isWord "export" &&
    match (l.next .wide).token with
    | .word w => ["default", "var", "let", "const", "class", "async", "function"].contains w
    | .punct p => ["*", "\x7b", "@"].contains p
    | _ => false

end IndexedLoop.Grammar
