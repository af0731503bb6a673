/-!
# Operators

The four families of operators. `token` is the way an operator is written, `ofToken?` reads it back,
and `name` is its name in a dump of a tree. The same token can stand for operators of two families
(`-` does), never for two of one family.
-/

namespace IndexedLoop

/-- An operator between two operands. -/
inductive BinaryOp where
  | add | sub | mul | div | mod | pow | eq | notEq | strictEq | strictNotEq | lt | le | gt | ge
  | shl | shr | ushr | bitAnd | bitOr | bitXor | and | or | nullish | isIn | instanceOf
deriving DecidableEq, Inhabited, Repr

namespace BinaryOp

/-- Every operator of the family. -/
def all : List BinaryOp :=
  [.add, .sub, .mul, .div, .mod, .pow, .eq, .notEq, .strictEq, .strictNotEq, .lt, .le, .gt, .ge,
   .shl, .shr, .ushr, .bitAnd, .bitOr, .bitXor, .and, .or, .nullish, .isIn, .instanceOf]

/-- The way the operator is written. -/
def token : BinaryOp → String
  | .add => "+"
  | .sub => "-"
  | .mul => "*"
  | .div => "/"
  | .mod => "%"
  | .pow => "**"
  | .eq => "=="
  | .notEq => "!="
  | .strictEq => "==="
  | .strictNotEq => "!=="
  | .lt => "<"
  | .le => "<="
  | .gt => ">"
  | .ge => ">="
  | .shl => "<<"
  | .shr => ">>"
  | .ushr => ">>>"
  | .bitAnd => "&"
  | .bitOr => "|"
  | .bitXor => "^"
  | .and => "&&"
  | .or => "||"
  | .nullish => "??"
  | .isIn => "in"
  | .instanceOf => "instanceof"

/-- The name of the operator in a dump. -/
def name : BinaryOp → String
  | .add => "Add"
  | .sub => "Sub"
  | .mul => "Mul"
  | .div => "Div"
  | .mod => "Mod"
  | .pow => "Exp"
  | .eq => "Eq"
  | .notEq => "NotEq"
  | .strictEq => "StrictEq"
  | .strictNotEq => "StrictNotEq"
  | .lt => "Lt"
  | .le => "Lte"
  | .gt => "Gt"
  | .ge => "Gte"
  | .shl => "Shl"
  | .shr => "Shr"
  | .ushr => "UShr"
  | .bitAnd => "BitAnd"
  | .bitOr => "BitOr"
  | .bitXor => "BitXor"
  | .and => "And"
  | .or => "Or"
  | .nullish => "Nullish"
  | .isIn => "In"
  | .instanceOf => "InstanceOf"

/-- The operator that is written this way. -/
def ofToken? (token : String) : Option BinaryOp :=
  all.find? fun op => op.token == token

/-- The operator with this name in a dump. -/
def ofName? (name : String) : Option BinaryOp :=
  all.find? fun op => op.name == name

end BinaryOp

/-- An operator that writes to its left side. -/
inductive AssignOp where
  | assign | add | sub | mul | div | mod | pow | shl | shr | ushr | bitAnd | bitOr | bitXor | and
  | or | nullish
deriving DecidableEq, Inhabited, Repr

namespace AssignOp

/-- Every operator of the family. -/
def all : List AssignOp :=
  [.assign, .add, .sub, .mul, .div, .mod, .pow, .shl, .shr, .ushr, .bitAnd, .bitOr, .bitXor, .and,
   .or, .nullish]

/-- The way the operator is written. -/
def token : AssignOp → String
  | .assign => "="
  | .add => "+="
  | .sub => "-="
  | .mul => "*="
  | .div => "/="
  | .mod => "%="
  | .pow => "**="
  | .shl => "<<="
  | .shr => ">>="
  | .ushr => ">>>="
  | .bitAnd => "&="
  | .bitOr => "|="
  | .bitXor => "^="
  | .and => "&&="
  | .or => "||="
  | .nullish => "??="

/-- The name of the operator in a dump. -/
def name : AssignOp → String
  | .assign => "Assign"
  | .add => "AddAssign"
  | .sub => "SubAssign"
  | .mul => "MulAssign"
  | .div => "DivAssign"
  | .mod => "ModAssign"
  | .pow => "ExpAssign"
  | .shl => "ShlAssign"
  | .shr => "ShrAssign"
  | .ushr => "UShrAssign"
  | .bitAnd => "BitAndAssign"
  | .bitOr => "BitOrAssign"
  | .bitXor => "BitXorAssign"
  | .and => "AndAssign"
  | .or => "OrAssign"
  | .nullish => "NullishAssign"

/-- The operator that is written this way. -/
def ofToken? (token : String) : Option AssignOp :=
  all.find? fun op => op.token == token

/-- The operator with this name in a dump. -/
def ofName? (name : String) : Option AssignOp :=
  all.find? fun op => op.name == name

end AssignOp

/-- An operator in front of its operand. -/
inductive UnaryOp where
  | not | bitNot | neg | plus | typeOf | void | delete
deriving DecidableEq, Inhabited, Repr

namespace UnaryOp

/-- Every operator of the family. -/
def all : List UnaryOp :=
  [.not, .bitNot, .neg, .plus, .typeOf, .void, .delete]

/-- The way the operator is written. -/
def token : UnaryOp → String
  | .not => "!"
  | .bitNot => "~"
  | .neg => "-"
  | .plus => "+"
  | .typeOf => "typeof"
  | .void => "void"
  | .delete => "delete"

/-- The name of the operator in a dump. -/
def name : UnaryOp → String
  | .not => "Not"
  | .bitNot => "BitNot"
  | .neg => "Neg"
  | .plus => "Plus"
  | .typeOf => "TypeOf"
  | .void => "Void"
  | .delete => "Delete"

/-- The operator that is written this way. -/
def ofToken? (token : String) : Option UnaryOp :=
  all.find? fun op => op.token == token

/-- The operator with this name in a dump. -/
def ofName? (name : String) : Option UnaryOp :=
  all.find? fun op => op.name == name

end UnaryOp

/-- An operator that adds or takes one. -/
inductive UpdateOp where
  | increment | decrement
deriving DecidableEq, Inhabited, Repr

namespace UpdateOp

/-- Every operator of the family. -/
def all : List UpdateOp :=
  [.increment, .decrement]

/-- The way the operator is written. -/
def token : UpdateOp → String
  | .increment => "++"
  | .decrement => "--"

/-- The name of the operator in a dump. -/
def name : UpdateOp → String
  | .increment => "Increment"
  | .decrement => "Decrement"

/-- The operator that is written this way. -/
def ofToken? (token : String) : Option UpdateOp :=
  all.find? fun op => op.token == token

/-- The operator with this name in a dump. -/
def ofName? (name : String) : Option UpdateOp :=
  all.find? fun op => op.name == name

end UpdateOp

/-- The word that starts a declaration of variables. -/
inductive DeclKind where
  | var | lexical | constant
deriving DecidableEq, Inhabited, Repr

namespace DeclKind

/-- The word itself. -/
def token : DeclKind → String
  | .var => "var"
  | .lexical => "let"
  | .constant => "const"

/-- The name of the kind in a dump. -/
def name : DeclKind → String
  | .var => "Var"
  | .lexical => "Let"
  | .constant => "Const"

end DeclKind

end IndexedLoop
