import IndexedLoop.Proofs.Extents.Listings
import IndexedLoop.Surface.Pattern

/-!
# Surface trees in their source

A node of a surface tree has an extent and parts in the order of the source. It lies in a source between two
offsets (`Node.Lies`) if its extent does, its parts lie inside of the extent one behind the other, its text,
if it keeps one, is what the source has there, and its parts are such as the grammar gives it.
-/

namespace IndexedLoop

/-! ## Things in a line -/

/-- Things stand one behind the other between two offsets. -/
inductive Lined {α : Type} (lies : Nat → Nat → α → Prop) : Nat → Nat → List α → Prop
  | nil {lo hi : Nat} (le : lo ≤ hi) : Lined lies lo hi []
  | cons {lo mid hi : Nat} {a : α} {as : List α} (first : lies lo mid a) (rest : Lined lies mid hi as) :
      Lined lies lo hi (a :: as)

/-- What lies between two offsets lies between wider ones. -/
class Widens {α : Type} (lies : Nat → Nat → α → Prop) : Prop where
  le {lo hi : Nat} {a : α} : lies lo hi a → lo ≤ hi
  mono {lo hi lo' hi' : Nat} {a : α} : lies lo hi a → lo' ≤ lo → hi ≤ hi' → lies lo' hi' a

section Lined

variable {α : Type} {lies : Nat → Nat → α → Prop} {lo mid hi lo' hi' : Nat} {a : α} {as bs : List α}

@[simp]
theorem lined_cons : Lined lies lo hi (a :: as) ↔ ∃ mid, lies lo mid a ∧ Lined lies mid hi as :=
  ⟨fun (.cons first rest) => ⟨_, first, rest⟩, fun ⟨_, first, rest⟩ => .cons first rest⟩

theorem Lined.imp {lies' : Nat → Nat → α → Prop} (h : Lined lies lo hi as)
    (imp : ∀ {lo hi a}, a ∈ as → lies lo hi a → lies' lo hi a) : Lined lies' lo hi as := by
  induction h with
  | nil le => exact .nil le
  | cons first rest ih =>
    exact .cons (imp (List.mem_cons_self ..) first) (ih fun mem => imp (List.mem_cons_of_mem _ mem))

variable [Widens lies]

theorem Lined.le (h : Lined lies lo hi as) : lo ≤ hi := by
  induction h with
  | nil le => exact le
  | cons first rest ih => exact (Widens.le first).trans ih

theorem Lined.mono (h : Lined lies lo hi as) (lower : lo' ≤ lo) (upper : hi ≤ hi') : Lined lies lo' hi' as := by
  induction h generalizing lo' with
  | nil le => exact .nil (lower.trans (le.trans upper))
  | cons first rest ih => exact .cons (Widens.mono first lower le_rfl) (ih le_rfl upper)

theorem lined_append : Lined lies lo hi (as ++ bs) ↔ ∃ mid, Lined lies lo mid as ∧ Lined lies mid hi bs := by
  induction as generalizing lo with
  | nil =>
    rw [List.nil_append]
    constructor
    · intro h
      exact ⟨lo, .nil le_rfl, h⟩
    · rintro ⟨mid, ⟨le⟩, h⟩
      exact h.mono le le_rfl
  | cons a as ih =>
    rw [List.cons_append]
    constructor
    · rintro (_ | ⟨first, rest⟩)
      obtain ⟨mid, h, h'⟩ := ih.mp rest
      exact ⟨mid, .cons first h, h'⟩
    · rintro ⟨mid, _ | ⟨first, rest⟩, h⟩
      exact .cons first (ih.mpr ⟨mid, rest, h⟩)

theorem Lined.append (h : Lined lies lo mid as) (h' : Lined lies mid hi bs) : Lined lies lo hi (as ++ bs) :=
  lined_append.mpr ⟨mid, h, h'⟩

/-- What stands in a line between two offsets lies between them. -/
theorem Lined.of_mem (h : Lined lies lo hi as) (mem : a ∈ as) : lies lo hi a := by
  induction h with
  | nil le => cases mem
  | cons first rest ih =>
    rcases List.mem_cons.mp mem with rfl | mem
    · exact Widens.mono first le_rfl rest.le
    · exact Widens.mono (ih mem) (Widens.le first) le_rfl

theorem lined_singleton : Lined lies lo hi [a] ↔ lies lo hi a := by
  rw [lined_cons]
  constructor
  · rintro ⟨mid, h, ⟨le⟩⟩
    exact Widens.mono h le_rfl le
  · intro h
    exact ⟨hi, h, .nil le_rfl⟩

end Lined

namespace Surface

/-! ## Nodes -/

/-- A node of a surface tree. -/
inductive Node where
  | name (name : Name)
  | literal (literal : Literal)
  | piece (piece : Piece)
  | expr (expr : Expr)
  | member (member : Member)
  | block (block : Block)
  | declarator (declarator : Declarator)
  | declaration (declaration : Declaration)
  | stmt (stmt : Stmt)

/-- What a parameter or a declarator binds, as a node. -/
def Binding.node : Binding → Node
  | .name n => .name n
  | .pattern p => .piece p

/-- The key of a property as a node. -/
def Key.node : Key → Node
  | .name n => .name n
  | .literal l => .literal l
  | .other p => .piece p

/-- The first clause of a loop header as a node. -/
def ForInit.node : ForInit → Node
  | .declaration d => .declaration d
  | .expression e => .expr e

/-- The parameters of a function and its body. -/
def Function.parts : Function → List Node
  | .mk params body => params.map Binding.node ++ [.block body]

/-- The parts of an expression. -/
def Expr.parts : Expr → List Node
  | .name n => [.name n]
  | .literal l => [.literal l]
  | .assignment _ _ left right | .binary _ _ left right | .subscript _ left right => [.expr left, .expr right]
  | .unary _ _ inner | .update _ _ _ inner | .spread _ inner | .parens _ inner => [.expr inner]
  | .sequence _ items => items.map .expr
  | .conditional _ test consequent alternate => [.expr test, .expr consequent, .expr alternate]
  | .function _ n fn => n.toList.map .name ++ fn.parts
  | .call _ callee args | .new _ callee args => .expr callee :: args.map .expr
  | .dot _ inner property => [.expr inner, .name property]
  | .object _ members => members.map .member
  | .array _ elements => elements.reduceOption.map .expr
  | .this _ | .other _ => []

def Member.extent : Member → Extent
  | .shorthand n => n.extent
  | .pair e .. | .defaulted e | .spread e _ | .method e => e

/-- The parts of a member. -/
def Member.parts : Member → List Node
  | .pair _ key value => [key.node, .expr value]
  | .shorthand n => [.name n]
  | .spread _ inner => [.expr inner]
  | .defaulted _ | .method _ => []

def Declarator.extent : Declarator → Extent
  | .mk e .. => e

/-- The parts of a statement. -/
def Stmt.parts : Stmt → List Node
  | .expression _ _ e | .throw _ e => [.expr e]
  | .declaration d => [.declaration d]
  | .function _ _ name fn => .name name :: fn.parts
  | .block b => [.block b]
  | .ret _ argument => argument.toList.map .expr
  | .forLoop _ init test update body =>
    init.toList.map ForInit.node ++ test.toList.map .expr ++ update.toList.map .expr ++ [.stmt body]
  | .whileLoop _ test body => [.expr test, .stmt body]
  | .ifElse _ test consequent alternate => [.expr test, .stmt consequent] ++ alternate.toList.map .stmt
  | .empty _ | .brk _ | .cont _ | .other _ => []

namespace Node

def extent : Node → Extent
  | .name n => n.extent
  | .literal l => l.extent
  | .piece p => p.extent
  | .expr e => e.extent
  | .member m => m.extent
  | .block b => b.extent
  | .declarator d => d.extent
  | .declaration d => d.extent
  | .stmt s => s.piece.extent

/-- The parts of a node, in the order of the source. -/
def parts : Node → List Node
  | .name _ | .literal _ | .piece _ => []
  | .expr e => e.parts
  | .member m => m.parts
  | .block (.mk _ body) => body.map .stmt
  | .declarator (.mk _ target init) => target.node :: init.toList.map .expr
  | .declaration (.mk _ _ declarators) => declarators.map .declarator
  | .stmt s => s.parts

end Node

/-- The literals of a class are written this way. -/
def LiteralClass.Written (text : List Symbol) : LiteralClass → Prop
  | .number => Lexical.IsNumber text
  | .boolean true => text = Symbol.ofString "true"
  | .boolean false => text = Symbol.ofString "false"
  | .null => text = Symbol.ofString "null"
  | .string => Lexical.IsString text
  | .regExp => True

/-- The statement ends in an `if` without an `else`. -/
def Stmt.endsInOpenIf : Stmt → Bool
  | .ifElse _ _ _ none => true
  | .ifElse _ _ _ (some alternate) => alternate.endsInOpenIf
  | .forLoop _ _ _ _ body => body.endsInOpenIf
  | .whileLoop _ _ body => body.endsInOpenIf
  | _ => false

/-- The expression has commas at its top. -/
def Expr.isSequence : Expr → Bool
  | .sequence .. => true
  | _ => false

/-- The text that a node keeps is the text of the source at its extent, and the node has the parts that the grammar
asks for. A sequence has all that stands between its commas, an array has an entry for each of its commas and no comma
in an element, and an `else` belongs to the last `if` that has none. -/
def Node.Faithful (src : List Symbol) : Node → Prop
  | .name n => n.extent.Spells src (Symbol.ofString n.text)
  | .literal l => l.extent.Spells src l.text ∧ l.literalClass.Written l.text
  | .expr (.sequence _ items) => 2 ≤ items.length ∧ ∀ item ∈ items, item.isSequence = false
  | .expr (.array extent elements) => (∃ l : Listing Expr, l.Written src extent ∧ elements = l.entries) ∧
      ∀ e ∈ elements.reduceOption, e.isSequence = false
  | .declaration (.mk _ _ declarators) => declarators ≠ []
  | .stmt (.ifElse _ _ consequent (some _)) => consequent.endsInOpenIf = false
  | _ => True

/-- The node lies in a source between two offsets, with its parts inside of it one behind the other. -/
inductive Node.Lies (src : List Symbol) : Nat → Nat → Node → Prop
  | mk {lo hi : Nat} {node : Node} (extent : node.extent.Lies src lo hi) (faithful : node.Faithful src)
      (parts : Lined (Node.Lies src) node.extent.start.offset node.extent.stop.offset node.parts) :
      Node.Lies src lo hi node

/-- The nodes lie in a source between two offsets, one behind the other. -/
abbrev Node.AllLie (src : List Symbol) : Nat → Nat → List Node → Prop := Lined (Node.Lies src)

namespace Node

variable {src : List Symbol} {lo hi lo' hi' : Nat} {node : Node}

theorem lies_iff : node.Lies src lo hi ↔ node.extent.Lies src lo hi ∧ node.Faithful src ∧
    AllLie src node.extent.start.offset node.extent.stop.offset node.parts :=
  ⟨fun ⟨extent, faithful, parts⟩ => ⟨extent, faithful, parts⟩,
    fun ⟨extent, faithful, parts⟩ => ⟨extent, faithful, parts⟩⟩

theorem Lies.extent (h : node.Lies src lo hi) : node.extent.Lies src lo hi := (lies_iff.mp h).1

theorem Lies.parts (h : node.Lies src lo hi) :
    AllLie src node.extent.start.offset node.extent.stop.offset node.parts := (lies_iff.mp h).2.2

theorem Lies.mono (h : node.Lies src lo hi) (lower : lo' ≤ lo) (upper : hi ≤ hi') : node.Lies src lo' hi' := by
  obtain ⟨extent, faithful, parts⟩ := h
  exact ⟨extent.mono lower upper, faithful, parts⟩

/-- A node lies between its ends. -/
theorem Lies.tight (h : node.Lies src lo hi) : node.Lies src node.extent.start.offset node.extent.stop.offset := by
  obtain ⟨extent, faithful, parts⟩ := h
  exact ⟨{ extent with lower := le_rfl, upper := le_rfl }, faithful, parts⟩

/-- A node ends no later than it ends. -/
theorem Lies.upper (h : node.Lies src lo hi) : node.Lies src lo node.extent.stop.offset :=
  h.tight.mono h.extent.lower le_rfl

instance : Widens (Lies src) := ⟨fun h => h.extent.le, fun h => h.mono⟩

end Node

end Surface

end IndexedLoop
