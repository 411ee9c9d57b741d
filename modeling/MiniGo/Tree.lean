import MiniGo.Double
import MiniGo.Operator
import MiniGo.Span
import MiniGo.Ty
/-!
Syntax trees of a source file.
-/

namespace MiniGo

structure Ident where
  name : String
  span : Span := {}
deriving DecidableEq, Repr, Inhabited

/-- The blank identifier declares nothing and cannot be read. -/
def Ident.isBlank (ident : Ident) : Bool := ident.name == "_"

/-- A parameter or result, which may go without a name. -/
structure Field (α : Type) where
  name : Option Ident
  type : α
deriving Repr

/-- A type as written. The last parameter of a variadic function is given by its element type. -/
inductive TypeExpr
  | named (name : String)
  | slice (elem : TypeExpr)
  | map (key value : TypeExpr)
  | chan (direction : Direction) (elem : TypeExpr)
  | func (params results : List (Field TypeExpr)) (variadic : Bool)
deriving Inhabited

/-- The parameters and results of a function as written. -/
structure FuncHead where
  params : List (Field TypeExpr) := []
  results : List (Field TypeExpr) := []
  variadic : Bool := false
deriving Inhabited

inductive AssignOp
  | assign
  | define
  | compound (op : BinaryOp)
deriving DecidableEq, Repr, Inhabited

inductive BranchKind
  | break
  | continue
  | fallthrough
  | goto
deriving DecidableEq, Repr, Inhabited

structure TypeSpec where
  name : Ident
  type : TypeExpr
  span : Span
deriving Inhabited

mutual

inductive Expr
  | ident (name : Ident)
  | int (value : Int64) (span : Span)
  | float (value : Double) (span : Span)
  | bool (value : Bool) (span : Span)
  | string (value : String) (span : Span)
  | binary (op : BinaryOp) (left right : Expr) (span : Span)
  | unary (op : UnaryOp) (operand : Expr) (span : Span)
  | call (callee : Expr) (args : List Expr) (ellipsis : Bool) (span : Span)
  | func (head : FuncHead) (body : Block) (span : Span)
  | index (base index : Expr) (span : Span)
  | sliceLit (elem : TypeExpr) (elems : List Expr) (span : Span)
  | mapLit (key value : TypeExpr) (entries : List (Expr × Expr)) (span : Span)
  | typeAssert (operand : Expr) (type : TypeExpr) (span : Span)
  | type (written : TypeExpr) (span : Span)

inductive Block
  | mk (statements : List Stmt) (span : Span)

inductive Stmt
  | empty (span : Span)
  | bad (span : Span)
  | assign (lhs : List Expr) (op : AssignOp) (rhs : List Expr) (span : Span)
  | block (body : Block)
  | branch (kind : BranchKind) (label : Option Ident) (span : Span)
  | caseClause (clause : CaseClause)
  | commClause (clause : CommClause)
  | decl (declaration : Decl)
  | defer (call : Expr) (span : Span)
  | expr (operand : Expr)
  | forLoop (init : Option Stmt) (cond : Option Expr) (post : Option Stmt) (body : Block)
      (span : Span)
  | go (call : Expr) (span : Span)
  | ifElse (init : Option Stmt) (cond : Expr) (thenBranch : Block) (elseBranch : Option Stmt)
      (span : Span)
  | incDec (target : Expr) (increment : Bool) (span : Span)
  | labeled (label : Ident) (body : Stmt) (span : Span)
  | range (key value : Option Expr) (define : Bool) (subject : Expr) (body : Block) (span : Span)
  | ret (values : List Expr) (span : Span)
  | select (clauses : List CommClause) (span : Span)
  | send (channel value : Expr) (span : Span)
  | switch (init : Option Stmt) (tag : Option Expr) (clauses : List CaseClause) (span : Span)
  | typeSwitch (init : Option Stmt) (binding : Option Ident) (subject : Expr)
      (clauses : List CaseClause) (span : Span)

/-- A clause of a switch; the default clause has no list. -/
inductive CaseClause
  | mk (list : Option (List Expr)) (body : List Stmt) (span : Span)

/-- A clause of a select; the default clause has no communication. -/
inductive CommClause
  | mk (comm : Option Stmt) (body : List Stmt) (span : Span)

inductive Decl
  | var (specs : List ValueSpec) (span : Span)
  | const (specs : List ValueSpec) (span : Span)
  | type (specs : List TypeSpec) (span : Span)
  | func (name : Ident) (head : FuncHead) (body : Block) (span : Span)

inductive ValueSpec
  | mk (names : List Ident) (type : Option TypeExpr) (values : List Expr) (span : Span)

end

abbrev SourceFile := List Decl

namespace Expr

def span : Expr → Span
  | ident name => name.span
  | int _ span | float _ span | bool _ span | string _ span | binary _ _ _ span | unary _ _ span
  | call _ _ _ span | func _ _ span | index _ _ span | sliceLit _ _ span | mapLit _ _ _ span
  | typeAssert _ _ span | type _ span => span

def ident? : Expr → Option Ident
  | ident name => some name
  | _ => none

def isBlank (expr : Expr) : Bool := expr.ident?.any Ident.isBlank

end Expr

namespace Block

def statements : Block → List Stmt
  | mk statements _ => statements

def span : Block → Span
  | mk _ span => span

end Block

namespace CaseClause

def list : CaseClause → Option (List Expr)
  | mk list _ _ => list

def body : CaseClause → List Stmt
  | mk _ body _ => body

def span : CaseClause → Span
  | mk _ _ span => span

end CaseClause

namespace CommClause

def comm : CommClause → Option Stmt
  | mk comm _ _ => comm

def body : CommClause → List Stmt
  | mk _ body _ => body

def span : CommClause → Span
  | mk _ _ span => span

end CommClause

def Decl.span : Decl → Span
  | .var _ span | .const _ span | .type _ span | .func _ _ _ span => span

namespace ValueSpec

def names : ValueSpec → List Ident
  | mk names _ _ _ => names

def type : ValueSpec → Option TypeExpr
  | mk _ type _ _ => type

def values : ValueSpec → List Expr
  | mk _ _ values _ => values

def span : ValueSpec → Span
  | mk _ _ _ span => span

end ValueSpec

namespace Stmt

def span : Stmt → Span
  | empty span | bad span | assign _ _ _ span | branch _ _ span | defer _ span
  | forLoop _ _ _ _ span | go _ span | ifElse _ _ _ _ span | incDec _ _ span | labeled _ _ span
  | range _ _ _ _ _ span | ret _ span | select _ span | send _ _ span | switch _ _ _ span
  | typeSwitch _ _ _ _ span => span
  | block body => body.span
  | caseClause clause => clause.span
  | commClause clause => clause.span
  | decl declaration => declaration.span
  | expr operand => operand.span

def kindName : Stmt → String
  | empty _ => "empty statement"
  | assign .. => "assignment"
  | block _ => "block"
  | branch .. => "branch statement"
  | caseClause _ => "case clause"
  | commClause _ => "comm clause"
  | decl _ => "declaration"
  | defer .. => "defer statement"
  | expr _ => "expression statement"
  | forLoop .. => "for statement"
  | go .. => "go statement"
  | ifElse .. => "if statement"
  | incDec .. => "inc/dec statement"
  | labeled .. => "labeled statement"
  | range .. => "range statement"
  | ret .. => "return statement"
  | select .. => "select statement"
  | send .. => "send statement"
  | switch .. => "switch statement"
  | typeSwitch .. => "type switch statement"
  | bad _ => "bad statement"

def isDefine : Stmt → Bool
  | assign _ .define _ _ => true
  | _ => false

def isFallthrough : Stmt → Bool
  | branch .fallthrough _ _ => true
  | _ => false

/-- The statement can follow `else` without a scope around it. -/
def isBranchBody : Stmt → Bool
  | block _ | ifElse .. => true
  | _ => false

/-- The statement itself declares a name that needs a slot. -/
def declares : Stmt → Bool
  | assign _ op _ _ => op == .define
  | decl (.func name _ _ _) => !name.isBlank
  | decl (.var specs _) => specs.any fun spec => spec.names.any (!·.isBlank)
  | _ => false

end Stmt

end MiniGo
