import MiniGo.RuntimeError
import MiniGo.Operator
import MiniGo.Span
import MiniGo.Ty
/-!
Faults that stop the compilation of a file. A fault is a cause and the place it was found at; the
wording of every cause is given once, in `Cause.message`.
-/

namespace MiniGo

/-- Statements that a fault names by their keyword. -/
inductive Keyword
  | break
  | continue
  | ret
  | defer
  | go
deriving DecidableEq, Repr

def Keyword.text : Keyword → String
  | .break => "break"
  | .continue => "continue"
  | .ret => "return"
  | .defer => "defer"
  | .go => "go"

/-- Statements made of clauses, at most one of which is the default. -/
inductive ClauseStmt
  | switch
  | typeSwitch
  | select
deriving DecidableEq, Repr

def ClauseStmt.text : ClauseStmt → String
  | .switch => "switch"
  | .typeSwitch => "type switch"
  | .select => "select"

inductive FallthroughFault
  | outOfPlace
  | finalCase
  | typeSwitch
deriving DecidableEq, Repr

def FallthroughFault.text : FallthroughFault → String
  | .outOfPlace => "fallthrough statement out of place"
  | .finalCase => "cannot fallthrough final case in switch"
  | .typeSwitch => "cannot fallthrough in type switch"

inductive Cause
  -- statements out of place
  | badStatement
  | gotoBranch
  | misplacedClause (isDefault : Bool)
  | misplacedFallthrough (fault : FallthroughFault)
  | undefinedLabel (keyword : Keyword) (label : String)
  | outsideContext (keyword : Keyword)
  | declareInPost
  | multipleDefaults (statement : ClauseStmt)
  -- names
  | undefined (name : String)
  | redeclared (name : String)
  | blankValue
  | builtinAsValue (name : String)
  | typeAsValue (type : Ty)
  | notType (name : String)
  | notTypeExpression
  | nilType
  | invalidKey (type : Ty)
  -- values
  | incompatible (expected actual : Ty)
  | noValue
  | manyValues (count : Nat)
  | nonBoolean (type : Ty)
  | undefinedOperator (op : String) (type : Ty)
  | mismatchedTypes (left right : Ty)
  | failedConstant (error : RuntimeError)
  | notIndexable (type : Ty)
  | notInterface (type : Ty)
  | receiveFromSendOnly (type : Ty)
  | receiveFromOther (type : Ty)
  | sendToReceiveOnly (type : Ty)
  | sendToOther (type : Ty)
  -- calls
  | notCall (keyword : Keyword)
  | conversionCall (keyword : Keyword) (type : Ty)
  | notFunction (type : Ty)
  | spreadCall (signature : Signature)
  | argumentCount (found wanted : Nat) (few : Bool)
  | forwardedCount (found wanted : Nat)
  | conversionArity (type : Ty)
  | notConvertible (source target : Ty)
  | builtinArity (builtin : Builtin) (wanted found : Nat)
  | builtinSpread (builtin : Builtin)
  | builtinArgument (builtin : Builtin) (type : Ty)
  | discardedResult (builtin : Builtin)
  | notMap (type : Ty)
  | appendToOther (type : Ty)
  | spreadNotLast
  | makeWithoutLength (type : Ty)
  | notMakeable (type : Ty)
  -- assignments and declarations
  | compoundArity (op : BinaryOp)
  | compoundOperator (op : BinaryOp)
  | assignmentMismatch (targets values : Nat)
  | nonNameDefine
  | nilAssignment
  | nilVariable
  | repeatedName (name : String)
  | notAssignable (name : String)
  | noNewVariables
  | assignToString
  | assignToExpression
  | initSignature
  | constArity (names values : Nat)
  | notConstant (name : String)
  | missingType
  | returnArity (expected found : Nat)
  -- statements on a typed operand
  | notRangeable (type : Ty)
  | oneIterationVariable (type : Ty)
  | switchCase (case tag : Ty)
  | invalidComm
  -- broken expectations of the compiler itself
  | emptyList
  | nothingDeclared
  | undeclaredScope (objects words : Nat)
  | boolConstant (kind : String)
deriving DecidableEq, Repr

inductive CauseKind
  | unimplementedStatement
  | unimplementedBranch
  | misplacedCase
  | misplacedFallthrough
  | undefinedLabel
  | outsideContext
  | declareInPost
  | returnArity
  | incompatibleTypes
  | undefined
  | redeclared
  | invalid
  | internal
deriving DecidableEq, Repr

def CauseKind.name : CauseKind → String
  | .unimplementedStatement => "UnimplementedStatement"
  | .unimplementedBranch => "UnimplementedBranch"
  | .misplacedCase => "MisplacedCase"
  | .misplacedFallthrough => "MisplacedFallthrough"
  | .undefinedLabel => "UndefinedLabel"
  | .outsideContext => "OutsideContext"
  | .declareInPost => "DeclareInPost"
  | .returnArity => "ReturnArity"
  | .incompatibleTypes => "IncompatibleTypes"
  | .undefined => "Undefined"
  | .redeclared => "Redeclared"
  | .invalid => "Invalid"
  | .internal => "Internal"

namespace Cause

def kind : Cause → CauseKind
  | badStatement => .unimplementedStatement
  | gotoBranch => .unimplementedBranch
  | misplacedClause _ => .misplacedCase
  | misplacedFallthrough _ => .misplacedFallthrough
  | undefinedLabel _ _ => .undefinedLabel
  | outsideContext _ => .outsideContext
  | declareInPost => .declareInPost
  | returnArity _ _ => .returnArity
  | incompatible _ _ => .incompatibleTypes
  | undefined _ => .undefined
  | redeclared _ => .redeclared
  | emptyList | nothingDeclared | undeclaredScope _ _ | boolConstant _ => .internal
  | _ => .invalid

/-- The statements that a keyword has to appear in. -/
def context : Keyword → String
  | .break => "for/switch"
  | .continue => "for"
  | .ret | .defer | .go => "function"

def count (n : Nat) : String := toString n

def message : Cause → String
  | badStatement => "unimplemented statement: bad statement <bad statement>"
  | gotoBranch => "unimplemented branch statement: goto"
  | misplacedClause isDefault =>
    "misplaced " ++ (if isDefault then "default" else "case") ++ ": not inside switch or select"
  | misplacedFallthrough fault => "misplaced fallthrough: " ++ fault.text
  | undefinedLabel keyword label => keyword.text ++ " label not defined: " ++ label
  | outsideContext keyword => keyword.text ++ " outside " ++ context keyword
  | declareInPost => "invalid for: cannot declare new variables in post statement"
  | multipleDefaults statement => "multiple defaults in " ++ statement.text
  | undefined name => "undefined: " ++ name
  | redeclared name => name ++ " redeclared in this block"
  | blankValue => "cannot use _ as value"
  | builtinAsValue name => name ++ " (built-in function) must be called"
  | typeAsValue type => "type " ++ type.text ++ " is not an expression"
  | notType name => name ++ " is not a type"
  | notTypeExpression => "expression is not a type"
  | nilType => "invalid argument: nil is not a type"
  | invalidKey type => "invalid map key type " ++ type.text
  | incompatible expected actual =>
    "incompatible types in assignment: " ++ expected.text ++ " = " ++ actual.text
  | noValue => "function call with no result used as value"
  | manyValues n =>
    "multiple-value expression (" ++ count n ++ " values) in single-value context"
  | nonBoolean type => "non-boolean condition (type " ++ type.text ++ ")"
  | undefinedOperator op type =>
    "invalid operation: operator " ++ op ++ " not defined on " ++ type.text
  | mismatchedTypes left right =>
    "invalid operation: mismatched types " ++ left.text ++ " and " ++ right.text
  | failedConstant error => error.message
  | notIndexable type => "cannot index expression of type " ++ type.text
  | notInterface type =>
    "invalid operation: subject (type " ++ type.text ++ ") is not an interface"
  | receiveFromSendOnly type =>
    "invalid operation: cannot receive from send-only channel (" ++ type.text ++ ")"
  | receiveFromOther type =>
    "invalid operation: cannot receive from non-channel (type " ++ type.text ++ ")"
  | sendToReceiveOnly type =>
    "invalid operation: cannot send to receive-only channel (" ++ type.text ++ ")"
  | sendToOther type =>
    "invalid operation: cannot send to non-channel (type " ++ type.text ++ ")"
  | notCall keyword => "expression in " ++ keyword.text ++ " must be function call"
  | conversionCall keyword type =>
    keyword.text ++ " requires function call, not conversion to " ++ type.text
  | notFunction type => "invalid operation: cannot call non-function (type " ++ type.text ++ ")"
  | spreadCall signature => "have (...) in call to non-variadic function " ++ signature.text
  | argumentCount found wanted few =>
    (if few then "not enough" else "too many") ++ " arguments in call (have " ++ count found ++
      ", want " ++ count wanted ++ ")"
  | forwardedCount found wanted =>
    "wrong argument count in call (have " ++ count found ++ ", want " ++ count wanted ++ ")"
  | conversionArity type => "conversion to " ++ type.text ++ " needs exactly one argument"
  | notConvertible source target =>
    "cannot convert expression of type " ++ source.text ++ " to type " ++ target.text
  | builtinArity builtin wanted found =>
    (if found < wanted then "not enough" else "too many") ++ " arguments for " ++ builtin.name ++
      "() (have " ++ count found ++ ", want " ++ count wanted ++ ")"
  | builtinSpread builtin => "invalid use of ... with built-in " ++ builtin.name
  | builtinArgument builtin type =>
    "invalid argument: type " ++ type.text ++ " for built-in " ++ builtin.name
  | discardedResult builtin => "discards result of built-in " ++ builtin.name
  | notMap type => "invalid argument: " ++ type.text ++ " is not a map"
  | appendToOther type =>
    "invalid argument: first argument to append must be a slice; have type " ++ type.text
  | spreadNotLast => "can only use ... with final argument in list"
  | makeWithoutLength type =>
    "invalid operation: make(" ++ type.text ++ ") expects 2 or 3 arguments; found 1"
  | notMakeable type =>
    "invalid argument: cannot make " ++ type.text ++ "; type must be slice, map, or channel"
  | compoundArity op =>
    "assignment operation " ++ op.symbol ++ "= requires single-valued expressions"
  | compoundOperator op => "invalid assignment operator " ++ op.symbol ++ "="
  | assignmentMismatch targets values =>
    "assignment mismatch: " ++ count targets ++ " variable(s) but " ++ count values ++ " value(s)"
  | nonNameDefine => "non-name on left side of :="
  | nilAssignment => "use of untyped nil in assignment"
  | nilVariable => "use of untyped nil in variable declaration"
  | repeatedName name => name ++ " repeated on left side of :="
  | notAssignable name => "cannot assign to " ++ name
  | noNewVariables => "no new variables on left side of :="
  | assignToString => "cannot assign to string index (strings are immutable)"
  | assignToExpression => "cannot assign to expression"
  | initSignature => "func init must have no arguments and no return values"
  | constArity names values =>
    "missing init expr for const declaration (" ++ count names ++ " names, " ++ count values ++
      " values)"
  | notConstant name => name ++ " is not constant"
  | missingType => "missing type or init expr in variable declaration"
  | returnArity expected found =>
    "return: expecting " ++ count expected ++ " expressions, found " ++ count found
  | notRangeable type => "cannot range over expression of type " ++ type.text
  | oneIterationVariable type =>
    "range over " ++ type.text ++ " permits only one iteration variable"
  | switchCase case tag =>
    "invalid case in switch on tag (mismatched types " ++ case.text ++ " and " ++ tag.text ++ ")"
  | invalidComm => "select case must be receive, send or assign recv"
  | emptyList => "internal error: empty statement list"
  | nothingDeclared => "internal error: scope pushed an environment but declared no bindings"
  | undeclaredScope objects words =>
    "internal error: scope without environment declared " ++ count objects ++ " binds and " ++
      count words ++ " int binds"
  | boolConstant kind => "internal error: boolean constant holds " ++ kind

def isInternal (cause : Cause) : Bool := cause.kind == .internal

def help : Cause → Option String
  | outsideContext .break => some "break must appear inside a for, switch or select body"
  | declareInPost => some "move the declaration into the loop init"
  | returnArity _ _ => some "a bare return is only allowed when the results are named"
  | cause => if cause.isInternal then some "this is a bug in the compiler" else none

end Cause

structure CompileError where
  cause : Cause
  span : Span
deriving DecidableEq, Repr

namespace CompileError

def message (error : CompileError) : String := error.cause.message

def help (error : CompileError) : Option String := error.cause.help

def isInternal (error : CompileError) : Bool := error.cause.isInternal

end CompileError

/-- A computation that compiles something or stops at the first fault. -/
abbrev Compiled (α : Type) := Except CompileError α

def fault {α : Type} (cause : Cause) (span : Span) : Compiled α := .error ⟨cause, span⟩

end MiniGo
