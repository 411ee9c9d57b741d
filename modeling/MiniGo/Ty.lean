/-!
Resolved types: their text, which of them hold scalars, and assignability.
-/

namespace MiniGo

inductive Direction
  | both
  | send
  | recv
deriving DecidableEq, Repr

namespace Direction

def canSend (direction : Direction) : Bool := direction != .recv

def canRecv (direction : Direction) : Bool := direction != .send

end Direction

/-- The parameter list of a variadic function ends with the slice type that collects the rest. -/
inductive Ty
  | bool
  | int
  | float
  | string
  | slice (elem : Ty)
  | map (key value : Ty)
  | chan (direction : Direction) (elem : Ty)
  | func (params results : List Ty) (variadic : Bool)
  /-- The empty interface, which holds a value of any type. -/
  | any
  /-- The type of the bare constant `nil`. -/
  | nil
deriving Repr, Inhabited

namespace Ty

mutual

def same : Ty → Ty → Bool
  | .bool, .bool | .int, .int | .float, .float | .string, .string | .any, .any | .nil, .nil => true
  | .slice left, .slice right => same left right
  | .map key value, .map key' value' => same key key' && same value value'
  | .chan direction elem, .chan direction' elem' => direction == direction' && same elem elem'
  | .func params results variadic, .func params' results' variadic' =>
    sameAll params params' && sameAll results results' && variadic == variadic'
  | _, _ => false

def sameAll : List Ty → List Ty → Bool
  | [], [] => true
  | left :: lefts, right :: rights => same left right && sameAll lefts rights
  | _, _ => false

end

mutual

theorem eq_of_same : ∀ left right : Ty, same left right = true → left = right
  | .bool, right, agree | .int, right, agree | .float, right, agree
  | .string, right, agree | .any, right, agree | .nil, right, agree => by
    cases right <;> simp_all [same]
  | .slice elem, right, agree => by
    cases right <;> simp_all [same]
    exact eq_of_same _ _ agree
  | .map key value, right, agree => by
    cases right <;> simp_all [same]
    exact ⟨eq_of_same _ _ agree.1, eq_of_same _ _ agree.2⟩
  | .chan direction elem, right, agree => by
    cases right <;> simp_all [same]
    exact eq_of_same _ _ agree.2
  | .func params results variadic, right, agree => by
    cases right <;> simp_all [same]
    exact ⟨eq_of_sameAll _ _ agree.1.1, eq_of_sameAll _ _ agree.1.2⟩

theorem eq_of_sameAll : ∀ lefts rights : List Ty, sameAll lefts rights = true → lefts = rights
  | [], rights, agree => by cases rights <;> simp_all [sameAll]
  | left :: lefts, rights, agree => by
    cases rights <;> simp_all [sameAll]
    exact ⟨eq_of_same _ _ agree.1, eq_of_sameAll _ _ agree.2⟩

end

mutual

theorem same_refl : ∀ type : Ty, same type type = true
  | .bool | .int | .float | .string | .any | .nil => by simp [same]
  | .slice elem => by simp [same, same_refl elem]
  | .map key value => by simp [same, same_refl key, same_refl value]
  | .chan direction elem => by simp [same, same_refl elem]
  | .func params results variadic => by simp [same, sameAll_refl params, sameAll_refl results]

theorem sameAll_refl : ∀ types : List Ty, sameAll types types = true
  | [] => by simp [sameAll]
  | type :: types => by simp [sameAll, same_refl type, sameAll_refl types]

end

theorem same_iff {left right : Ty} : same left right = true ↔ left = right :=
  ⟨eq_of_same left right, fun equal => equal ▸ same_refl left⟩

instance : DecidableEq Ty := fun _ _ => decidable_of_iff _ same_iff

def isScalar : Ty → Bool
  | .bool | .int | .float => true
  | _ => false

def isNumeric : Ty → Bool
  | .int | .float => true
  | _ => false

def isInterface : Ty → Bool
  | .any => true
  | _ => false

def isNillable : Ty → Bool
  | .slice _ | .map _ _ | .chan _ _ | .func _ _ _ | .any => true
  | _ => false

/-- Types on which `==` is defined against a value of the same kind or an interface. -/
def isComparable : Ty → Bool
  | .bool | .int | .float | .string | .any | .chan _ _ => true
  | _ => false

def isKey : Ty → Bool
  | .bool | .int | .string => true
  | _ => false

/-- A value of type `source` can be stored where `target` is declared: equal types, `nil` into a
nillable type, anything into an interface, and a two-way channel into either direction. -/
def assignableTo (source target : Ty) : Bool :=
  source == target ||
    match source, target with
    | .nil, target => target.isNillable
    | _, .any => true
    | .chan .both elem, .chan _ elem' => elem == elem'
    | _, _ => false

/-- Type of the elements of a slice or channel, or of the values of a map. -/
def elem? : Ty → Option Ty
  | .slice elem | .chan _ elem | .map _ elem => some elem
  | _ => none

mutual

def text : Ty → String
  | .bool => "bool"
  | .int => "int"
  | .float => "float64"
  | .string => "string"
  | .slice elem => "[]" ++ elem.text
  | .map key value => "map[" ++ key.text ++ "]" ++ value.text
  | .chan .both elem => "chan " ++ elem.text
  | .chan .send elem => "chan<- " ++ elem.text
  | .chan .recv elem => "<-chan " ++ elem.text
  | .func params results variadic =>
    "func(" ++ paramsText variadic params ++ ")" ++ resultsText results
  | .any => "any"
  | .nil => "nil"

/-- Parameters separated by commas; the last of a variadic list is written with dots. -/
def paramsText (variadic : Bool) : List Ty → String
  | [] => ""
  | [.slice elem] => if variadic then "..." ++ elem.text else "[]" ++ elem.text
  | [param] => param.text
  | param :: rest => param.text ++ ", " ++ paramsText variadic rest

/-- No text for no result, a bare type for one, brackets around several. -/
def resultsText : List Ty → String
  | [] => ""
  | [result] => " " ++ result.text
  | result :: rest => " (" ++ result.text ++ restText rest ++ ")"

def restText : List Ty → String
  | [] => ""
  | result :: rest => ", " ++ result.text ++ restText rest

end

end Ty

structure Signature where
  params : List Ty
  results : List Ty
  variadic : Bool := false
deriving DecidableEq, Repr, Inhabited

namespace Signature

def toTy (signature : Signature) : Ty :=
  .func signature.params signature.results signature.variadic

def text (signature : Signature) : String := signature.toTy.text

/-- Type of the arguments that the last parameter of a variadic function collects. -/
def variadicElem? (signature : Signature) : Option Ty :=
  if signature.variadic then
    match signature.params.getLast? with
    | some (.slice elem) => some elem
    | _ => none
  else none

/-- Number of parameters that take exactly one argument each. -/
def fixed (signature : Signature) : Nat :=
  if signature.variadic then signature.params.length - 1 else signature.params.length

end Signature

end MiniGo
