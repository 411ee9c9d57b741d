import MiniGo.Value
/-!
Keys of a map and its entries, which are kept in ascending order of their keys: truth values before
integers before strings.
-/

namespace MiniGo

inductive MapKey
  | bool (truth : Bool)
  | int (number : Int64)
  | str (text : String)
deriving DecidableEq, Repr, Inhabited

namespace MapKey

/-- Strict order of keys. Strings compare by code points, which is the order of their bytes. -/
def less : MapKey → MapKey → Bool
  | bool left, bool right => !left && right
  | bool _, _ => true
  | int _, bool _ => false
  | int left, int right => decide (left < right)
  | int _, str _ => true
  | str left, str right => decide (left < right)
  | str _, _ => false

def order (left right : MapKey) : Ordering :=
  if left.less right then .lt else if left = right then .eq else .gt

def toValue : MapKey → Value
  | bool truth => .bool truth
  | int number => .int number
  | str text => .str text

def text (key : MapKey) : String :=
  match key with
  | bool truth => (Const.bool truth).text
  | int number => (Const.int number).text
  | str text => text

def ofValue : Value → Except RuntimeError MapKey
  | .bool truth => pure (bool truth)
  | .int number => pure (int number)
  | .str text => pure (str text)
  | other => throw (.unsupported (other.typeName ++ " is not a valid map key"))

end MapKey

/-- The contents of a map, in ascending order of keys. -/
abbrev Entries := List (MapKey × Value)

namespace Entries

def get? (entries : Entries) (key : MapKey) : Option Value := entries.lookup key

/-- Puts a value under a key, in the place of a former one. -/
def insert (key : MapKey) (value : Value) : Entries → Entries
  | [] => [(key, value)]
  | (key', value') :: rest =>
    if key.less key' then (key, value) :: (key', value') :: rest
    else if key = key' then (key, value) :: rest
    else (key', value') :: insert key value rest

def erase (key : MapKey) (entries : Entries) : Entries := entries.filter (·.1 != key)

def keys (entries : Entries) : List MapKey := entries.map (·.1)

theorem get?_cons (key other : MapKey) (value : Value) (rest : Entries) :
    get? ((key, value) :: rest) other = if other = key then some value else get? rest other := by
  by_cases same : other = key
  · simp [get?, same]
  · have differs : (other == key) = false := by simp [same]
    simp [get?, List.lookup_cons, same, differs]

theorem get?_insert (key other : MapKey) (value : Value) (entries : Entries) :
    get? (insert key value entries) other =
      if other = key then some value else get? entries other := by
  induction entries with
  | nil => exact get?_cons key other value []
  | cons entry rest ih =>
    rcases entry with ⟨head, former⟩
    by_cases less : key.less head = true
    · rw [insert, if_pos less, get?_cons]
    · by_cases equal : key = head
      · subst head
        rw [insert, if_neg less, if_pos rfl, get?_cons, get?_cons]
        by_cases same : other = key <;> simp [same]
      · rw [insert, if_neg less, if_neg equal, get?_cons, get?_cons, ih]
        by_cases found : other = head
        · subst head
          simp [Ne.symm equal]
        · simp [found]

theorem get?_erase (key other : MapKey) (entries : Entries) :
    get? (erase key entries) other = if other = key then none else get? entries other := by
  induction entries with
  | nil => simp [erase, get?]
  | cons entry rest ih =>
    rcases entry with ⟨head, former⟩
    by_cases equal : head = key
    · subst head
      have dropped : erase key ((key, former) :: rest) = erase key rest := by simp [erase]
      rw [dropped, ih, get?_cons]
      by_cases same : other = key <;> simp [same]
    · have kept : erase key ((head, former) :: rest) = (head, former) :: erase key rest := by
        simp [erase, equal]
      rw [kept, get?_cons, get?_cons, ih]
      by_cases found : other = head
      · subst head
        simp [equal]
      · simp [found]

end Entries

end MiniGo
