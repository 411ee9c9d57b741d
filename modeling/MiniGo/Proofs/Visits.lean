import MiniGo.Proofs.Extents
/-!
Loops over maps. The keys are those found at the start, in their order, and the map may change from turn
to turn. A key that the map does not have when its turn comes is passed over; another one comes with the
value that it has then.
-/

namespace MiniGo

namespace Text

def bytes (text : String) : List UInt8 := text.toUTF8.data.toList

theorem utf8EncodeChar_lt {left right : Char} (less : left < right) (rest others : List UInt8) :
    String.utf8EncodeChar left ++ rest < String.utf8EncodeChar right ++ others := by
  have less : left.val.toNat < right.val.toNat := less
  have bound : right.val.toNat < 1114112 := by
    have valid : right.val.toNat.isValidChar := right.valid
    unfold Nat.isValidChar at valid
    omega
  simp only [String.utf8EncodeChar]
  generalize left.val.toNat = low at less
  generalize right.val.toNat = high at less bound
  -- one case for each pair of widths
  repeat' split
  all_goals
    simp (disch := omega) only [List.cons_append, List.nil_append, List.cons_lt_cons_iff,
      UInt8.lt_iff_toNat_lt, ← UInt8.toNat_inj, UInt8.toNat_ofNat', Nat.mod_eq_of_lt]
    omega

theorem encode_lt {left right : List Char} (less : left < right) :
    left.flatMap String.utf8EncodeChar < right.flatMap String.utf8EncodeChar := by
  induction less with
  | @nil char rest =>
    have some : String.utf8EncodeChar char ≠ [] := by simp
    obtain ⟨first, others, isFirst⟩ := List.exists_cons_of_ne_nil some
    rw [List.flatMap_nil, List.flatMap_cons, isFirst]
    exact .nil
  | rel less => exact utf8EncodeChar_lt less _ _
  | @cons char rest others less ih =>
    rw [List.flatMap_cons, List.flatMap_cons]
    generalize String.utf8EncodeChar char = bytes
    induction bytes with
    | nil => exact ih
    | cons byte bytes ih => exact .cons ih

theorem bytes_lt {left right : String} (less : left < right) : bytes left < bytes right := by
  have encoded (text : String) : bytes text = text.toList.flatMap String.utf8EncodeChar := by
    have isBytes : text.toUTF8 = text.toList.utf8Encode := by
      rw [← String.toByteArray_ofList, String.ofList_toList]
      rfl
    rw [bytes, isBytes, List.utf8Encode, List.data_toByteArray]
  rw [encoded, encoded]
  exact encode_lt less

end Text

namespace MapKey

/-- A key comes before another one: false before true, and both before all numbers; numbers by size, and
all before texts; texts by their bytes. -/
def Before : MapKey → MapKey → Prop
  | bool left, bool right => left = false ∧ right = true
  | bool _, int _ | bool _, str _ | int _, str _ => True
  | int left, int right => left.toInt < right.toInt
  | str left, str right => Text.bytes left < Text.bytes right
  | int _, bool _ | str _, bool _ | str _, int _ => False

theorem before_of_less {left right : MapKey} (less : left.less right = true) : left.Before right := by
  cases left with
  | bool left => cases right <;> simp_all [MapKey.less, Before]
  | int left =>
    cases right with
    | bool right => cases less
    | int right => exact Int64.lt_iff_toInt_lt.mp (less_int.mp less)
    | str right => trivial
  | str left =>
    cases right with
    | str right => exact Text.bytes_lt (less_str.mp less)
    | bool | int => cases less

end MapKey

theorem Entries.Ascending.before {entries : Entries} (ascending : entries.Ascending) :
    entries.keys.Pairwise MapKey.Before :=
  List.Pairwise.imp MapKey.before_of_less ascending

namespace Compile.RangeLoop

section Reads

variable {loop : RangeLoop} {first : Heap} {mapKey elem type : Ty} {map : MapRef} {ref : SliceRef}
  {all left : List MapKey} {iteration : Iteration}

/-- The state of a loop over some keys when the last of them are left. -/
structure Awaits (mapKey elem type : Ty) (map : MapRef) (ref : SliceRef) (all left : List MapKey)
    (iteration : Iteration) : Prop where
  subject : iteration.subject = .map mapKey elem map
  keys : iteration.keys = .slice type ref
  step : iteration.step = 1
  left : ∃ position : Nat, iteration.index.toInt = position ∧ left = all.drop position

theorem Awaits.next {key : MapKey} {rest : List MapKey} (few : all.length < 2 ^ 63)
    (awaits : Awaits mapKey elem type map ref all (key :: rest) iteration) :
    Awaits mapKey elem type map ref all rest { iteration with index := iteration.index + 1 } := by
  obtain ⟨position, isIndex, isLeft⟩ := awaits.left
  refine ⟨awaits.subject, awaits.keys, awaits.step, position + 1, ?_, ?_⟩
  · have some := congrArg List.length isLeft
    rw [List.length_cons, List.length_drop] at some
    have moved := @Iteration.toInt_add_ofNat iteration.index 1 (by omega)
    rw [isIndex] at moved
    exact moved
  · rw [← List.tail_drop, ← isLeft, List.tail_cons]

theorem Awaits.hands {world : World} (awaits : Awaits mapKey elem type map ref all left iteration)
    (items : world.heap.items ref = (all.map MapKey.toValue).toArray) :
    iteration.hands .map world = .ok
      (match RangeSlots.firstPresent (world.heap.entries map) (left.map MapKey.toValue) with
      | some (skipped, found) =>
        (some found, { iteration with index := iteration.index + Int64.ofNat skipped })
      | none => (none, { iteration with index := iteration.index + Int64.ofNat left.length })) := by
  obtain ⟨position, isIndex, isLeft⟩ := awaits.left
  have rest : (world.heap.items ref).toList.drop iteration.index.toInt.toNat =
      left.map MapKey.toValue := by
    rw [items, isIndex, isLeft, Int.toNat_natCast, List.map_drop]
  simp only [Iteration.hands, awaits.subject, awaits.keys, rest, List.length_map]
  cases RangeSlots.firstPresent (world.heap.entries map) (left.map MapKey.toValue) <;> rfl

end Reads

section Result

variable [Natives] {outer : Scope} {frame : Frame} {here : Nat} {labels : List String}
  {key value : Option Expr} {isDefine : Bool} {subject : Expr} {body : Block} {span : Span}
  {piece : Piece}

end Result

end Compile.RangeLoop

end MiniGo
