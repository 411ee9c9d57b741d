import MiniGo.Proofs.Rounds
/-!
Loops over numbers, slices and strings. What they go over is settled when they start: the numbers below
a bound, the positions of a slice, the characters of a string. The index never leaves the range of its
type on the way.
-/

namespace MiniGo

namespace RangeKind.Over

variable {kind : RangeKind} {key elem : Ty} {value : Option Ty}

end RangeKind.Over

namespace Iteration

theorem toInt_add_ofNat {index : Int64} {count : Nat} (inside : index.toInt + count < 2 ^ 63) :
    (index + Int64.ofNat count).toInt = index.toInt + count := by
  have low := index.le_toInt
  have small : count < 2 ^ 64 := by omega
  have isCount : (Int64.ofNat count).toInt = (count : Int).bmod (2 ^ 64) := Int64.toInt_ofNat'
  rw [Int64.toInt_add, isCount, Int.add_bmod_bmod, Int.bmod_eq_of_le] <;> omega

/-- The state counts up to its limit, and these numbers are left. -/
structure Counts (left : List Nat) (iteration : Iteration) : Prop where
  step : iteration.step = 1
  left : ∃ first : Nat, iteration.index.toInt = first ∧
    left = List.range' first (iteration.limit.toInt.toNat - first)

variable {iteration : Iteration} {number : Nat} {rest : List Nat}

theorem Counts.begins (index : iteration.index = 0) (step : iteration.step = 1) :
    iteration.Counts (List.range iteration.limit.toInt.toNat) :=
  ⟨step, 0, by rw [index]; rfl, by rw [List.range_eq_range', Nat.sub_zero]⟩

theorem Counts.done (counts : Counts [] iteration) : ¬iteration.index < iteration.limit := by
  obtain ⟨-, first, isFirst, same⟩ := counts
  have none := congrArg List.length same
  rw [List.length_range', List.length_nil] at none
  rw [Int64.lt_iff_toInt_lt]
  omega

theorem Counts.next (counts : Counts (number :: rest) iteration) :
    iteration.index < iteration.limit ∧ iteration.index.toInt = number ∧
      iteration.stepped.Counts rest := by
  obtain ⟨step, first, isFirst, same⟩ := counts
  have some := congrArg List.length same
  rw [List.length_range', List.length_cons] at some
  obtain ⟨count, isCount⟩ : ∃ count, iteration.limit.toInt.toNat - first = count + 1 := ⟨_, some.symm⟩
  rw [isCount, List.range'_succ] at same
  obtain ⟨rfl, rfl⟩ := List.cons.inj same
  have bound := iteration.limit.toInt_lt
  have following : iteration.stepped.index.toInt = number + 1 := by
    rw [stepped, step, ← isFirst]
    exact @toInt_add_ofNat iteration.index 1 (by omega)
  refine ⟨by rw [Int64.lt_iff_toInt_lt]; omega, isFirst, step, number + 1, by simpa using following, ?_⟩
  simp only [stepped]
  congr 1
  omega

end Iteration

namespace Text

end Text

namespace Compile.RangeLoop

section Reads

variable {loop : RangeLoop} {first : Heap}

end Reads

section Over

variable (loop : RangeLoop) (host : Host) (others : World → World → Prop) (targets : Targets)
  (levels here : Nat)

variable {loop host others targets levels here} {inner : EnvRef} {world : World} {subject : Value}
  {ends : Sight} {moments : List Moment} {halt : Halt}

end Over

theorem Of.type_eq {loop : RangeLoop} {scope : Scope} {here : Nat} {labels : List String}
    {key value : Option Expr}
    {isDefine : Bool} {subject : Expr} {body : Block} {span : Span} {lines : List Line} {type : Ty}
    (isLoop : loop.Of scope here labels key value isDefine subject body span lines)
    (isType : (expr ({ owned := true } :: scope) subject >>= Operand.type) = .ok type) :
    loop.type = type := by
  rw [isLoop.operand] at isType
  exact Except.ok.inj (isLoop.type.symm.trans isType)

section Result

variable [Natives] {outer : Scope} {frame : Frame} {here : Nat} {labels : List String}
  {key value : Option Expr} {isDefine : Bool} {subject : Expr} {body : Block} {span : Span}
  {piece : Piece}

end Result

end Compile.RangeLoop

end MiniGo
