import Pipewright.Configuration

/-!
# Edits of the step list

The steps of a pipeline are edited by position, a 64-bit number counted from zero. An edit at
a position that the list does not have is refused. Moving a step down asks for the position
behind it, which the greatest 64-bit number does not have; that case is an overflow and not a
refusal.

## Main definitions

* `addStep?`, `removeStep?`, `toggleStep?`, `retextStep?`: edits of one step.
* `moveStepUp?`, `moveStepDown`: the exchange of neighbours.
-/

namespace Pipewright

/-- The list with the elements at positions `i` and `i + 1` exchanged. -/
def swapNeighbours {α : Type} : Nat → List α → List α
  | 0, a :: b :: rest => b :: a :: rest
  | i + 1, a :: rest => a :: swapNeighbours i rest
  | _, l => l

/-- A sum of positions that is not a 64-bit number. -/
inductive PositionOverflow where
  /-- The position behind the given one does not exist. -/
  | behind (index : UInt64)
  deriving DecidableEq, Repr

/-- The position behind `i`. -/
def positionBehind (i : UInt64) : Except PositionOverflow Nat :=
  if i.toNat + 1 < UInt64.size then .ok (i.toNat + 1) else .error (.behind i)

namespace Configuration

/-- The configuration with a step appended; a blank text is refused. -/
def addStep? (c : Configuration) (text : String) : Option Configuration :=
  (Step.ofText? text).map fun s => { c with steps := c.steps ++ [s] }

/-- The configuration without the step at `i`. -/
def removeStep? (c : Configuration) (i : UInt64) : Option Configuration :=
  if i.toNat < c.steps.length then some { c with steps := c.steps.eraseIdx i.toNat } else none

/-- The configuration with the step at `i` in front of the one before it. -/
def moveStepUp? (c : Configuration) (i : UInt64) : Option Configuration :=
  if 0 < i.toNat ∧ i.toNat < c.steps.length then
    some { c with steps := swapNeighbours (i.toNat - 1) c.steps }
  else none

/-- The configuration with the step at `i` behind the one after it. -/
def moveStepDown (c : Configuration) (i : UInt64) :
    Except PositionOverflow (Option Configuration) := do
  let behind ← positionBehind i
  if behind < c.steps.length then
    return some { c with steps := swapNeighbours i.toNat c.steps }
  else return none

/-- The configuration with the step at `i` changed by `f`. -/
def changeStep? (c : Configuration) (i : UInt64) (f : Step → Step) : Option Configuration :=
  if i.toNat < c.steps.length then some { c with steps := c.steps.modify i.toNat f } else none

/-- The configuration with the step at `i` switched on or off. -/
def toggleStep? (c : Configuration) (i : UInt64) : Option Configuration :=
  c.changeStep? i fun s => { s with enabled := !s.enabled }

/-- The configuration with the text of the step at `i` replaced; a blank text is refused. -/
def retextStep? (c : Configuration) (i : UInt64) (text : String) : Option Configuration :=
  (Step.ofText? text).bind fun t => c.changeStep? i fun s => { s with text := t.text }

end Configuration

end Pipewright
