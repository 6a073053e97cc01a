import Mathlib

/-! A list of records in a flat map: the field `f` of the record with number `i` is under a key of its own,
    `slot f i`. With string keys this is a stem for each field, followed by the number. -/

namespace WasmerJs
namespace Numbered

/-! ### Keys that end with a number -/

def key (stem : String) (i : Nat) : String := stem ++ toString i

/-- The digits at the end of a key. -/
def trailing (s : String) : List Char := s.toList.rtakeWhile Char.isDigit

variable {s t : String} {i j : Nat}

variable {K V F R ε : Type} [DecidableEq K]

variable {slot : F → Nat → K} {fields : List F} {m : K → V} {k : K}

end Numbered
end WasmerJs
