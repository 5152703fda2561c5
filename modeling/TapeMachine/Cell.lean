/-! A cell is a signed 64-bit integer. Sums and products saturate: one that leaves the range becomes
the bound it passed. -/

namespace TapeMachine

abbrev Cell := Int64

namespace Cell

def ofInt? (x : Int) : Option Cell :=
  if Int64.minValue.toInt ≤ x ∧ x ≤ Int64.maxValue.toInt then some (Int64.ofInt x) else none

def satAdd (a b : Cell) : Cell := Int64.ofIntClamp (a.toInt + b.toInt)

def satMul (a b : Cell) : Cell := Int64.ofIntClamp (a.toInt * b.toInt)

def ofBool (b : Bool) : Cell := if b then 1 else 0

theorem ofInt?_eq_some_iff (x : Int) (c : Cell) : ofInt? x = some c ↔ c.toInt = x := by
  unfold ofInt?
  split
  next h =>
    rw [Option.some.injEq]
    constructor
    · rintro rfl; exact Int64.toInt_ofInt_of_le h.1 (Int.lt_add_one_iff.mpr h.2)
    · rintro rfl; exact Int64.ofInt_toInt c
  next h =>
    constructor
    · intro e; cases e
    · rintro rfl
      exact absurd ⟨c.minValue_le_toInt, c.toInt_le⟩ h

@[simp] theorem ofInt?_toInt (c : Cell) : ofInt? c.toInt = some c :=
  (ofInt?_eq_some_iff _ _).mpr rfl

def clamp (x : Int) : Int := max Int64.minValue.toInt (min x Int64.maxValue.toInt)

theorem clamp_of_le {x : Int} (low : Int64.minValue.toInt ≤ x) (high : x ≤ Int64.maxValue.toInt) :
    clamp x = x := by
  rw [clamp, Int.min_eq_left high, Int.max_eq_right low]

theorem toInt_ofIntClamp (x : Int) : (Int64.ofIntClamp x).toInt = clamp x := by
  by_cases low : Int64.minValue.toInt ≤ x
  · by_cases high : x ≤ Int64.maxValue.toInt
    · rw [Int64.toInt_ofIntClamp low high, clamp_of_le low high]
    · rw [Int64.ofIntClamp, dif_pos low, dif_neg high, clamp, Int.min_eq_right (by omega)]
      rfl
  · simp only [Int64.ofIntClamp, dif_neg low, clamp]
    omega

/-- A sum that leaves the range becomes the bound it passed. -/
theorem toInt_satAdd (a b : Cell) : (satAdd a b).toInt = clamp (a.toInt + b.toInt) :=
  toInt_ofIntClamp _

theorem toInt_satMul (a b : Cell) : (satMul a b).toInt = clamp (a.toInt * b.toInt) :=
  toInt_ofIntClamp _

end Cell

end TapeMachine
