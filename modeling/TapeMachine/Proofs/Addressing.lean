import TapeMachine.Memory

/-! Tape and detached cells are one memory over the signed addresses: a write changes what is read
at its own address and nowhere else. -/

namespace TapeMachine

namespace Cell

def InRange (x : Int) : Prop := Int64.minValue.toInt ≤ x ∧ x ≤ Int64.maxValue.toInt

instance (x : Int) : Decidable (InRange x) := inferInstanceAs (Decidable (_ ∧ _))

theorem inRange_iff {x : Int} :
    InRange x ↔ -9223372036854775808 ≤ x ∧ x ≤ 9223372036854775807 := Iff.rfl

theorem inRange_toInt (c : Cell) : InRange c.toInt := ⟨c.minValue_le_toInt, c.toInt_le⟩

theorem toInt_ofNat {n : Nat} (fits : InRange n) : (Int64.ofNat n).toInt = n :=
  Int64.toInt_ofNat_of_lt (by have := inRange_iff.mp fits; omega)

theorem lt_zero_iff {c : Cell} : c < 0 ↔ c.toInt < 0 := Int64.lt_iff_toInt_lt

theorem toNatClampNeg_eq (c : Cell) : c.toNatClampNeg = c.toInt.toNat := rfl

theorem toNatClampNeg_inj {a b : Cell} (ha : ¬a < 0) (hb : ¬b < 0) :
    a.toNatClampNeg = b.toNatClampNeg ↔ a = b := by
  rw [lt_zero_iff] at ha hb
  rw [toNatClampNeg_eq, toNatClampNeg_eq, ← Int64.toInt_inj]
  omega

end Cell

namespace Memory

theorem read_set (m : Memory) (address other value : Cell) :
    (m.set address value).read other = if other = address then value else m.read other := by
  by_cases low : address < 0 <;> by_cases low' : other < 0
  · simp only [set, read, if_pos low, if_pos low', Std.ExtTreeMap.getElem?_insert,
      Std.LawfulEqCmp.compare_eq_iff_eq, eq_comm (a := address)]
    split <;> rfl
  · have apart : other ≠ address := fun same => low' (same ▸ low)
    simp only [set, read, if_pos low, if_neg low', if_neg apart]
    rfl
  · have apart : other ≠ address := fun same => low (same ▸ low')
    simp only [set, read, if_neg low, if_pos low', if_neg apart]
    rfl
  · simp only [set, read, if_neg low, if_neg low', cell_setCell, Cell.toNatClampNeg_inj low' low]

/-- The tape grows to hold the address; it holds every negative one already. -/
theorem size_set (m : Memory) (address value : Cell) :
    (m.set address value).size = max m.size (address.toInt + 1).toNat := by
  unfold set
  split
  next low =>
    have := Cell.lt_zero_iff.mp low
    show m.size = _
    omega
  next high =>
    have := mt Cell.lt_zero_iff.mpr high
    rw [size_setCell, Cell.toNatClampNeg_eq]
    omega

theorem read_ofProgram (p : Program) (limit : Nat) (address : Cell) :
    (ofProgram p limit).read address =
      if address < 0 then 0 else p.cells[address.toNatClampNeg]?.getD 0 := by
  simp only [ofProgram, read, cell, List.getElem?_toArray, Std.ExtTreeMap.getElem?_empty,
    Option.getD_none]

theorem read_ofNat (m : Memory) {position : Nat} (fits : Cell.InRange position) :
    m.read (Int64.ofNat position) = m.cell position := by
  have value := Cell.toInt_ofNat fits
  have positive : ¬Int64.ofNat position < 0 := by rw [Cell.lt_zero_iff, value]; omega
  rw [read, if_neg positive, Cell.toNatClampNeg_eq, value, Int.toNat_natCast]

end Memory

end TapeMachine
