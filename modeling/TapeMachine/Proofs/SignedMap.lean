import TapeMachine.Proofs.Addressing
import TapeMachine.Proofs.History

/-! Tape and detached cells together are a map from signed addresses to cells, zero by default. A
write is refused exactly if it needs a new cell that the limit leaves no room for. After any list of
reads and writes, an address holds what the last successful write put there, or else what the
program has there. Writes at different addresses commute. -/

namespace TapeMachine

namespace Write

/-- The address of a write among all integers; a tape position may lie beyond the signed ones. -/
def address : Write → Int
  | cell position _ => position
  | signed address _ => address.toInt

def value : Write → Cell
  | cell _ value => value
  | signed _ value => value

end Write

namespace Memory

/-- There is no room for the cell that a write at the address needs. -/
def Refuses (m : Memory) (address : Cell) : Prop :=
  (0 ≤ address.toInt ∧ m.size ≤ address.toInt ∧ m.limit ≤ address.toInt) ∨
    (address.toInt < 0 ∧ address ∉ m.detached ∧ m.limit ≤ m.size + m.detached.size)

instance (m : Memory) (address : Cell) : Decidable (m.Refuses address) :=
  inferInstanceAs (Decidable (_ ∨ _))

def reported (address : Cell) : Nat :=
  if address < 0 then unplaced else address.toNatClampNeg

theorem refusal?_eq (m : Memory) (address : Cell) :
    m.refusal? address =
      if m.Refuses address then some (.memoryLimit (reported address) m.limit) else none := by
  unfold refusal? cellRefusal? reported Refuses
  by_cases low : address < 0
  · have negative := Cell.lt_zero_iff.mp low
    have bounds : ¬0 ≤ address.toInt := by omega
    simp only [low, negative, bounds, if_true, false_and, true_and, false_or]
  · have positive := mt Cell.lt_zero_iff.mpr low
    have bounds : 0 ≤ address.toInt := by omega
    have size : m.size ≤ address.toNatClampNeg ↔ (m.size : Int) ≤ address.toInt := by
      rw [Cell.toNatClampNeg_eq]; omega
    have limit : m.limit ≤ address.toNatClampNeg ↔ (m.limit : Int) ≤ address.toInt := by
      rw [Cell.toNatClampNeg_eq]; omega
    simp only [low, positive, bounds, size, limit, if_false, false_and, true_and, or_false]

theorem write_eq_error_iff (m : Memory) (address value : Cell) (fault : Fault) :
    m.write address value = .error fault ↔
      m.Refuses address ∧ fault = .memoryLimit (reported address) m.limit := by
  unfold write
  rw [refusal?_eq]
  by_cases refused : m.Refuses address <;> simp [refused, eq_comm]

theorem write_eq_ok_iff (m m' : Memory) (address value : Cell) :
    m.write address value = .ok m' ↔ ¬m.Refuses address ∧ m' = m.set address value := by
  unfold write
  rw [refusal?_eq]
  by_cases refused : m.Refuses address <;> simp [refused, eq_comm]

theorem mem_detached_set (m : Memory) (address other value : Cell) :
    other ∈ (m.set address value).detached ↔ other ∈ m.detached ∨ address < 0 ∧ other = address := by
  unfold set
  by_cases low : address < 0
  · simp only [low, if_true, true_and, Std.ExtTreeMap.mem_insert,
      Std.LawfulEqCmp.compare_eq_iff_eq, eq_comm (a := address)]
    exact or_comm
  · simp [low, setCell]

/-- Two memories with the same tape length, cells, detached cells and limit are the same. -/
theorem ext_cell {m m' : Memory} (size : m.size = m'.size)
    (cells : ∀ position, m.cell position = m'.cell position) (detached : m.detached = m'.detached)
    (limit : m.limit = m'.limit) : m = m' := by
  obtain ⟨tape, store, bound⟩ := m
  obtain ⟨tape', store', bound'⟩ := m'
  obtain rfl : store = store' := detached
  obtain rfl : bound = bound' := limit
  have same : tape = tape' := by
    apply Array.ext size
    intro position inside inside'
    have looked := cells position
    simpa [cell, inside, inside'] using looked
  rw [same]

theorem setCell_comm (m : Memory) {p q : Nat} (apart : p ≠ q) (v w : Cell) :
    (m.setCell p v).setCell q w = (m.setCell q w).setCell p v := by
  apply ext_cell
  · simp only [size_setCell]
    omega
  · intro position
    simp only [cell_setCell]
    by_cases first : position = p
    · simp [first, apart]
    · simp [first]
  · rfl
  · rfl

theorem insert_comm (t : Std.ExtTreeMap Cell Cell) {a b : Cell} (apart : a ≠ b) (v w : Cell) :
    (t.insert a v).insert b w = (t.insert b w).insert a v := by
  apply Std.ExtTreeMap.ext_getElem?
  intro key
  simp only [Std.ExtTreeMap.getElem?_insert, Std.LawfulEqCmp.compare_eq_iff_eq]
  by_cases first : a = key
  · subst first
    simp [apart.symm]
  · simp [first]

/-- A tape position is the signed address of the same number. -/
theorem read_setCell (m : Memory) (position : Nat) (value other : Cell) :
    (m.setCell position value).read other =
      if (position : Int) = other.toInt then value else m.read other := by
  unfold read
  by_cases low : other < 0
  · have negative := Cell.lt_zero_iff.mp low
    have apart : ¬(position : Int) = other.toInt := by omega
    simp only [low, apart, if_true, if_false]
    rfl
  · have positive := mt Cell.lt_zero_iff.mpr low
    have same : other.toNatClampNeg = position ↔ (position : Int) = other.toInt := by
      rw [Cell.toNatClampNeg_eq]
      omega
    simp only [low, if_false, cell_setCell, same]

def apply (m : Memory) : Write → Except Fault Memory
  | .cell position value => m.writeCell position value
  | .signed address value => m.write address value

theorem attempt_eq (m : Memory) (w : Write) : m.attempt w = (m.apply w).toOption.getD m := by
  cases w <;> rfl

/-- Work on a memory in place. What has been changed before a fault stays changed. -/
abbrev Storing (α : Type) := ExceptT Fault (StateM Memory) α

/-- Sets a tape cell in place. The tape is grown to hold it first, unless the limit forbids it. -/
def Storing.cell (position : Nat) (value : Cell) : Storing Unit := do
  let m ← get
  if m.size ≤ position then
    if m.limit ≤ position then throw (.memoryLimit position m.limit)
    modify fun m => { m with cells := m.cells.rightpad (position + 1) 0 }
  modify fun m => { m with cells := m.cells.setIfInBounds position value }

def Storing.write : Write → Storing Unit
  | .cell position value => Storing.cell position value
  | .signed address value => do
    if address < 0 then
      let m ← get
      if address ∉ m.detached ∧ m.limit ≤ m.size + m.detached.size then
        throw (.memoryLimit unplaced m.limit)
      modify fun m => { m with detached := m.detached.insert address value }
    else Storing.cell address.toNatClampNeg value

theorem run_get_bind {α : Type} (work : Memory → Storing α) (m : Memory) :
    (get >>= work).run.run m = (work m).run.run m := rfl

theorem run_cell (m : Memory) (position : Nat) (value : Cell) :
    (Storing.cell position value).run.run m =
      ((m.writeCell position value).map fun _ => (),
        (m.writeCell position value).toOption.getD m) := by
  rw [Storing.cell, run_get_bind, writeCell, cellRefusal?]
  by_cases outside : m.size ≤ position
  · by_cases full : m.limit ≤ position
    · simp only [outside, full, and_self, if_true]
      rfl
    · simp only [outside, full, and_false, if_true, if_false]
      rfl
  · have fits : m.cells.rightpad (position + 1) 0 = m.cells := by
      simp [Array.rightpad, size] at outside ⊢
      omega
    simp only [outside, false_and, if_false, setCell, fits]
    rfl

/-- Carried out in place a write comes to the same: it is refused before it has changed anything. -/
theorem run_write (m : Memory) (w : Write) :
    (Storing.write w).run.run m = ((m.apply w).map fun _ => (), m.attempt w) := by
  rw [attempt_eq]
  cases w with
  | cell position value => exact run_cell m position value
  | signed address value =>
    by_cases low : address < 0
    · rw [Storing.write, if_pos low, run_get_bind, apply, Memory.write, refusal?, if_pos low, set,
        if_pos low]
      by_cases full : address ∉ m.detached ∧ m.limit ≤ m.size + m.detached.size
      · simp only [if_pos full]
        rfl
      · simp only [if_neg full]
        rfl
    · have same : m.apply (.signed address value) = m.writeCell address.toNatClampNeg value := by
        simp only [apply, Memory.write, refusal?, if_neg low, set]
        rfl
      rw [same, Storing.write, if_neg low]
      exact run_cell m _ value

/-- The memory with the cell of a write set, whether or not there is room for it. -/
def put (m : Memory) : Write → Memory
  | .cell position value => m.setCell position value
  | .signed address value => m.set address value

theorem eq_put_of_apply {m m' : Memory} {w : Write} (done : m.apply w = .ok m') :
    m' = m.put w := by
  cases w with
  | cell position value =>
    simp only [apply, writeCell] at done
    split at done <;> cases done
    rfl
  | signed address value => exact ((write_eq_ok_iff ..).mp done).2

/-- A write is one to the tape or one to the detached cells, in every memory. -/
theorem put_cases (w : Write) :
    (∃ position : Nat, w.address = position ∧ ∀ m : Memory, m.put w = m.setCell position w.value) ∨
      ∃ address : Cell, address < 0 ∧ w.address = address.toInt ∧
        ∀ m : Memory, m.put w = { m with detached := m.detached.insert address w.value } := by
  cases w with
  | cell position value => exact .inl ⟨position, rfl, fun _ => rfl⟩
  | signed address value =>
    by_cases low : address < 0
    · exact .inr ⟨address, low, rfl, fun m => by simp [put, set, low, Write.value]⟩
    · have positive := mt Cell.lt_zero_iff.mpr low
      have place : address.toInt = address.toNatClampNeg := by
        rw [Cell.toNatClampNeg_eq]
        omega
      exact .inl ⟨address.toNatClampNeg, place, fun m => by simp [put, set, low, Write.value]⟩

theorem read_put (m : Memory) (w : Write) (other : Cell) :
    (m.put w).read other = if w.address = other.toInt then w.value else m.read other := by
  cases w with
  | cell position value => exact read_setCell m position value other
  | signed address value =>
    simp only [put, read_set, Write.address, Write.value, Int64.toInt_inj, eq_comm (a := address)]

/-- Writes at different addresses can be exchanged. -/
theorem put_comm (m : Memory) {w w' : Write} (apart : w.address ≠ w'.address) :
    (m.put w).put w' = (m.put w').put w := by
  rcases put_cases w with ⟨p, place, sets⟩ | ⟨a, -, place, sets⟩ <;>
    rcases put_cases w' with ⟨q, place', sets'⟩ | ⟨b, -, place', sets'⟩ <;>
    simp only [sets, sets']
  · exact setCell_comm m (fun same => apart (by rw [place, place', same])) _ _
  · rfl
  · rfl
  · have distinct : a ≠ b := fun same => apart (by rw [place, place', same])
    rw [insert_comm m.detached distinct]

/-- The writes of a list that succeed, each in the memory that it finds. -/
def accepted (m : Memory) : List Write → List Write
  | [] => []
  | w :: writes => (if (m.apply w).isOk then [w] else []) ++ (m.attempt w).accepted writes

def lastAt (address : Cell) (writes : List Write) : Option Cell :=
  (writes.filter fun w => w.address = address.toInt).getLast?.map Write.value

theorem lastAt_cons (address : Cell) (w : Write) (writes : List Write) :
    lastAt address (w :: writes) =
      (lastAt address writes).or (if w.address = address.toInt then some w.value else none) := by
  unfold lastAt
  by_cases here : w.address = address.toInt
  · simp [here, List.getLast?_cons]
  · simp [here]

theorem read_attempts (m : Memory) (writes : List Write) (address : Cell) :
    (m.attempts writes).read address =
      (lastAt address (m.accepted writes)).getD (m.read address) := by
  -- from the front, since a write is accepted or not by the memory that it finds
  induction writes generalizing m with
  | nil => rfl
  | cons w writes ih =>
    rw [attempts_cons, ih, accepted]
    cases done : m.apply w with
    | error fault =>
      have kept : m.attempt w = m := by rw [attempt_eq, done]; rfl
      simp [kept, Except.isOk, Except.toBool]
    | ok m' =>
      have next : m.attempt w = m' := by rw [attempt_eq, done]; rfl
      rw [next, eq_put_of_apply done, read_put]
      simp only [Except.isOk, Except.toBool, if_true, List.singleton_append, lastAt_cons]
      cases lastAt address ((m.put w).accepted writes) with
      | some value => rfl
      | none => by_cases here : w.address = address.toInt <;> simp [here]

structure Updated (m : Memory) (address value : Cell) (m' : Memory) : Prop where
  read : ∀ other, m'.read other = if other = address then value else m.read other
  size : (m'.size : Int) = if address < 0 then (m.size : Int) else max m.size (address.toInt + 1)
  detached : ∀ other, other ∈ m'.detached ↔ other ∈ m.detached ∨ address < 0 ∧ other = address
  limit : m'.limit = m.limit

theorem updated_set (m : Memory) (address value : Cell) :
    m.Updated address value (m.set address value) where
  read other := m.read_set address other value
  size := by
    rw [size_set]
    split
    next low =>
      have := Cell.lt_zero_iff.mp low
      omega
    next high =>
      have := mt Cell.lt_zero_iff.mpr high
      omega
  detached other := m.mem_detached_set address other value
  limit := m.limit_set address value

theorem attempt_of_refuses {m : Memory} {address : Cell} (refused : m.Refuses address)
    (value : Cell) : m.attempt (.signed address value) = m := by
  have failed := (write_eq_error_iff m address value _).mpr ⟨refused, rfl⟩
  rw [attempt_eq, apply, failed]
  rfl

end Memory

inductive Access where
  | look (address : Cell)
  | write (w : Write)
  deriving DecidableEq, Repr

def Access.write? : Access → Option Write
  | look _ => none
  | write w => some w

namespace Memory

def access (m : Memory) : Access → Memory
  | .look _ => m
  | .write w => m.attempt w

theorem foldl_access (m : Memory) (calls : List Access) :
    calls.foldl access m = m.attempts (calls.filterMap Access.write?) := by
  induction calls generalizing m with
  | nil => rfl
  | cons call calls ih => cases call <;> exact ih _

/-- Memory is one map from signed addresses to cells, zero by default. A write that there is no room
for fails and changes nothing, also where it is carried out in place; any other changes what is read
at its own address only. So after any calls an address holds what the last successful write put
there, else what the program has there. The order of successful writes at different addresses does
not matter. -/
theorem one_map :
    (∀ (m : Memory) (w : Write),
      (Storing.write w).run.run m = ((m.apply w).map fun _ => (), m.attempt w)) ∧
    (∀ (m : Memory) (address value : Cell),
      ((∃ fault, m.write address value = .error fault) ↔ m.Refuses address) ∧
        (m.Refuses address → m.attempt (.signed address value) = m) ∧
        (¬m.Refuses address →
          ∃ m', m.write address value = .ok m' ∧ m.Updated address value m')) ∧
    (∀ (program : Program) (limit : Nat) (calls : List Access) (address : Cell),
      let initial := ofProgram program limit
      let writes := calls.filterMap Access.write?
      calls.foldl access initial = initial.attempts writes ∧
        (calls.foldl access initial).read address =
          (lastAt address (initial.accepted writes)).getD
            (if address < 0 then 0 else program.cells[address.toNatClampNeg]?.getD 0)) ∧
    ∀ (m first second both both' : Memory) (w w' : Write), w.address ≠ w'.address →
      m.apply w = .ok first → first.apply w' = .ok both →
      m.apply w' = .ok second → second.apply w = .ok both' → both = both' := by
  refine ⟨run_write, fun m address value =>
    ⟨?_, fun refused => attempt_of_refuses refused value, ?_⟩, ?_, ?_⟩
  · constructor
    · rintro ⟨fault, failed⟩
      exact ((write_eq_error_iff ..).mp failed).1
    · intro refused
      exact ⟨_, (write_eq_error_iff ..).mpr ⟨refused, rfl⟩⟩
  · intro admitted
    exact ⟨_, (write_eq_ok_iff ..).mpr ⟨admitted, rfl⟩, m.updated_set address value⟩
  · intro program limit calls address initial writes
    refine ⟨initial.foldl_access calls, ?_⟩
    rw [foldl_access, read_attempts, read_ofProgram]
  · intro m first second both both' w w' apart done thenOther done' thenFirst
    rw [eq_put_of_apply thenOther, eq_put_of_apply done, eq_put_of_apply thenFirst,
      eq_put_of_apply done']
    exact m.put_comm apart

/-- A tape of two cells with room for four, written to on both sides. The detached cell at `-2` is
refused once the tape has grown, and the one at `-1` can still be set. -/
theorem one_map_four :
    let m := ofProgram ⟨[1, 2]⟩ 4
    let calls : List Access := [.write (.signed (-1) 7), .look (-1), .write (.cell 3 9),
      .write (.signed (-2) 5), .write (.signed (-1) 8), .write (.signed 4 6)]
    let final := calls.foldl access m
    (m.Refuses 4 ∧ (Storing.write (.signed 4 6)).run.run m = (.error (.memoryLimit 4 4), m)) ∧
      (¬m.Refuses (-1) ∧ ∃ m', m.write (-1) 7 = .ok m' ∧ m.Updated (-1) 7 m') ∧
      final.read (-1) = 8 ∧ final.read (-2) = 0 ∧ final.read 1 = 2 ∧ final.read 3 = 9 ∧
      ∃ first second both,
        m.apply (.signed (-1) 7) = .ok first ∧ first.apply (.cell 2 9) = .ok both ∧
        m.apply (.cell 2 9) = .ok second ∧ second.apply (.signed (-1) 7) = .ok both := by
  intro m calls final
  obtain ⟨inPlace, single, sequence, exchange⟩ := one_map
  have full : m.Refuses 4 := by decide +kernel
  have room : ¬m.Refuses (-1) := by decide +kernel
  have held (address : Cell) := (sequence ⟨[1, 2]⟩ 4 calls address).2
  have low : m.apply (.signed (-1) 7) = .ok (m.put (.signed (-1) 7)) := by rfl
  have lowHigh : (m.put (.signed (-1) 7)).apply (.cell 2 9) =
      .ok ((m.put (.signed (-1) 7)).put (.cell 2 9)) := by rfl
  have high : m.apply (.cell 2 9) = .ok (m.put (.cell 2 9)) := by rfl
  have highLow : (m.put (.cell 2 9)).apply (.signed (-1) 7) =
      .ok ((m.put (.cell 2 9)).put (.signed (-1) 7)) := by rfl
  have same := exchange m _ _ _ _ (.signed (-1) 7) (.cell 2 9) (by decide) low lowHigh high highLow
  have unchanged := inPlace m (.signed 4 6)
  rw [(single m 4 6).2.1 full] at unchanged
  refine ⟨⟨full, unchanged⟩, ⟨room, (single m (-1) 7).2.2 room⟩,
    (held (-1)).trans ?_, (held (-2)).trans ?_, (held 1).trans ?_, (held 3).trans ?_,
    _, _, _, low, lowHigh, high, highLow.trans (congrArg Except.ok same.symm)⟩
  all_goals decide +kernel

end Memory

end TapeMachine
