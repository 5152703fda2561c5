import Mathlib.Order.Interval.Finset.Basic
import Mathlib.Data.Int.Interval
import TapeMachine.Proofs.Budget
import TapeMachine.Proofs.Frame

/-! Positions, widths and cell counts are natural numbers here. In every state that a machine can
reach they stay below `2 ^ 64`, so they may be kept in words of 64 bits. The instruction pointer is
either on the tape or right behind it, or it is where a jump led, which is the value of a cell; and
the detached cells are no more than there are negative addresses. -/

namespace TapeMachine

open Cell (InRange)
open Text (wordBound)

theorem wordBound_eq : wordBound = 2 ^ 64 := rfl

namespace Cursor

variable {m : Memory} {c : Cursor}

theorem slot_lt_of_mode {mode : Mode} (found : c.mode m = .ok mode) : c.slot < m.size := by
  unfold Cursor.mode at found
  split at found
  next => cases found
  next inside => exact Nat.lt_of_not_le inside

theorem slot_pull_le (fits : c.slot ≤ m.size) (use : Use) : (c.pull m use).2.slot ≤ m.size := by
  cases found : c.mode m with
  | error fault =>
    rw [pull_of_mode_error found]
    exact fits
  | ok mode =>
    obtain ⟨cell, pulled⟩ := (yields_of_mode found).pull use
    rw [pulled, slot_next]
    exact slot_lt_of_mode found

/-- Pulls come to the end of the tape at most. -/
theorem slot_pulls_le (fits : c.slot ≤ m.size) (uses : List Use) :
    (c.pulls m uses).2.slot ≤ m.size := by
  induction uses generalizing c with
  | nil => exact fits
  | cons use uses ih => exact ih (slot_pull_le fits use)

/-- The numbers that a cursor computes with fit into words, and a slot on the tape is an address. -/
structure WithinWords (m : Memory) (c : Cursor) : Prop where
  slot : c.slot < wordBound
  width : c.width < wordBound
  advance : c.ip + c.width < wordBound
  address : ∀ mode, c.mode m = .ok mode → (Int64.ofNat c.slot).toInt = c.slot

theorem withinWords (short : m.size < 2 ^ 60) (fits : c.slot ≤ m.size) : c.WithinWords m := by
  have word := wordBound_eq
  have bound : c.slot < 2 ^ 60 := Nat.lt_of_le_of_lt fits short
  have slot : c.slot = c.ip + 1 + c.used := rfl
  have width : c.width = 1 + c.used := rfl
  refine ⟨by omega, by omega, by omega, fun mode found => ?_⟩
  exact Cell.toInt_ofNat (Cell.inRange_iff.mpr (by omega))

end Cursor

namespace Memory

variable {m : Memory}

def Sparse (m : Memory) : Prop := ∀ key ∈ m.detached, key < 0

theorem sparse_ofProgram (program : Program) (limit : Nat) : (ofProgram program limit).Sparse := by
  intro key member
  exact absurd member Std.ExtTreeMap.not_mem_empty

theorem Sparse.put (sparse : m.Sparse) (w : Write) : (m.put w).Sparse := by
  rcases put_cases w with ⟨position, -, sets⟩ | ⟨address, low, -, sets⟩
  · rw [sets]
    exact sparse
  · rw [sets]
    intro key member
    rcases Std.ExtTreeMap.mem_insert.mp member with same | old
    · rw [← Std.LawfulEqCmp.compare_eq_iff_eq.mp same]
      exact low
    · exact sparse key old

theorem Sparse.attempts (sparse : m.Sparse) (writes : List Write) : (m.attempts writes).Sparse := by
  induction writes generalizing m with
  | nil => exact sparse
  | cons w writes ih =>
    apply ih
    rw [attempt_eq]
    cases done : m.apply w with
    | error fault => exact sparse
    | ok m' =>
      rw [eq_put_of_apply done]
      exact sparse.put w

/-- There are no more detached cells than negative addresses. -/
theorem Sparse.size_le (sparse : m.Sparse) : m.detached.size ≤ 2 ^ 63 := by
  -- the size is bounded by counting: the keys are distinct integers of one interval
  have inside : (m.detached.keys.map Int64.toInt).toFinset ⊆ Finset.Ico (-2 ^ 63) 0 := by
    intro a member
    obtain ⟨key, listed, rfl⟩ := List.mem_map.mp (List.mem_toFinset.mp member)
    have low := Cell.lt_zero_iff.mp (sparse key (Std.ExtTreeMap.mem_keys.mp listed))
    have range := Cell.inRange_iff.mp (Cell.inRange_toInt key)
    exact Finset.mem_Ico.mpr ⟨by omega, low⟩
  have distinct : (m.detached.keys.map Int64.toInt).Nodup :=
    Std.ExtTreeMap.nodup_keys.map fun _ _ => Int64.toInt_inj.mp
  have count := Finset.card_le_card inside
  rw [List.toFinset_card_of_nodup distinct, List.length_map, Std.ExtTreeMap.length_keys,
    Int.card_Ico] at count
  exact count

/-- A write makes the tape no shorter, and not longer than the limit. -/
theorem size_attempt (m : Memory) (w : Write) :
    m.size ≤ (m.attempt w).size ∧ (m.attempt w).size ≤ max m.size m.limit := by
  cases found : w.position? with
  | some position =>
    rw [(m.attempt_of_position? found).2]
    split <;> omega
  | none =>
    rw [(m.attempt_of_no_position found).1]
    omega

theorem size_attempts (m : Memory) (writes : List Write) :
    m.size ≤ (m.attempts writes).size ∧ (m.attempts writes).size ≤ max m.size m.limit := by
  induction writes generalizing m with
  | nil =>
    rw [attempts_nil]
    omega
  | cons w writes ih =>
    have first := m.size_attempt w
    have rest := ih (m.attempt w)
    rw [limit_attempt] at rest
    rw [attempts_cons]
    omega

end Memory

namespace Engine

variable {e : Engine}

/-- The instruction pointer is not beyond the end of the tape, or it is the value of a cell. -/
def Placed (e : Engine) : Prop := e.ip ≤ e.memory.size ∨ InRange e.ip

/-- An instruction with all its parameters ends on the tape. -/
theorem advance_le_size {opcode : Opcode} (named : e.site.Names opcode)
    (supplied : ∀ k < opcode.arity, e.site.Supplies k) :
    e.ip + 1 + opcode.arity ≤ e.memory.size := by
  cases arity : opcode.arity with
  | zero => exact named.inside
  | succ k => exact (supplied k (by omega)).1

theorem Placed.step (placed : e.Placed) (front : Option Cell) : (e.step front).1.Placed := by
  cases done : (e.step front).2.completes with
  | false =>
    rw [step_of_not_completes done]
    exact placed
  | true =>
    obtain ⟨opcode, e', effect, stepped, named, supplied, executes⟩ := executes_of_completes done
    have frame := executes.frame
    have longer := frame.size_le
    rw [stepped]
    show e'.Placed
    by_cases jumps : e.site.Jumps opcode
    · -- the target was the value of a cell, whatever the length of the tape
      refine .inr ?_
      rw [frame.jumped jumps]
      exact Cell.inRange_toInt _
    · by_cases halts : opcode = .halt
      · rw [Placed, frame.halted halts]
        exact placed.imp_left fun near => Nat.le_trans near longer
      · have fits := advance_le_size named supplied
        refine .inl ?_
        rw [frame.advanced halts jumps]
        omega

/-- What the engine holds is in range, and what the next step computes with fits into words. -/
structure WithinWords (e : Engine) : Prop where
  cells : ∀ cell ∈ e.memory.cells, InRange cell.toInt
  keys : ∀ key ∈ e.memory.detached, InRange key.toInt ∧ key.toInt < 0
  values : ∀ (key value : Cell), e.memory.detached[key]? = some value → InRange value.toInt
  base : InRange e.base.toInt
  ip : InRange e.ip
  decoded : ∀ c, Cursor.start e.memory e.ip e.base = .ok c → e.ip < e.memory.size
  pulled : ∀ c, Cursor.start e.memory e.ip e.base = .ok c → ∀ uses,
    (c.pulls e.memory uses).2.ip = e.ip ∧ (c.pulls e.memory uses).2.WithinWords e.memory
  advance : ∀ i, e.fetch = .ok i → e.ip + i.width < wordBound
  growth : ∀ front w position, e.write? front = some w → w.position? = some position →
    position + 1 < wordBound
  used : e.memory.used < wordBound

/-- Whatever has been pulled, the cursor is at a slot on the tape or right behind it. -/
theorem slot_le_of_start {c : Cursor} (started : Cursor.start e.memory e.ip e.base = .ok c)
    (uses : List Cursor.Use) :
    (c.pulls e.memory uses).2.ip = e.ip ∧ (c.pulls e.memory uses).2.slot ≤ e.memory.size := by
  obtain ⟨named, same⟩ := (e.site.start_eq_ok_iff c).mp started
  generalize c.opcode = opcode at named same
  subst same
  have first : (e.site.cursor opcode 0).slot ≤ e.memory.size := named.inside
  refine ⟨?_, Cursor.slot_pulls_le first uses⟩
  exact congrArg Cursor.ip (e.site.pulls_cursor opcode uses 0)

/-- The position that a step writes to is the value of a cell. -/
theorem inRange_of_write? {front : Option Cell} {w : Write} {position : Nat}
    (attempted : e.write? front = some w) (found : w.position? = some position) :
    InRange position := by
  have signed : ∃ address value, w = .signed address value := by
    unfold write? at attempted
    split at attempted
    next => cases attempted
    split at attempted
    next => cases attempted
    split at attempted
    next address value _ =>
      cases attempted
      exact ⟨address, value, rfl⟩
    next address _ =>
      obtain ⟨value, -, rfl⟩ := Option.map_eq_some_iff.mp attempted
      exact ⟨address, value, rfl⟩
    next => cases attempted
  obtain ⟨address, value, rfl⟩ := signed
  have range := Cell.inRange_iff.mp (Cell.inRange_toInt address)
  by_cases low : address < 0
  · simp [Write.position?, low] at found
  · simp only [Write.position?, if_neg low, Option.some.injEq] at found
    rw [← found, Cell.toNatClampNeg_eq]
    exact Cell.inRange_iff.mpr (by omega)

theorem withinWords (placed : e.Placed) (sparse : e.memory.Sparse)
    (short : e.memory.size < 2 ^ 60) : e.WithinWords where
  cells cell _ := Cell.inRange_toInt cell
  keys key member := ⟨Cell.inRange_toInt key, Cell.lt_zero_iff.mp (sparse key member)⟩
  values _ value _ := Cell.inRange_toInt value
  base := Cell.inRange_toInt e.base
  ip := by
    rcases placed with near | far
    · exact Cell.inRange_iff.mpr (by omega)
    · exact far
  decoded c started := ((e.site.start_eq_ok_iff c).mp started).1.inside
  pulled c started uses := by
    obtain ⟨same, fits⟩ := slot_le_of_start started uses
    exact ⟨same, Cursor.withinWords short fits⟩
  advance i fetched := by
    obtain ⟨opcode, named, supplied, -, width⟩ := resolve_of_fetch fetched
    have fits := advance_le_size named supplied
    have word := wordBound_eq
    omega
  growth front w position attempted found := by
    have range := Cell.inRange_iff.mp (inRange_of_write? attempted found)
    have word := wordBound_eq
    omega
  used := by
    have few := sparse.size_le
    have word := wordBound_eq
    unfold Memory.used
    omega

end Engine

namespace Machine

theorem placed_act {x : Machine} (placed : x.engine.Placed) (a : Act) :
    (x.act a).engine.Placed := by
  cases a with
  | step =>
    cases going : x.phase.isTerminal with
    | true =>
      rw [act, step_of_isTerminal going]
      exact placed
    | false =>
      rw [act, step_of_not_isTerminal going, engine_absorb]
      exact placed.step x.pending.head?
  | _ => exact placed

theorem placed_perform {x : Machine} (placed : x.engine.Placed) (acts : List Act) :
    (x.perform acts).engine.Placed := by
  induction acts generalizing x with
  | nil => exact placed
  | cons a acts ih => exact ih (placed_act placed a)

/-- Whatever befalls a machine, its tape never gets shorter, nor longer than its program or the
limit, whichever is more; and as long as the tape is shorter than `2 ^ 60`, all that its engine
holds and computes with stays within machine words. -/
theorem within_words (program : Program) (settings : Settings) (acts : List Act) :
    let x := create program settings
    let e := (x.perform acts).engine
    e.memory.size ≤ max program.cells.length settings.memoryLimit ∧
      (∀ more, e.memory.size ≤ (x.perform (acts ++ more)).engine.memory.size) ∧
      (e.memory.size < 2 ^ 60 → e.WithinWords) := by
  intro x e
  have memory : e.memory = x.engine.memory.attempts (x.writes acts) := memory_perform x acts
  have start : x.engine.memory.size = program.cells.length := List.size_toArray
  refine ⟨?_, fun more => ?_, fun short => ?_⟩
  · have bound := (x.engine.memory.size_attempts (x.writes acts)).2
    rw [memory, ← start]
    exact bound
  · have later : x.perform (acts ++ more) = (x.perform acts).perform more := List.foldl_append
    rw [later, memory_perform (x.perform acts)]
    exact (e.memory.size_attempts _).1
  · have placed : e.Placed := placed_perform (.inl (Nat.zero_le _)) acts
    have sparse : e.memory.Sparse := by
      rw [memory]
      exact (Memory.sparse_ofProgram program settings.memoryLimit).attempts _
    exact Engine.withinWords placed sparse short

/-- A program that writes below zero and then jumps as far as a cell can say. -/
theorem within_words_far :
    let program : Program := ⟨[1101, 0, 7, -1, 1106, 0, 9223372036854775807]⟩
    let e := ((create program {}).perform [.start, .step, .step]).engine
    (e.ip = 9223372036854775807 ∧ e.memory.size = 7 ∧ e.memory.detached.size = 1) ∧
      e.memory.size < 2 ^ 60 ∧ e.WithinWords := by
  intro program e
  have short : e.memory.size < 2 ^ 60 := by decide +kernel
  obtain ⟨-, -, within⟩ := within_words program {} [.start, .step, .step]
  exact ⟨by decide +kernel, short, within short⟩

end Machine

end TapeMachine
