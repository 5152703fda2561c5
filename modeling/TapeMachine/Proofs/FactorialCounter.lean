import Mathlib.Algebra.BigOperators.Group.Finset.Basic
import Mathlib.Algebra.Order.BigOperators.Group.Finset
import Mathlib.Data.Nat.Factorial.Basic
import TapeMachine.Proofs.Rearrangement

/-! The counters of a sweep are the digits of a number in factorial base, and the level says how far
a carry has come. Each turn of the loop either counts one arrangement or takes the carry one level
up, so the number of arrangements listed is known at every turn, and the loop ends when the carry
leaves the counter. -/

namespace TapeMachine

open Positions (partner)

theorem factorial_eq (n : ℕ) : factorial n = n.factorial := by
  induction n with
  | zero => rfl
  | succ n ih => rw [factorial, ih, Nat.factorial_succ]

/-- Digits in factorial base that are zero below `i` leave room for `i!` below `n!`. -/
theorem sum_digits_le {digit : ℕ → ℕ} {i n : ℕ} (le : i ≤ n) (lower : ∀ j < i, digit j = 0)
    (bounded : ∀ j < n, digit j ≤ j) :
    (∑ j ∈ Finset.range n, digit j * j.factorial) + i.factorial ≤ n.factorial := by
  induction n, le using Nat.le_induction with
  | base =>
    have zero : ∑ j ∈ Finset.range i, digit j * j.factorial = 0 := by
      apply Finset.sum_eq_zero
      intro j member
      rw [lower j (Finset.mem_range.mp member), Nat.zero_mul]
    omega
  | succ n _ ih =>
    -- the place of `n` adds at most `n * n!`, which is what `(n + 1)!` has over `n!`
    have below := ih fun j less => bounded j (by omega)
    have last : digit n * n.factorial ≤ n * n.factorial :=
      Nat.mul_le_mul_right _ (bounded n (by omega))
    rw [Finset.sum_range_succ, Nat.factorial_succ, Nat.succ_mul]
    omega

namespace Sweep

variable {α : Type} {s : Sweep α} {n k : ℕ}

/-- One turn of the loop, which changes nothing once the loop is over. -/
def turn (s : Sweep α) : Sweep α :=
  if s.level < s.items.size then if s.counter < s.level then s.swap else s.carry else s

def added (s : Sweep α) : List (List α) :=
  if s.level < s.items.size ∧ s.counter < s.level then [s.swap.items.toList] else []

/-- The sweep when the condition of the loop is tested after `t` turns. -/
def after (s : Sweep α) : ℕ → Sweep α
  | 0 => s
  | t + 1 => (s.after t).turn

def listed (s : Sweep α) : ℕ → List (List α)
  | 0 => []
  | t + 1 => s.listed t ++ (s.after t).added

def digit (s : Sweep α) (j : ℕ) : ℕ := s.counters.getD j 0

/-- The state of the counter when `k` arrangements of `n` items have been listed after the first. -/
structure Counts (n k : ℕ) (s : Sweep α) : Prop where
  items : s.items.size = n
  counters : s.counters.size = n
  digits : ∀ j < n, s.digit j ≤ j
  level_pos : 1 ≤ s.level
  level_le : s.level ≤ n
  lower : ∀ j < s.level, s.digit j = 0
  number : k = (∑ j ∈ Finset.range n, s.digit j * j.factorial) + (s.level.factorial - 1)

/-- Every position that the next turn uses is one of the counter or one of the items. -/
structure Within (n : ℕ) (s : Sweep α) : Prop where
  counters : s.counters.size = n
  items : s.items.size = n
  level : s.level < n
  partner : partner s.level s.counter < n

theorem run_succ (s : Sweep α) (fuel : ℕ) : s.run (fuel + 1) = s.added ++ s.turn.run fuel := by
  by_cases inside : s.level < s.items.size
  · by_cases less : s.counter < s.level
    · simp [run, added, turn, inside, less]
    · simp [run, added, turn, inside, less]
  · have ended : s.turn.run fuel = [] := by
      rw [turn, if_neg inside]
      exact run_of_size_le (Nat.le_of_not_lt inside) fuel
    simp [run, added, inside, ended]

/-- The turns of the loop are those that the list of arrangements is made in. -/
theorem run_add (s : Sweep α) (t fuel : ℕ) :
    s.run (t + fuel) = s.listed t ++ (s.after t).run fuel := by
  induction t generalizing fuel with
  | zero => rw [Nat.zero_add]; rfl
  | succ t ih =>
    rw [Nat.add_assoc, Nat.add_comm 1, ih, run_succ, listed, List.append_assoc]
    rfl

theorem digit_set {counters : Array ℕ} {i : ℕ} (inside : i < counters.size) (d j : ℕ) :
    (counters.setIfInBounds i d).getD j 0 = if j = i then d else counters.getD j 0 := by
  simp only [Array.getD_eq_getD_getElem?, Array.getElem?_setIfInBounds]
  by_cases same : i = j
  · subst same
    simp [inside]
  · simp [same, Ne.symm same]

/-- One digit replaced changes the number by that digit only. -/
theorem sum_replace {digit digit' : ℕ → ℕ} {i d : ℕ} (inside : i < n)
    (replaced : ∀ j, digit' j = if j = i then d else digit j) :
    (∑ j ∈ Finset.range n, digit' j * j.factorial) + digit i * i.factorial =
      (∑ j ∈ Finset.range n, digit j * j.factorial) + d * i.factorial := by
  have member : i ∈ Finset.range n := Finset.mem_range.mpr inside
  have others : ∑ j ∈ (Finset.range n).erase i, digit' j * j.factorial =
      ∑ j ∈ (Finset.range n).erase i, digit j * j.factorial := by
    apply Finset.sum_congr rfl
    intro j rest
    rw [replaced, if_neg (Finset.ne_of_mem_erase rest)]
  rw [← Finset.add_sum_erase _ _ member, ← Finset.add_sum_erase (Finset.range n) _ member, others,
    replaced, if_pos rfl]
  omega

namespace Counts

theorem within (counts : s.Counts n k) (inside : s.level < n) : s.Within n := by
  refine ⟨counts.counters, counts.items, inside, ?_⟩
  have bounded : s.counter ≤ s.level := counts.digits s.level inside
  unfold partner
  split <;> omega

theorem digit_swap (counts : s.Counts n k) (inside : s.level < n) (j : ℕ) :
    s.swap.digit j = if j = s.level then s.counter + 1 else s.digit j :=
  digit_set (by rw [counts.counters]; exact inside) _ j

theorem digit_carry (counts : s.Counts n k) (inside : s.level < n) (j : ℕ) :
    s.carry.digit j = if j = s.level then 0 else s.digit j :=
  digit_set (by rw [counts.counters]; exact inside) _ j

/-- A swap counts one up in the lowest place that the carry has come to. -/
theorem swap (counts : s.Counts n k) (inside : s.level < n) (less : s.counter < s.level) :
    s.swap.Counts n (k + 1) := by
  have digit := counts.digit_swap inside
  have positive := s.level.factorial_pos
  have sum := sum_replace inside digit
  have here : s.digit s.level = s.counter := rfl
  have number := counts.number
  have low := counts.level_pos
  refine ⟨?_, ?_, fun j below => ?_, le_rfl, Nat.le_of_lt (Nat.lt_of_le_of_lt low inside),
    fun j below => ?_, ?_⟩
  · simp [Sweep.swap, counts.items]
  · simp [Sweep.swap, counts.counters]
  · rw [digit]
    split
    · omega
    · exact counts.digits j below
  · obtain rfl : j = 0 := Nat.lt_one_iff.mp below
    rw [digit, if_neg (by omega)]
    exact counts.lower 0 (by omega)
  · rw [here, Nat.succ_mul] at sum
    show k + 1 = _ + (Nat.factorial 1 - 1)
    rw [Nat.factorial_one]
    omega

/-- A full digit is set back to zero and carried, which leaves the count as it is. -/
theorem carry (counts : s.Counts n k) (inside : s.level < n) (full : ¬s.counter < s.level) :
    s.carry.Counts n k := by
  have digit := counts.digit_carry inside
  have positive := s.level.factorial_pos
  have sum := sum_replace inside digit
  have here : s.digit s.level = s.level :=
    Nat.le_antisymm (counts.digits s.level inside) (Nat.le_of_not_lt full)
  have number := counts.number
  refine ⟨counts.items, ?_, fun j below => ?_, Nat.le_add_left 1 _, inside, fun j below => ?_, ?_⟩
  · simp [Sweep.carry, counts.counters]
  · rw [digit]
    split
    · exact Nat.zero_le j
    · exact counts.digits j below
  · have below : j < s.level + 1 := below
    rw [digit]
    split
    · rfl
    · exact counts.lower j (by omega)
  · rw [here, Nat.zero_mul] at sum
    show k = _ + ((s.level + 1).factorial - 1)
    rw [Nat.factorial_succ, Nat.succ_mul]
    omega

theorem turn (counts : s.Counts n k) : s.turn.Counts n (k + s.added.length) := by
  unfold Sweep.turn added
  rw [counts.items]
  by_cases inside : s.level < n
  · by_cases less : s.counter < s.level
    · simpa [inside, less] using counts.swap inside less
    · simpa [inside, less] using counts.carry inside less
  · simpa [inside] using counts

theorem lt_factorial (counts : s.Counts n k) : k < n.factorial := by
  have room := sum_digits_le counts.level_le counts.lower counts.digits
  have positive := s.level.factorial_pos
  have number := counts.number
  omega

theorem potential_le (counts : s.Counts n k) : n * k + s.level ≤ n * n.factorial :=
  calc n * k + s.level ≤ n * k + n := Nat.add_le_add_left counts.level_le _
    _ = n * (k + 1) := (Nat.mul_succ n k).symm
    _ ≤ n * n.factorial := Nat.mul_le_mul_left n counts.lt_factorial

/-- A turn lists an arrangement or comes to a higher level, so `n * k + level` grows. -/
theorem progress (counts : s.Counts n k) (inside : s.level < n) :
    n * k + s.level < n * (k + s.added.length) + s.turn.level := by
  unfold Sweep.turn added
  rw [counts.items]
  by_cases less : s.counter < s.level
  · simp [inside, less, Sweep.swap, Nat.mul_add]
    omega
  · simp [inside, less, Sweep.carry]

/-- Where the loop is over, all is counted and the counter is back at zero. -/
theorem finished (counts : s.Counts n k) (outside : ¬s.level < n) :
    s.level = n ∧ k = n.factorial - 1 ∧ s.counters = Array.replicate n 0 := by
  have top : s.level = n := Nat.le_antisymm counts.level_le (Nat.le_of_not_lt outside)
  have zero : ∀ j < n, s.digit j = 0 := fun j below => counts.lower j (by omega)
  have sum : ∑ j ∈ Finset.range n, s.digit j * j.factorial = 0 := by
    apply Finset.sum_eq_zero
    intro j member
    rw [zero j (Finset.mem_range.mp member), Nat.zero_mul]
  refine ⟨top, ?_, ?_⟩
  · rw [counts.number, sum, top, Nat.zero_add]
  · apply Array.ext
    · rw [counts.counters, Array.size_replicate]
    · intro j inside inside'
      have read := zero j (by rwa [counts.counters] at inside)
      simpa [digit, inside] using read

end Counts

variable {items : List α}

theorem counts_start (inhabited : items ≠ []) : (start items).Counts items.length 0 := by
  have zero (j : ℕ) : (start items).digit j = 0 := by
    simp only [digit, start, Array.getD_eq_getD_getElem?, Array.getElem?_replicate]
    split <;> rfl
  have positive : 0 < items.length := List.length_pos_iff.mpr inhabited
  refine ⟨by simp [start], by simp [start], fun j _ => ?_, le_rfl, positive, fun j _ => zero j, ?_⟩
  · rw [zero]
    exact Nat.zero_le j
  · have sum : ∑ j ∈ Finset.range items.length, (start items).digit j * j.factorial = 0 := by
      simp [zero]
    rw [sum]
    rfl

/-- The counter at every turn of the loop. -/
theorem counts_after (inhabited : items ≠ []) (t : ℕ) :
    ((start items).after t).Counts items.length ((start items).listed t).length := by
  induction t with
  | zero => exact counts_start inhabited
  | succ t ih =>
    rw [listed, List.length_append]
    exact ih.turn

/-- As many turns as the loop has taken, so much has it grown. -/
theorem lt_of_going (inhabited : items ≠ []) {t : ℕ}
    (going : ∀ t' < t, ((start items).after t').level < items.length) :
    t < items.length * ((start items).listed t).length + ((start items).after t).level := by
  induction t with
  | zero =>
    have := (counts_start inhabited).level_pos
    exact Nat.lt_of_lt_of_le this (Nat.le_add_left _ _)
  | succ t ih =>
    have before := ih fun t' less => going t' (by omega)
    have grown := (counts_after inhabited t).progress (going t (by omega))
    rw [listed, List.length_append]
    exact Nat.lt_of_le_of_lt before grown

/-- The loop comes to an end within the turns that `arrangements` allows it. -/
theorem exists_over (inhabited : items ≠ []) :
    ∃ t ≤ items.length * factorial items.length,
      (∀ t' < t, ((start items).after t').level < items.length) ∧
        ¬((start items).after t).level < items.length := by
  have bound (t : ℕ) := (counts_after inhabited t).potential_le
  have stops : ∃ t, ¬((start items).after t).level < items.length := by
    -- an endless loop would outgrow the bound of its potential
    by_contra endless
    have going := not_exists_not.mp endless
    have grown := lt_of_going inhabited fun t' (_ : t' < items.length * items.length.factorial) =>
      going t'
    exact absurd grown (Nat.not_lt.mpr (bound _))
  have first : ∀ t' < Nat.find stops, ((start items).after t').level < items.length :=
    fun t' less => not_not.mp (Nat.find_min stops less)
  refine ⟨Nat.find stops, ?_, first, Nat.find_spec stops⟩
  rw [factorial_eq]
  exact Nat.le_of_lt (Nat.lt_of_lt_of_le (lt_of_going inhabited first) (bound _))

/-- For every list that is not empty, the loop is a counter in factorial base at each of its turns,
which uses no position beyond the `n` that there are. It makes the arrangements listed, the turns
being those of `run`, and ends when it has listed `n! - 1` of them, with the counter at zero. -/
theorem counts_in_factorial_base (items : List α) (inhabited : items ≠ []) :
    (∀ t, ((start items).after t).Counts items.length ((start items).listed t).length ∧
      (((start items).after t).level < items.length →
        ((start items).after t).Within items.length)) ∧
    (∀ t fuel, (start items).run (t + fuel) =
      (start items).listed t ++ ((start items).after t).run fuel) ∧
    ∃ t, (∀ t' < t, ((start items).after t').level < items.length) ∧
      ((start items).after t).level = items.length ∧
      ((start items).listed t).length = items.length.factorial - 1 ∧
      ((start items).after t).counters = Array.replicate items.length 0 ∧
      arrangements items = items :: (start items).listed t := by
  have counts := counts_after inhabited
  refine ⟨fun t => ⟨counts t, (counts t).within⟩, run_add (start items), ?_⟩
  obtain ⟨t, enough, going, outside⟩ := exists_over inhabited
  obtain ⟨top, count, reset⟩ := (counts t).finished outside
  refine ⟨t, going, top, count, reset, ?_⟩
  obtain ⟨more, fuel⟩ := Nat.exists_eq_add_of_le enough
  have ended : ((start items).after t).run more = [] :=
    run_of_size_le (by rw [(counts t).items, top]) more
  rw [arrangements, if_neg (by simpa using inhabited), fuel, run_add, ended, List.append_nil]

/-- Three items, after five turns: a carry has come to level two, where the digit is one, and three
arrangements have been listed after the first, which is `1 * 2! + (2! - 1)`. -/
theorem counts_in_factorial_base_three :
    let items : List ℕ := [7, 8, 9]
    let s := start items
    items ≠ [] ∧
      ((s.after 5).counters = #[0, 0, 1] ∧ (s.after 5).level = 2 ∧ (s.listed 5).length = 3) ∧
      (s.after 5).Counts 3 3 ∧ (s.after 5).Within 3 ∧
      ∃ t, (s.listed t).length = 5 ∧ arrangements items = items :: s.listed t := by
  intro items s
  have inhabited : items ≠ [] := by decide
  have length : (s.listed 5).length = 3 := by decide +kernel
  have level : (s.after 5).level = 2 := by decide +kernel
  obtain ⟨counts, -, t, -, -, all, -, same⟩ := counts_in_factorial_base items inhabited
  have counted : (s.after 5).Counts items.length (s.listed 5).length := (counts 5).1
  rw [length] at counted
  have within := (counts 5).2 (level.trans_lt (by decide))
  exact ⟨inhabited, ⟨by decide +kernel, level, length⟩, counted, within, t, all, same⟩

end Sweep

end TapeMachine
