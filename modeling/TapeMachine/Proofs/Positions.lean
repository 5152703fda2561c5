import Mathlib.GroupTheory.GroupAction.FixingSubgroup
import Mathlib.GroupTheory.Perm.List
import Mathlib.Algebra.Group.Action.End
import Mathlib.Algebra.Ring.Parity
import TapeMachine.Arrangements

/-! What the sweep does to positions, apart from any list. A rearrangement is a permutation of
positions, and swapping two positions multiplies it on the right. A sweep of the first `k + 1`
positions is `k + 1` sweeps of the first `k` with `k` swaps between them, each of which puts another
item at position `k`. Hence it visits every permutation of the first `k + 1` positions. Which item
comes to position `k` is decided by what a sweep of the positions below leaves behind: a swap of the
two outer ones if their number is odd, a cycle through all of them if it is even. -/

namespace TapeMachine.Positions

open Equiv (Perm swap)

/-- The permutations that leave every position from `k` on in place. -/
def below (k : ℕ) : Subgroup (Perm ℕ) := fixingSubgroup (Perm ℕ) (Set.Ici k)

theorem mem_below {k : ℕ} {σ : Perm ℕ} : σ ∈ below k ↔ ∀ i, k ≤ i → σ i = i :=
  mem_fixingSubgroup_iff (Perm ℕ)

theorem below_mono {j k : ℕ} (le : j ≤ k) : below j ≤ below k := by
  intro σ fixes
  exact mem_below.mpr fun i above => mem_below.mp fixes i (le.trans above)

theorem lt_of_mem_below {k i : ℕ} {σ : Perm ℕ} (fixes : σ ∈ below k) (inside : i < k) :
    σ i < k := by
  by_contra outside
  have again : σ (σ i) = σ i := mem_below.mp fixes _ (Nat.le_of_not_lt outside)
  have same : σ i = i := σ.injective again
  omega

theorem mem_below_of_succ {k : ℕ} {σ : Perm ℕ} (fixes : σ ∈ below (k + 1)) (top : σ k = k) :
    σ ∈ below k := by
  refine mem_below.mpr fun i above => ?_
  rcases above.eq_or_lt with rfl | later
  · exact top
  · exact mem_below.mp fixes i later

theorem swap_mem_below {i j k : ℕ} (hi : i < k) (hj : j < k) : swap i j ∈ below k :=
  mem_below.mpr fun l above => Equiv.swap_apply_of_ne_of_ne (by omega) (by omega)

/-- The position that a swap at level `k` exchanges with `k`, after `c` swaps there. -/
def partner (k c : ℕ) : ℕ := if k % 2 = 0 then 0 else c

/-- `c` rounds at level `k`, each a sweep of the positions below followed by a swap. -/
def rounds (sweep : Perm ℕ) (k : ℕ) : ℕ → Perm ℕ
  | 0 => 1
  | c + 1 => rounds sweep k c * sweep * swap (partner k c) k

/-- What a sweep of the first `k` positions leaves behind. -/
def whole : ℕ → Perm ℕ
  | 0 => 1
  | k + 1 => rounds (whole k) k k * whole k

/-- The permutations that a sweep of the first `k` positions goes through. -/
def visits : ℕ → List (Perm ℕ)
  | 0 => [1]
  | k + 1 => (List.range (k + 1)).flatMap fun c => (visits k).map (rounds (whole k) k c * ·)

theorem rounds_mem_below {k c : ℕ} {sweep : Perm ℕ} (inner : sweep ∈ below k) (le : c ≤ k) :
    rounds sweep k c ∈ below (k + 1) := by
  induction c with
  | zero => exact one_mem _
  | succ c ih =>
    have close : partner k c < k + 1 := by
      unfold partner
      split <;> omega
    have lower : sweep ∈ below (k + 1) := below_mono (Nat.le_succ k) inner
    exact mul_mem (mul_mem (ih (by omega)) lower) (swap_mem_below close (by omega))

theorem whole_mem_below (k : ℕ) : whole k ∈ below k := by
  induction k with
  | zero => exact one_mem _
  | succ k ih => exact mul_mem (rounds_mem_below ih le_rfl) (below_mono (Nat.le_succ k) ih)

/-- A new front of a cycle is a swap with its last entry. -/
theorem formPerm_cons_concat {x y : ℕ} {l : List ℕ} (once : (x :: (l ++ [y])).Nodup) :
    (x :: (l ++ [y])).formPerm = (l ++ [y]).formPerm * swap y x := by
  rw [← List.formPerm_append_pair, ← List.formPerm_rotate_one _ once]
  simp

section Odd

/-! At an odd level `k + 1` the sweep below is the swap of positions `0` and `k`, and the partners
run through `0, …, k`. -/

variable {k : ℕ}

/-- The positions that come to the top in `c` rounds at level `k`, the latest first. -/
def seen (t : Perm ℕ) (k c : ℕ) : List ℕ := ((List.range c).map t).reverse ++ [k]

theorem seen_succ (t : Perm ℕ) (k c : ℕ) : seen t k (c + 1) = t c :: seen t k c := by
  simp [seen, List.range_succ]

theorem mem_seen_iff {t : Perm ℕ} (fixes : t ∈ below k) (x : ℕ) : x ∈ seen t k k ↔ x < k + 1 := by
  simp only [seen, List.mem_append, List.mem_reverse, List.mem_map, List.mem_range,
    List.mem_singleton]
  constructor
  · rintro (⟨i, inside, rfl⟩ | rfl)
    · exact (lt_of_mem_below fixes inside).trans (Nat.lt_succ_self k)
    · exact Nat.lt_succ_self x
  · intro inside
    rcases (Nat.lt_succ_iff.mp inside).eq_or_lt with rfl | lower
    · exact .inr rfl
    · exact .inl ⟨t⁻¹ x, lt_of_mem_below (inv_mem fixes) lower, t.apply_symm_apply x⟩

theorem nodup_seen {t : Perm ℕ} (fixes : t ∈ below k) {c : ℕ} (le : c ≤ k) :
    (seen t k c).Nodup := by
  refine List.Nodup.append ?_ (List.nodup_singleton k) ?_
  · exact List.nodup_reverse.mpr (List.nodup_range.map t.injective)
  · intro x early top
    obtain ⟨i, inside, rfl⟩ := List.mem_map.mp (List.mem_reverse.mp early)
    have : i < c := List.mem_range.mp inside
    have : t i < k := lt_of_mem_below fixes (by omega)
    have : t i = k := List.mem_singleton.mp top
    omega

theorem outer_mem_below (k : ℕ) : swap 0 k ∈ below (k + 1) :=
  swap_mem_below (Nat.succ_pos k) (Nat.lt_succ_self k)

theorem outer_pow_apply (even : k % 2 = 0) (c : ℕ) : (swap 0 k ^ (c + 1)) c = swap 0 k c := by
  have square : swap 0 k ^ 2 = 1 := by rw [pow_two, Equiv.swap_mul_self]
  rcases Nat.even_or_odd' (c + 1) with ⟨d, twice | rest⟩
  · -- `c` is odd, and both outer positions are even
    rw [twice, pow_mul, square, one_pow, Equiv.Perm.one_apply]
    exact (Equiv.swap_apply_of_ne_of_ne (by omega) (by omega)).symm
  · rw [rest, pow_succ, pow_mul, square, one_pow, one_mul]

theorem rounds_outer (even : k % 2 = 0) {c : ℕ} (le : c ≤ k + 1) :
    rounds (swap 0 k) (k + 1) c = (seen (swap 0 k) (k + 1) c).formPerm * swap 0 k ^ c := by
  induction c with
  | zero => simp [rounds, seen]
  | succ c ih =>
    have top : (swap 0 k ^ (c + 1)) (k + 1) = k + 1 :=
      mem_below.mp (pow_mem (outer_mem_below k) (c + 1)) (k + 1) le_rfl
    have once := nodup_seen (outer_mem_below k) le
    rw [seen_succ] at once
    have grown : (swap 0 k c :: seen (swap 0 k) (k + 1) c).formPerm =
        (seen (swap 0 k) (k + 1) c).formPerm * swap (swap 0 k c) (k + 1) := by
      rw [Equiv.swap_comm _ (k + 1)]
      exact formPerm_cons_concat once
    rw [rounds, ih (by omega), partner, if_neg (by omega), mul_assoc _ (_ ^ c), ← pow_succ,
      mul_assoc, Equiv.mul_swap_eq_swap_mul, outer_pow_apply even, top, ← mul_assoc, seen_succ,
      grown]

theorem exists_rounds_outer (even : k % 2 = 0) {j : ℕ} (inside : j < k + 2) :
    ∃ c ≤ k + 1, rounds (swap 0 k) (k + 1) c (k + 1) = j := by
  rcases (Nat.lt_succ_iff.mp inside).eq_or_lt with rfl | lower
  · exact ⟨0, Nat.zero_le _, rfl⟩
  · -- `j` comes to the top right after its mirror image has been the partner
    have bound : swap 0 k j + 1 ≤ k + 1 := lt_of_mem_below (outer_mem_below k) lower
    have top := mem_below.mp (pow_mem (outer_mem_below k) (swap 0 k j + 1)) (k + 1) le_rfl
    have last := List.formPerm_apply_getLast j (seen (swap 0 k) (k + 1) (swap 0 k j))
    refine ⟨swap 0 k j + 1, bound, ?_⟩
    rw [rounds_outer even bound, Equiv.Perm.mul_apply, top, seen_succ, Equiv.swap_apply_self]
    simpa only [seen, ← List.cons_append, List.getLast_concat] using last

end Odd

section Even

/-! At an even level `k` the sweep below is a cycle through all positions, and the partner is always
`0`. A round is then a cycle too, with `k` put in behind `0`. -/

variable {k : ℕ} {l : List ℕ}

/-- The positions below `k`, each once and `0` the last. -/
structure Circular (k : ℕ) (l : List ℕ) : Prop where
  once : (l ++ [0]).Nodup
  all : ∀ x, x ∈ l ++ [0] ↔ x < k

theorem Circular.cons_nodup (circular : Circular k l) : (k :: (l ++ [0])).Nodup :=
  List.nodup_cons.mpr ⟨fun inside => lt_irrefl k ((circular.all k).mp inside), circular.once⟩

theorem Circular.length_eq (circular : Circular k l) : (l ++ [0]).length = k := by
  have same : (l ++ [0]).Perm (List.range k) := by
    refine (List.perm_ext_iff_of_nodup circular.once List.nodup_range).mpr fun x => ?_
    rw [circular.all, List.mem_range]
  rw [same.length_eq, List.length_range]

theorem rounds_cycle (even : k % 2 = 0) (circular : Circular k l) (c : ℕ) :
    rounds (l ++ [0]).formPerm k c = (k :: (l ++ [0])).formPerm ^ c := by
  induction c with
  | zero => rfl
  | succ c ih =>
    rw [rounds, ih, partner, if_pos even, pow_succ, mul_assoc,
      formPerm_cons_concat circular.cons_nodup]

theorem exists_rounds_cycle (even : k % 2 = 0) (circular : Circular k l) {j : ℕ}
    (inside : j < k + 1) : ∃ c ≤ k, rounds (l ++ [0]).formPerm k c k = j := by
  have member : j ∈ k :: (l ++ [0]) := by
    rw [List.mem_cons, circular.all]
    omega
  obtain ⟨c, bound, rfl⟩ := List.mem_iff_getElem.mp member
  have short : c < (l ++ [0]).length + 1 := bound
  refine ⟨c, by rw [circular.length_eq] at short; omega, ?_⟩
  rw [rounds_cycle even circular, List.formPerm_pow_apply_head _ _ circular.cons_nodup]
  congr 1
  exact Nat.mod_eq_of_lt short

theorem whole_succ_of_cycle (even : k % 2 = 0) (circular : Circular k l)
    (cycle : whole k = (l ++ [0]).formPerm) : whole (k + 1) = swap 0 k := by
  have period : (k :: (l ++ [0])).formPerm ^ (k + 1) = 1 := by
    have := List.formPerm_pow_length_eq_one_of_nodup _ circular.cons_nodup
    rwa [List.length_cons, circular.length_eq] at this
  have cut : (l ++ [0]).formPerm = (k :: (l ++ [0])).formPerm * swap 0 k := by
    rw [formPerm_cons_concat circular.cons_nodup, mul_assoc, Equiv.swap_mul_self, mul_one]
  calc whole (k + 1) = (k :: (l ++ [0])).formPerm ^ k * (l ++ [0]).formPerm := by
        rw [whole, cycle, rounds_cycle even circular]
    _ = (k :: (l ++ [0])).formPerm ^ (k + 1) * swap 0 k := by
        rw [pow_succ, mul_assoc, ← cut]
    _ = swap 0 k := by rw [period, one_mul]

end Even

theorem whole_succ_of_outer {k : ℕ} (even : k % 2 = 0) (outer : whole (k + 1) = swap 0 k) :
    ∃ l, Circular (k + 2) l ∧ whole (k + 2) = (l ++ [0]).formPerm := by
  have square : swap 0 k ^ 2 = 1 := by rw [pow_two, Equiv.swap_mul_self]
  obtain ⟨d, twice⟩ : ∃ d, k + 2 = 2 * d := ⟨(k + 2) / 2, by omega⟩
  have value : whole (k + 2) = (seen (swap 0 k) (k + 1) (k + 1)).formPerm := by
    rw [whole, outer, rounds_outer even le_rfl, mul_assoc, ← pow_succ, twice, pow_mul, square,
      one_pow, mul_one]
  have once := nodup_seen (outer_mem_below k) le_rfl
  have all := mem_seen_iff (outer_mem_below k)
  -- the last position to come to the top is `0`
  rw [seen_succ, Equiv.swap_apply_right] at once value
  simp only [seen_succ, Equiv.swap_apply_right] at all
  refine ⟨seen (swap 0 k) (k + 1) k, ⟨?_, fun x => ?_⟩, ?_⟩
  · exact (List.perm_append_singleton 0 _).nodup_iff.mpr once
  · rw [(List.perm_append_singleton 0 _).mem_iff]
    exact all x
  · rw [value, ← List.formPerm_rotate_one _ once]
    simp

theorem whole_odd (m : ℕ) : whole (2 * m + 1) = swap 0 (2 * m) := by
  induction m with
  | zero => exact (Equiv.swap_self 0).symm
  | succ m ih =>
    obtain ⟨l, circular, cycle⟩ := whole_succ_of_outer (by omega) ih
    exact whole_succ_of_cycle (by omega) circular cycle

theorem exists_rounds (k : ℕ) {j : ℕ} (inside : j < k + 1) :
    ∃ c ≤ k, rounds (whole k) k c k = j := by
  obtain ⟨m, rfl | rfl⟩ := Nat.even_or_odd' k
  · cases m with
    | zero => exact ⟨0, le_rfl, (Nat.lt_one_iff.mp inside).symm⟩
    | succ m =>
      obtain ⟨l, circular, cycle⟩ := whole_succ_of_outer (by omega) (whole_odd m)
      rw [Nat.mul_succ] at inside ⊢
      rw [cycle]
      exact exists_rounds_cycle (by omega) circular inside
  · rw [whole_odd]
    exact exists_rounds_outer (by omega) inside

/-- A sweep of the first `k` positions visits all their permutations and no other. -/
theorem mem_visits_iff {k : ℕ} {σ : Perm ℕ} : σ ∈ visits k ↔ σ ∈ below k := by
  induction k generalizing σ with
  | zero =>
    rw [visits, List.mem_singleton]
    constructor
    · rintro rfl
      exact one_mem _
    · intro fixes
      exact Equiv.ext fun i => mem_below.mp fixes i (Nat.zero_le i)
  | succ k ih =>
    simp only [visits, List.mem_flatMap, List.mem_map, List.mem_range]
    constructor
    · rintro ⟨c, bound, τ, visited, rfl⟩
      have lower : τ ∈ below (k + 1) := below_mono (Nat.le_succ k) (ih.mp visited)
      exact mul_mem (rounds_mem_below (whole_mem_below k) (by omega)) lower
    · intro fixes
      -- the round that brings the item of `σ` to the top; the sweep after it does the rest
      obtain ⟨c, bound, top⟩ := exists_rounds k (lt_of_mem_below fixes (Nat.lt_succ_self k))
      have turned := rounds_mem_below (whole_mem_below k) bound
      refine ⟨c, by omega, (rounds (whole k) k c)⁻¹ * σ, ih.mpr ?_, mul_inv_cancel_left _ σ⟩
      refine mem_below_of_succ (mul_mem (inv_mem turned) fixes) ?_
      rw [Equiv.Perm.mul_apply, ← top]
      exact Equiv.symm_apply_apply _ k

end TapeMachine.Positions
