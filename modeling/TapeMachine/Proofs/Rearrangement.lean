import TapeMachine.Proofs.Positions

/-! The loop goes through the permutations of positions in the order of `Positions.visits`, so the
arrangements of a list are exactly its rearrangements. -/

namespace TapeMachine

open Positions

variable {α : Type} {items : List α} {σ τ : Equiv.Perm ℕ}

/-- The list whose item at position `i` is the one at position `σ i` of `items`. -/
def arranged (items : List α) (σ : Equiv.Perm ℕ) : List α :=
  items.mapIdx fun i x => items.getD (σ i) x

@[simp] theorem length_arranged (items : List α) (σ : Equiv.Perm ℕ) :
    (arranged items σ).length = items.length := List.length_mapIdx

theorem getElem?_arranged (fixes : σ ∈ below items.length) (i : ℕ) :
    (arranged items σ)[i]? = items[σ i]? := by
  by_cases inside : i < items.length
  · have := lt_of_mem_below fixes inside
    simp [arranged, inside, this]
  · have : σ i = i := mem_below.mp fixes i (Nat.le_of_not_lt inside)
    simp [arranged, inside, this]

theorem eq_arranged (fixes : σ ∈ below items.length) {order : List α}
    (same : ∀ i, order[i]? = items[σ i]?) : order = arranged items σ :=
  List.ext_getElem? fun i => (same i).trans (getElem?_arranged fixes i).symm

theorem arranged_one (items : List α) : arranged items 1 = items :=
  (eq_arranged (one_mem _) fun _ => rfl).symm

theorem swap_arranged (fixes : σ ∈ below items.length) {i j : ℕ} (hi : i < items.length)
    (hj : j < items.length) :
    (arranged items σ).toArray.swapIfInBounds i j =
      (arranged items (σ * Equiv.swap i j)).toArray := by
  have moved : σ * Equiv.swap i j ∈ below items.length := mul_mem fixes (swap_mem_below hi hj)
  have hi' : i < (arranged items σ).toArray.size := by simpa using hi
  have hj' : j < (arranged items σ).toArray.size := by simpa using hj
  apply Array.ext_getElem?
  intro l
  have source : (arranged items (σ * Equiv.swap i j)).toArray[l]? =
      (arranged items σ).toArray[Equiv.swap i j l]? := by
    simp [getElem?_arranged moved, getElem?_arranged fixes]
  rw [source, Equiv.swap_apply_def, Array.swapIfInBounds_def, dif_pos hi', dif_pos hj',
    Array.getElem?_swap]
  grind

namespace Sweep

theorem run_of_counter_lt {s : Sweep α} (inside : s.level < s.items.size)
    (less : s.counter < s.level) (fuel : ℕ) :
    s.run (fuel + 1) = s.swap.items.toList :: s.swap.run fuel := by
  simp [run, inside, less]

theorem run_of_counter_eq {s : Sweep α} (inside : s.level < s.items.size)
    (full : s.counter = s.level) (fuel : ℕ) : s.run (fuel + 1) = s.carry.run fuel := by
  simp [run, inside, full]

theorem run_of_size_le {s : Sweep α} (outside : s.items.size ≤ s.level) (fuel : ℕ) :
    s.run fuel = [] := by
  cases fuel with
  | zero => rfl
  | succ fuel => simp [run, Nat.not_lt.mpr outside]

def rearranged (items : List α) (σ : Equiv.Perm ℕ) (counters : Array ℕ) (level : ℕ) : Sweep α :=
  ⟨(arranged items σ).toArray, counters, level⟩

@[simp] theorem size_rearranged (items : List α) (σ : Equiv.Perm ℕ) (counters : Array ℕ)
    (level : ℕ) : (rearranged items σ counters level).items.size = items.length := by
  simp [rearranged]

theorem swap_rearranged (fixes : σ ∈ below items.length) {counters : Array ℕ} {k c : ℕ}
    (fits : k < items.length) (le : c ≤ k)
    (counter : (rearranged items σ counters k).counter = c) :
    (rearranged items σ counters k).swap =
      rearranged items (σ * Equiv.swap (partner k c) k) (counters.setIfInBounds k (c + 1)) 1 := by
  have close : partner k c < items.length := by
    unfold partner
    split <;> omega
  have moved := swap_arranged fixes close fits
  simp only [swap, counter]
  exact congrArg (Sweep.mk · (counters.setIfInBounds k (c + 1)) 1) moved

def turns : ℕ → ℕ
  | 0 => 0
  | k + 1 => (k + 2) * (turns k + 1)

/-- With its lower counters at zero, the loop lists a sweep of the first `k + 1` positions and
comes to level `k + 1` with its counters as they were. -/
def Sweeps (items : List α) (k : ℕ) : Prop :=
  ∀ σ ∈ below items.length, ∀ counters : Array ℕ, (∀ j ≤ k, counters[j]? = some 0) → ∀ more,
    arranged items σ :: (rearranged items σ counters 1).run (more + turns k) =
      (visits (k + 1)).map (fun τ => arranged items (σ * τ)) ++
        (rearranged items (σ * whole (k + 1)) counters (k + 1)).run more

theorem run_rounds {k : ℕ} (fits : k + 1 < items.length) (lower : Sweeps items k)
    (fixes : σ ∈ below items.length) {counters : Array ℕ}
    (zero : ∀ j ≤ k + 1, counters[j]? = some 0) (more d c : ℕ) (sum : c + d = k + 1) :
    arranged items (σ * rounds (whole (k + 1)) (k + 1) c) ::
        (rearranged items (σ * rounds (whole (k + 1)) (k + 1) c)
          (counters.setIfInBounds (k + 1) c) 1).run (more + (d + 1) * (turns k + 1)) =
      ((List.range' c (d + 1)).flatMap fun c => (visits (k + 1)).map fun τ =>
          arranged items (σ * (rounds (whole (k + 1)) (k + 1) c * τ))) ++
        (rearranged items (σ * whole (k + 2)) (counters.setIfInBounds (k + 1) 0) (k + 2)).run
          more := by
  have turned (c : ℕ) (le : c ≤ k + 1) : rounds (whole (k + 1)) (k + 1) c ∈ below items.length :=
    below_mono fits (rounds_mem_below (whole_mem_below (k + 1)) le)
  have kept (c : ℕ) : ∀ j ≤ k, (counters.setIfInBounds (k + 1) c)[j]? = some 0 := by
    intro j le
    rw [Array.getElem?_setIfInBounds_ne (by omega)]
    exact zero j (by omega)
  have counter (τ : Equiv.Perm ℕ) (c : ℕ) :
      (rearranged items τ (counters.setIfInBounds (k + 1) c) (k + 1)).counter = c := by
    have inside : k + 1 < counters.size := (Array.getElem?_eq_some_iff.mp (zero _ le_rfl)).1
    simp [Sweep.counter, rearranged, inside]
  -- on the rounds still to make: each is a sweep of the lower positions and a turn at this level
  induction d generalizing c with
  | zero =>
    obtain rfl : c = k + 1 := sum
    have fuel : more + (0 + 1) * (turns k + 1) = more + 1 + turns k := by omega
    have start := lower _ (mul_mem fixes (turned (k + 1) le_rfl)) _ (kept (k + 1)) (more + 1)
    rw [fuel, start, run_of_counter_eq (by rwa [size_rearranged]) (counter _ _)]
    simp [carry, rearranged, whole, mul_assoc]
  | succ d ih =>
    have fuel : more + (d + 1 + 1) * (turns k + 1) =
        more + (d + 1) * (turns k + 1) + 1 + turns k := by
      rw [Nat.succ_mul (d + 1)]
      omega
    have turning : σ * rounds (whole (k + 1)) (k + 1) c ∈ below items.length :=
      mul_mem fixes (turned c (by omega))
    have start := lower _ turning _ (kept c) (more + (d + 1) * (turns k + 1) + 1)
    have swapped := swap_rearranged
      (mul_mem turning (below_mono (by omega) (whole_mem_below (k + 1)))) fits (by omega)
      (counter (σ * rounds (whole (k + 1)) (k + 1) c * whole (k + 1)) c)
    rw [Array.setIfInBounds_setIfInBounds, mul_assoc σ, mul_assoc σ, ← rounds] at swapped
    have less : (rearranged items (σ * (rounds (whole (k + 1)) (k + 1) c * whole (k + 1)))
        (counters.setIfInBounds (k + 1) c) (k + 1)).counter < k + 1 := by
      rw [counter]
      omega
    have next := ih (c + 1) (by omega)
    rw [fuel, start, mul_assoc σ, run_of_counter_lt (by rwa [size_rearranged]) less,
      swapped, List.range'_succ, List.flatMap_cons, List.append_assoc]
    simp only [mul_assoc]
    exact congrArg _ next

theorem sweeps {k : ℕ} (fits : k < items.length) : Sweeps items k := by
  induction k with
  | zero =>
    intro σ _ counters _ more
    simp [visits, whole, rounds, turns, rearranged]
  | succ k ih =>
    intro σ fixes counters zero more
    have same : counters.setIfInBounds (k + 1) 0 = counters := by
      have := zero (k + 1) le_rfl
      grind
    have listed := run_rounds fits (ih (by omega)) fixes zero more (k + 1) 0 (Nat.zero_add _)
    rw [same] at listed
    simpa [rounds, visits, turns, List.map_flatMap, List.range_eq_range', Function.comp_def] using
      listed

theorem factorial_pos (n : ℕ) : 0 < factorial n := by
  induction n with
  | zero => exact Nat.one_pos
  | succ n ih => exact Nat.mul_pos (Nat.succ_pos n) ih

theorem turns_le (k : ℕ) : turns k ≤ (k + 1) * factorial (k + 1) := by
  induction k with
  | zero => exact Nat.zero_le _
  | succ k ih =>
    have positive : 0 < factorial (k + 1) := factorial_pos (k + 1)
    refine Nat.mul_le_mul_left (k + 2) ?_
    calc turns k + 1 ≤ (k + 1) * factorial (k + 1) + factorial (k + 1) := by omega
      _ = factorial (k + 2) := (Nat.succ_mul (k + 1) _).symm

/-- The arrangements in the order in which the loop finds them. -/
theorem arrangements_eq (inhabited : items ≠ []) :
    arrangements items = (visits items.length).map (arranged items) := by
  obtain ⟨k, length⟩ : ∃ k, items.length = k + 1 :=
    Nat.exists_eq_succ_of_ne_zero (mt List.length_eq_zero_iff.mp inhabited)
  obtain ⟨more, enough⟩ := Nat.exists_eq_add_of_le' (turns_le k)
  have zero : ∀ j ≤ k, (Array.replicate items.length 0)[j]? = some 0 := by
    intro j le
    simp only [Array.getElem?_replicate, length]
    exact if_pos (Nat.lt_succ_of_le le)
  have listed := sweeps (by omega) 1 (one_mem (below items.length)) _ zero more
  have outside (σ : Equiv.Perm ℕ) (counters : Array ℕ) :
      (rearranged items σ counters (k + 1)).run more = [] :=
    run_of_size_le (by rw [size_rearranged, length]; exact le_rfl) more
  rw [outside, List.append_nil] at listed
  simpa [arrangements, inhabited, start, rearranged, arranged_one, length, enough] using listed

theorem swapIfInBounds_perm (xs : Array α) (i j : ℕ) :
    (xs.swapIfInBounds i j).toList.Perm xs.toList := by
  unfold Array.swapIfInBounds
  split
  · split
    · exact (Array.swap_perm _ _).toList
    · exact .rfl
  · exact .rfl

theorem swap_perm (s : Sweep α) : s.swap.items.toList.Perm s.items.toList :=
  swapIfInBounds_perm s.items _ s.level

theorem perm_of_mem_run {fuel : ℕ} {s : Sweep α} {order : List α} (listed : order ∈ s.run fuel) :
    order.Perm s.items.toList := by
  fun_induction run fuel s with
  | case1 => simp at listed
  | case2 fuel s inside less ih =>
    rcases List.mem_cons.mp listed with rfl | later
    · exact s.swap_perm
    · exact (ih later).trans s.swap_perm
  | case3 fuel s inside full ih => exact ih listed
  | case4 => simp at listed

end Sweep

def shift (σ : Equiv.Perm ℕ) : Equiv.Perm ℕ where
  toFun
    | 0 => 0
    | i + 1 => σ i + 1
  invFun
    | 0 => 0
    | i + 1 => σ.symm i + 1
  left_inv i := by cases i <;> simp
  right_inv i := by cases i <;> simp

theorem shift_mem_below {n : ℕ} (fixes : σ ∈ below n) : shift σ ∈ below (n + 1) := by
  refine mem_below.mpr fun i above => ?_
  obtain ⟨j, rfl⟩ : ∃ j, i = j + 1 := ⟨i - 1, by omega⟩
  exact congrArg (· + 1) (mem_below.mp fixes j (by omega))

theorem exists_arranged {order : List α} (perm : order.Perm items) :
    ∃ σ ∈ below items.length, ∀ i, order[i]? = items[σ i]? := by
  induction perm with
  | nil => exact ⟨1, one_mem _, fun _ => rfl⟩
  | @cons x order items _ ih =>
    obtain ⟨σ, fixes, same⟩ := ih
    refine ⟨shift σ, shift_mem_below fixes, fun i => ?_⟩
    cases i with
    | zero => rfl
    | succ i => exact same i
  | swap x y rest =>
    refine ⟨Equiv.swap 0 1, swap_mem_below (by simp) (by simp), fun i => ?_⟩
    match i with
    | 0 => rfl
    | 1 => rfl
    | i + 2 => rw [Equiv.swap_apply_of_ne_of_ne (by omega) (by omega)]; rfl
  | @trans first middle last _ perm ihFirst ihLast =>
    obtain ⟨σ, fixes, same⟩ := ihFirst
    obtain ⟨τ, fixes', same'⟩ := ihLast
    rw [perm.length_eq] at fixes
    exact ⟨τ * σ, mul_mem fixes' fixes, fun i => (same i).trans (same' (σ i))⟩

/-- Every rearrangement of a list is among its arrangements, and nothing else is. -/
theorem mem_arrangements_iff (inhabited : items ≠ []) {order : List α} :
    order ∈ arrangements items ↔ order.Perm items := by
  constructor
  · intro listed
    rw [arrangements, if_neg (by simpa using inhabited)] at listed
    rcases List.mem_cons.mp listed with rfl | later
    · exact .rfl
    · exact Sweep.perm_of_mem_run later
  · intro perm
    obtain ⟨σ, fixes, same⟩ := exists_arranged perm
    rw [Sweep.arrangements_eq inhabited, eq_arranged fixes same]
    exact List.mem_map_of_mem (mem_visits_iff.mpr fixes)

end TapeMachine
