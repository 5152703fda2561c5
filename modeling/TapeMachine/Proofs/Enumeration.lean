import Mathlib.Data.Fintype.Perm
import TapeMachine.Proofs.Rearrangement

/-! A sweep of `n` positions visits `n!` permutations, as many as there are, and every one of them
is visited. So each is visited once: the arrangements of a list are numbered by the permutations of
its positions, and an arrangement comes up once for each permutation that gives it. -/

namespace TapeMachine

namespace Positions

open Equiv (Perm)

def onFirst (n : ℕ) : Perm (Fin n) ≃ below n :=
  Fin.equivSubtype.permCongr.trans <|
    (Equiv.Perm.subtypeEquivSubtypePerm (· < n)).trans <|
      Equiv.subtypeEquivRight fun σ => by simp only [mem_below, not_lt]

theorem onFirst_apply {n : ℕ} (τ : Perm (Fin n)) (i : Fin n) : (onFirst n τ).1 i = τ i :=
  Equiv.Perm.ofSubtype_apply_of_mem (Fin.equivSubtype.permCongr τ) i.isLt

theorem length_visits (k : ℕ) : (visits k).length = k.factorial := by
  induction k with
  | zero => rfl
  | succ k ih => simp [visits, List.length_flatMap, ih, Nat.factorial_succ]

def visit (n : ℕ) (i : Fin n.factorial) : Perm (Fin n) :=
  (onFirst n).symm ⟨(visits n).get (i.cast (length_visits n).symm),
    mem_visits_iff.mp (List.get_mem ..)⟩

theorem getElem?_visits (n : ℕ) (i : Fin n.factorial) :
    (visits n)[i.val]? = some (onFirst n (visit n i)).1 := by
  simp [visit]

/-- Every permutation is visited at one time and no other. -/
theorem visit_bijective (n : ℕ) : Function.Bijective (visit n) := by
  rw [Fintype.bijective_iff_surjective_and_card]
  refine ⟨fun τ => ?_, by rw [Fintype.card_fin, Fintype.card_perm, Fintype.card_fin]⟩
  obtain ⟨i, bound, found⟩ := List.mem_iff_getElem.mp (mem_visits_iff.mpr (onFirst n τ).2)
  rw [length_visits] at bound
  refine ⟨⟨i, bound⟩, ?_⟩
  rw [visit, Equiv.symm_apply_eq]
  exact Subtype.ext found

end Positions

open Positions

variable {α : Type} {items : List α}

/-- The list with the item at position `τ j` of `items` at each position `j`. -/
def permuted (items : List α) (τ : Equiv.Perm (Fin items.length)) : List α :=
  List.ofFn fun j => items.get (τ j)

theorem permuted_eq_arranged (items : List α) (τ : Equiv.Perm (Fin items.length)) :
    permuted items τ = arranged items (onFirst items.length τ).1 := by
  refine eq_arranged (onFirst items.length τ).2 fun i => ?_
  by_cases inside : i < items.length
  · have moved := onFirst_apply τ ⟨i, inside⟩
    simp only at moved
    simp [permuted, inside, moved]
  · have fixed := mem_below.mp (onFirst items.length τ).2 i (Nat.le_of_not_lt inside)
    simp [permuted, inside, fixed]

theorem permuted_injective (distinct : items.Nodup) : Function.Injective (permuted items) := by
  intro τ τ' same
  apply Equiv.ext
  intro j
  exact List.nodup_iff_injective_get.mp distinct (congrFun (List.ofFn_injective same) j)

/-- The arrangements of a list, numbered by the permutations of its positions. -/
theorem arrangements_eq_ofFn (inhabited : items ≠ []) :
    arrangements items = List.ofFn fun i => permuted items (visit items.length i) := by
  rw [Sweep.arrangements_eq inhabited]
  apply List.ext_getElem?
  intro i
  by_cases inside : i < items.length.factorial
  · have visited := getElem?_visits items.length ⟨i, inside⟩
    simp only at visited
    simp [visited, inside, permuted_eq_arranged]
  · simp [length_visits, inside]

theorem count_ofFn {β : Type} [BEq β] [LawfulBEq β] [DecidableEq β] {n : ℕ} (f : Fin n → β)
    (b : β) : (List.ofFn f).count b = (Finset.univ.filter fun i => f i = b).card := by
  rw [List.ofFn_eq_map, List.count, List.countP_map, List.countP_eq_length_filter]
  have same : (List.finRange n).filter ((· == b) ∘ f) =
      (List.finRange n).filter fun i => decide (f i = b) := by
    apply List.filter_congr
    intro i _
    exact beq_eq_decide (f i) b
  exact congrArg List.length same

/-- An arrangement comes up once for each permutation of the positions that gives it. -/
theorem count_arrangements [DecidableEq α] (inhabited : items ≠ []) (order : List α) :
    (arrangements items).count order =
      (Finset.univ.filter fun τ => permuted items τ = order).card := by
  rw [arrangements_eq_ofFn inhabited, count_ofFn]
  exact Finset.card_bijective (visit items.length) (visit_bijective items.length) (by simp)

/-- There are `n!` arrangements of `n` items, the first being the items as they are, and the
arrangement at each place is given by a permutation of the positions that is used nowhere else.
Every order of the items occurs, as often as there are permutations that give it, and so once if the
items are distinct. -/
theorem arrangements_each_once [DecidableEq α] (items : List α) (inhabited : items ≠ []) :
    ∃ σ : Fin items.length.factorial → Equiv.Perm (Fin items.length),
      Function.Bijective σ ∧
      (arrangements items).length = items.length.factorial ∧
      (arrangements items).head? = some items ∧
      (∀ i, (arrangements items)[i.val]? = some (permuted items (σ i))) ∧
      (∀ order, order ∈ arrangements items ↔ order.Perm items) ∧
      (items.Nodup → (arrangements items).Nodup) ∧
      ∀ order, (arrangements items).count order =
        (Finset.univ.filter fun τ => permuted items τ = order).card := by
  have listed := arrangements_eq_ofFn inhabited
  refine ⟨visit items.length, visit_bijective items.length, ?_, ?_, fun i => ?_,
    fun order => mem_arrangements_iff inhabited, fun distinct => ?_, count_arrangements inhabited⟩
  · rw [listed, List.length_ofFn]
  · simp [arrangements, inhabited]
  · simp [listed]
  · rw [listed, List.nodup_ofFn]
    exact (permuted_injective distinct).comp (visit_bijective items.length).injective

/-- Two equal items among three: six arrangements, in which each order occurs twice. Three distinct
ones: no order twice. -/
theorem arrangements_each_once_pair :
    let items : List Nat := [7, 7, 8]
    let distinct : List Nat := [7, 8, 9]
    items ≠ [] ∧ (arrangements items).length = 6 ∧ (arrangements items).head? = some items ∧
      [7, 8, 7] ∈ arrangements items ∧ (arrangements items).count [7, 8, 7] = 2 ∧
      distinct.Nodup ∧ (arrangements distinct).Nodup := by
  intro items distinct
  have inhabited : items ≠ [] := by decide
  have nodup : distinct.Nodup := by decide
  obtain ⟨σ, -, length, first, -, orders, -, count⟩ := arrangements_each_once items inhabited
  obtain ⟨σ', -, -, -, -, -, apart, -⟩ := arrangements_each_once distinct (by decide)
  exact ⟨inhabited, length, first, (orders _).mpr (.cons 7 (.swap 7 8 [])),
    (count [7, 8, 7]).trans (by decide +kernel), nodup, apart nodup⟩

end TapeMachine
