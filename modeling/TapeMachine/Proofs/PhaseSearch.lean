import TapeMachine.Amplifiers
import TapeMachine.Proofs.Rearrangement

/-! The search tries every rearrangement of the phases and keeps the first one with the greatest
signal. So its signal is the same in whatever order the phases are given. -/

namespace TapeMachine

namespace Agenda

/-- A verdict does not change with the number of turns allowed. -/
theorem go_add {fuel : Nat} {a : Agenda} (ended : (go fuel a).2 ≠ .unfinished) (more : Nat) :
    go (fuel + more) a = go fuel a := by
  induction fuel generalizing a with
  | zero => exact absurd rfl ended
  | succ fuel ih =>
    rw [Nat.succ_add]
    simp only [go] at ended ⊢
    split at ended
    · rfl
    · exact ih ended

end Agenda

namespace Circuit

theorem run_add {fuel : Nat} {c : Circuit} (ended : (c.run fuel).2 ≠ .unfinished) (more : Nat) :
    c.run (fuel + more) = c.run fuel := by
  rw [run, Agenda.go_add ended, run]

theorem signal_add {fuel : Nat} {c : Circuit} (ended : (c.signal fuel).2 ≠ .unfinished)
    (more : Nat) : c.signal (fuel + more) = c.signal fuel := by
  by_cases empty : c.nodes = []
  · simp [signal, empty]
  · have ran : (c.run fuel).2 ≠ .unfinished := by
      intro unfinished
      apply ended
      rw [signal, if_neg empty, finish, ← Prod.eta (c.run fuel), unfinished]
    rw [signal, finish, run_add ran, signal, finish]

end Circuit

namespace Amplifiers

variable {program : Program} {topology : Topology}

/-- `order` is the first of `orders` with the greatest value `s`, and all have a value. -/
def Leads (value : List Cell → Cell → Prop) (orders : List (List Cell)) (s : Cell)
    (order : List Cell) : Prop :=
  ∃ before after, orders = before ++ order :: after ∧ value order s ∧
    (∀ q ∈ before, ∃ t < s, value q t) ∧ ∀ q ∈ after, ∃ t ≤ s, value q t

theorem leads_cons_iff {value : List Cell → Cell → Prop} {q order : List Cell} {s : Cell}
    {rest : List (List Cell)} :
    Leads value (q :: rest) s order ↔
      (q = order ∧ value q s ∧ ∀ p ∈ rest, ∃ t ≤ s, value p t) ∨
      ((∃ t < s, value q t) ∧ Leads value rest s order) := by
  constructor
  · rintro ⟨before, after, split, attained, less, most⟩
    cases before with
    | nil =>
      obtain ⟨rfl, rfl⟩ := List.cons.inj split
      exact .inl ⟨rfl, attained, most⟩
    | cons p before =>
      obtain ⟨rfl, rfl⟩ := List.cons.inj split
      obtain ⟨first, less⟩ := List.forall_mem_cons.mp less
      exact .inr ⟨first, before, after, rfl, attained, less, most⟩
  · rintro (⟨rfl, attained, most⟩ | ⟨first, before, after, rfl, attained, less, most⟩)
    · exact ⟨[], rest, rfl, attained, by simp, most⟩
    · exact ⟨q :: before, after, rfl, attained, List.forall_mem_cons.mpr ⟨first, less⟩, most⟩

/-- What the search comes to from the best signal so far: it keeps it, or a later order leads. -/
theorem search_some_iff {trial : List Cell → Outcome Cell} {b s : Cell} {chosen order : List Cell}
    {orders : List (List Cell)} :
    search trial (some (b, chosen)) orders = .done (s, order) ↔
      (b = s ∧ chosen = order ∧ ∀ q ∈ orders, ∃ t ≤ s, trial q = .done t) ∨
      (b < s ∧ Leads (trial · = .done ·) orders s order) := by
  induction orders generalizing b chosen with
  | nil => simp [search, Leads]
  | cons q rest ih =>
    rw [search, leads_cons_iff, List.forall_mem_cons]
    cases tried : trial q with
    | done value =>
      simp only [better]
      split
      next greater =>
        rw [ih]
        simp only [Outcome.done.injEq, exists_eq_right']
        grind
      next least =>
        rw [ih]
        simp only [Outcome.done.injEq, exists_eq_right']
        grind
    | failed error => simp
    | deadlock => simp
    | unfinished => simp

theorem search_none_iff (trial : List Cell → Outcome Cell) (orders : List (List Cell)) {s : Cell}
    {order : List Cell} :
    search trial none orders = .done (s, order) ↔ Leads (trial · = .done ·) orders s order := by
  cases orders with
  | nil => simp [search, Leads]
  | cons q rest =>
    rw [search, leads_cons_iff]
    cases tried : trial q with
    | done value =>
      simp only [better, search_some_iff, Outcome.done.injEq, exists_eq_right']
      grind
    | failed error => simp
    | deadlock => simp
    | unfinished => simp

namespace Leads

variable {value value' : List Cell → Cell → Prop} {orders : List (List Cell)} {s : Cell}
  {order : List Cell}

theorem mem (leads : Leads value orders s order) : order ∈ orders := by
  obtain ⟨before, after, rfl, -⟩ := leads
  exact List.mem_append_right before List.mem_cons_self

theorem attained (leads : Leads value orders s order) : value order s := by
  obtain ⟨before, after, -, attained, -⟩ := leads
  exact attained

theorem le (leads : Leads value orders s order) : ∀ q ∈ orders, ∃ t ≤ s, value q t := by
  obtain ⟨before, after, rfl, attained, less, most⟩ := leads
  refine List.forall_mem_append.mpr ⟨fun q member => ?_, List.forall_mem_cons.mpr ⟨?_, most⟩⟩
  · obtain ⟨t, lt, valued⟩ := less q member
    exact ⟨t, Int64.le_of_lt lt, valued⟩
  · exact ⟨s, Int64.le_refl s, attained⟩

theorem imp (leads : Leads value orders s order)
    (imp : ∀ q ∈ orders, ∀ t, value q t → value' q t) : Leads value' orders s order := by
  obtain ⟨before, after, rfl, attained, less, most⟩ := leads
  simp only [List.forall_mem_append, List.forall_mem_cons] at imp
  refine ⟨before, after, rfl, imp.2.1 s attained, fun q member => ?_, fun q member => ?_⟩
  · obtain ⟨t, lt, valued⟩ := less q member
    exact ⟨t, lt, imp.1 q member t valued⟩
  · obtain ⟨t, le, valued⟩ := most q member
    exact ⟨t, le, imp.2.2 q member t valued⟩

end Leads

theorem exists_leads {value : List Cell → Cell → Prop} {orders : List (List Cell)}
    (inhabited : orders ≠ []) (valued : ∀ q ∈ orders, ∃ t, value q t) :
    ∃ s order, Leads value orders s order := by
  induction orders with
  | nil => exact absurd rfl inhabited
  | cons q rest ih =>
    obtain ⟨⟨t, first⟩, others⟩ := List.forall_mem_cons.mp valued
    by_cases empty : rest = []
    · exact ⟨t, q, [], rest, rfl, first, by simp, by simp [empty]⟩
    · obtain ⟨s, order, leads⟩ := ih empty others
      by_cases less : t < s
      · exact ⟨s, order, leads_cons_iff.mpr (.inr ⟨⟨t, less, first⟩, leads⟩)⟩
      · refine ⟨t, q, leads_cons_iff.mpr (.inl ⟨rfl, first, fun p member => ?_⟩)⟩
        obtain ⟨u, le, attained⟩ := leads.le p member
        exact ⟨u, Int64.le_trans le (Int64.not_lt.mp less), attained⟩

/-- Run for long enough, a bank with these phases gives the signal `value`. -/
def Signals (program : Program) (topology : Topology) (phases : List Cell) (value : Cell) : Prop :=
  ∃ fuel, signal fuel program phases topology = .done value

/-- Run for long enough, the search gives the signal `value` with the phases in `order`. -/
def Best (program : Program) (topology : Topology) (phases : List Cell) (value : Cell)
    (order : List Cell) : Prop :=
  ∃ fuel, bestSignal fuel program phases topology = .done (value, order)

theorem signal_add {fuel : Nat} {phases : List Cell} {value : Cell}
    (done : signal fuel program phases topology = .done value) (more : Nat) :
    signal (fuel + more) program phases topology = .done value := by
  unfold signal at done ⊢
  split at done
  · cases done
  next c built =>
    have ended : (c.signal fuel).2 ≠ .unfinished := by
      rw [done]
      simp
    rw [Circuit.signal_add ended, done]

theorem Signals.unique {phases : List Cell} {s t : Cell} (left : Signals program topology phases s)
    (right : Signals program topology phases t) : s = t := by
  obtain ⟨fuel, left⟩ := left
  obtain ⟨fuel', right⟩ := right
  have left := signal_add left fuel'
  rw [Nat.add_comm, signal_add right fuel] at left
  exact Outcome.done.inj left.symm

/-- Finitely many banks that each give a signal in time give theirs all in the same time. -/
theorem exists_common_fuel {orders : List (List Cell)}
    (signals : ∀ q ∈ orders, ∃ t, Signals program topology q t) :
    ∃ fuel, ∀ q ∈ orders, ∀ t, Signals program topology q t →
      signal fuel program q topology = .done t := by
  induction orders with
  | nil => exact ⟨0, by simp⟩
  | cons q rest ih =>
    obtain ⟨⟨s, fuel, first⟩, others⟩ := List.forall_mem_cons.mp signals
    obtain ⟨fuel', later⟩ := ih others
    refine ⟨fuel + fuel', List.forall_mem_cons.mpr ⟨fun t given => ?_, fun p member t given => ?_⟩⟩
    · rw [signal_add first, given.unique ⟨fuel, first⟩]
    · rw [Nat.add_comm, signal_add (later p member t given)]

variable {phases : List Cell} {s : Cell} {order : List Cell}

/-- The search finds the leader of the arrangements. -/
theorem Best.leads (best : Best program topology phases s order) :
    Leads (Signals program topology) (arrangements phases) s order := by
  obtain ⟨fuel, found⟩ := best
  exact ((search_none_iff ..).mp found).imp fun q _ t done => ⟨fuel, done⟩

theorem Leads.best (leads : Leads (Signals program topology) (arrangements phases) s order) :
    Best program topology phases s order := by
  have signals : ∀ q ∈ arrangements phases, ∃ t, Signals program topology q t := by
    intro q member
    obtain ⟨t, -, given⟩ := leads.le q member
    exact ⟨t, given⟩
  obtain ⟨fuel, all⟩ := exists_common_fuel signals
  exact ⟨fuel, (search_none_iff ..).mpr (leads.imp all)⟩

theorem Best.ne_nil (best : Best program topology phases s order) : phases ≠ [] := by
  rintro rfl
  exact absurd best.leads.mem List.not_mem_nil

theorem Best.perm (best : Best program topology phases s order) : order.Perm phases :=
  (mem_arrangements_iff best.ne_nil).mp best.leads.mem

theorem Best.le (best : Best program topology phases s order) {q : List Cell}
    (perm : q.Perm phases) : ∃ t ≤ s, Signals program topology q t :=
  best.leads.le q ((mem_arrangements_iff best.ne_nil).mpr perm)

theorem exists_best (inhabited : phases ≠ [])
    (signals : ∀ q, q.Perm phases → ∃ t, Signals program topology q t) :
    ∃ s order, Best program topology phases s order := by
  have listed : phases ∈ arrangements phases := (mem_arrangements_iff inhabited).mpr .rfl
  obtain ⟨s, order, leads⟩ := exists_leads (List.ne_nil_of_mem listed) fun q member =>
    signals q ((mem_arrangements_iff inhabited).mp member)
  exact ⟨s, order, leads.best⟩

/-- The best signal of some phases is that of any rearrangement of them. -/
theorem Best.of_perm (best : Best program topology phases s order) {phases' : List Cell}
    (perm : phases'.Perm phases) : ∃ order', Best program topology phases' s order' := by
  have inhabited : phases' ≠ [] := by
    rintro rfl
    exact best.ne_nil (List.nil_perm.mp perm)
  have signals : ∀ q, q.Perm phases' → ∃ t, Signals program topology q t := by
    intro q rearranged
    obtain ⟨t, -, given⟩ := best.le (rearranged.trans perm)
    exact ⟨t, given⟩
  obtain ⟨s', order', best'⟩ := exists_best inhabited signals
  -- each of the two orders is among those that the other search has tried
  obtain ⟨t, le, given⟩ := best.le (best'.perm.trans perm)
  obtain ⟨t', le', given'⟩ := best'.le (best.perm.trans perm.symm)
  obtain rfl := given.unique best'.leads.attained
  obtain rfl := given'.unique best.leads.attained
  obtain rfl := Int64.le_antisymm le le'
  exact ⟨order', best'⟩

/-- The search gives the greatest signal over all rearrangements of the phases, with the first
arrangement that attains it. It succeeds if every rearrangement has a signal, and what it gives
does not depend on the order of the phases. -/
theorem bestSignal_optimal (program : Program) (topology : Topology) (phases : List Cell)
    (inhabited : phases ≠ []) :
    (∀ s order, Best program topology phases s order →
      order.Perm phases ∧ Signals program topology order s ∧
      (∀ q, q.Perm phases → ∃ t ≤ s, Signals program topology q t) ∧
      ∃ before after, arrangements phases = before ++ order :: after ∧
        ∀ q ∈ before, ¬Signals program topology q s) ∧
    ((∀ q, q.Perm phases → ∃ t, Signals program topology q t) →
      ∃ s order, Best program topology phases s order) ∧
    ∀ phases', phases'.Perm phases → ∀ s,
      (∃ order, Best program topology phases' s order) ↔
        ∃ order, Best program topology phases s order := by
  refine ⟨fun s order best => ?_, exists_best inhabited, fun phases' perm s => ?_⟩
  · refine ⟨best.perm, best.leads.attained, fun q => best.le, ?_⟩
    obtain ⟨before, after, split, -, less, -⟩ := best.leads
    refine ⟨before, after, split, fun q member same => ?_⟩
    obtain ⟨t, lt, given⟩ := less q member
    rw [given.unique same] at lt
    exact Int64.lt_irrefl lt
  · constructor
    · rintro ⟨order, best⟩
      exact best.of_perm perm.symm
    · rintro ⟨order, best⟩
      exact best.of_perm perm

/-- Three amplifiers that each write ten times the signal plus their phase: the greatest number
with the digits `0`, `1` and `2`. -/
theorem bestSignal_optimal_digits :
    let program : Program := ⟨[3, 15, 3, 16, 1002, 16, 10, 16, 1, 16, 15, 15, 4, 15, 99, 0, 0]⟩
    let phases : List Cell := [0, 1, 2]
    phases ≠ [] ∧ Best program .chain phases 210 [2, 1, 0] ∧
      (∀ q, q.Perm phases → ∃ t ≤ 210, Signals program .chain q t) ∧
      ∃ order, Best program .chain [1, 2, 0] 210 order := by
  intro program phases
  have inhabited : phases ≠ [] := by decide
  have best : Best program .chain phases 210 [2, 1, 0] := ⟨30, by decide +kernel⟩
  have optimal := bestSignal_optimal program .chain phases inhabited
  refine ⟨inhabited, best, (optimal.1 210 [2, 1, 0] best).2.2.1, ?_⟩
  exact (optimal.2.2 [1, 2, 0] (by decide) 210).mpr ⟨[2, 1, 0], best⟩

end Amplifiers

end TapeMachine
