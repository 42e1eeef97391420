import Mathlib.Algebra.BigOperators.Group.Finset.Basic
import Mathlib.Algebra.BigOperators.Group.Finset.Piecewise
import Mathlib.Data.Fintype.Card

/-!
# A fixed array of slots used as a multiset

Each slot holds a value or is free, and any slot may be freed again.  What
counts is which values the slots hold together.
-/

namespace SlotPool

variable {Index Value : Type*} [Fintype Index]

/-- The values which the slots hold, each as often as it is held. -/
def contents (pool : Index → Option Value) : Multiset Value :=
  ∑ i, (pool i).elim 0 fun value => {value}

theorem contents_fill
    [DecidableEq Index] {pool : Index → Option Value} {i : Index}
    (hfree : pool i = none) (value : Value) :
    contents (Function.update pool i (some value)) =
      value ::ₘ contents pool := by
  have hrest : ∑ j ∈ Finset.univ.erase i,
      (Function.update pool i (some value) j).elim (0 : Multiset Value)
        (fun value => {value}) =
      ∑ j ∈ Finset.univ.erase i,
        (pool j).elim (0 : Multiset Value) fun value => {value} := by
    apply Finset.sum_congr rfl
    intro j hj
    rw [Function.update_of_ne (Finset.ne_of_mem_erase hj)]
  rw [contents, contents, ← Finset.add_sum_erase _ _ (Finset.mem_univ i),
    ← Finset.add_sum_erase _ _ (Finset.mem_univ i), hrest,
    Function.update_self, hfree]
  simp

theorem contents_free
    [DecidableEq Index] {pool : Index → Option Value} {i : Index}
    {value : Value} (hheld : pool i = some value) :
    value ::ₘ contents (Function.update pool i none) = contents pool := by
  have hfilled := contents_fill
    (Function.update_self i (none : Option Value) pool) value
  rw [Function.update_idem, ← hheld, Function.update_eq_self] at hfilled
  exact hfilled.symm

theorem mem_contents_iff (pool : Index → Option Value) (value : Value) :
    value ∈ contents pool ↔ ∃ i, pool i = some value := by
  simp only [contents, Multiset.mem_sum, Finset.mem_univ, true_and]
  refine exists_congr fun i => ?_
  cases pool i with
  | none => simp
  | some held => simp [eq_comm]

theorem card_contents (pool : Index → Option Value) :
    (contents pool).card =
      (Finset.univ.filter fun i => (pool i).isSome = true).card := by
  rw [contents, Multiset.card_sum, Finset.card_filter]
  apply Finset.sum_congr rfl
  intro i _
  cases pool i <;> simp

/-- All slots are held exactly when there are as many values as slots. -/
theorem exists_free_iff (pool : Index → Option Value) :
    (∃ i, pool i = none) ↔ (contents pool).card < Fintype.card Index := by
  rw [card_contents]
  constructor
  · rintro ⟨i, hi⟩
    refine Finset.card_lt_univ_of_notMem (x := i) ?_
    simp [hi]
  · intro hlt
    by_contra hfull
    have hall : Finset.univ.filter (fun i => (pool i).isSome = true) =
        Finset.univ := by
      apply Finset.filter_true_of_mem
      intro i _
      rw [Option.isSome_iff_ne_none]
      exact fun hnone => hfull ⟨i, hnone⟩
    rw [hall, Finset.card_univ] at hlt
    exact lt_irrefl _ hlt

end SlotPool
