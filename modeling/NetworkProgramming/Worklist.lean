import Mathlib.Logic.Hydra
import Mathlib.Order.WellFounded

/-!
# Worklists which empty themselves

A system holds a multiset of pending tasks.  A step takes one of them and may
add any number of new ones.  No run goes on forever when each step lowers a
weight of the state or else leaves the weight and all ranks alone and adds
only tasks of smaller rank than the one it took.
-/

namespace Worklist

variable {State Task Weight Rank : Type*} [LT Weight] [LT Rank]

inductive Progress (weight : State → Weight) (rank : State → Task → Rank)
    (pending : State → Multiset Task) (state next : State) : Prop
  | lighter (hweight : weight next < weight state)
  | replaces {task : Task} {rest new : Multiset Task}
      (hweight : weight next = weight state)
      (hrank : ∀ other, rank next other = rank state other)
      (htask : pending state = task ::ₘ rest)
      (hnext : pending next = rest + new)
      (hsmaller : ∀ other ∈ new, rank state other < rank state task)

variable {weight : State → Weight} {rank : State → Task → Rank}
variable {pending : State → Multiset Task}

/-- The order which every step descends. -/
def Below (next state : Weight × Multiset Rank) : Prop :=
  Prod.Lex (· < ·) (Relation.CutExpand (· < ·)) next state

theorem Progress.below
    {state next : State} (hprogress : Progress weight rank pending state next) :
    Below (weight next, (pending next).map (rank next))
      (weight state, (pending state).map (rank state)) := by
  cases hprogress with
  | lighter hweight => exact .left _ _ hweight
  | @replaces task rest new hweight hrank htask hnext hsmaller =>
      rw [hweight, hnext, htask, funext hrank]
      apply Prod.Lex.right
      refine ⟨new.map (rank state), rank state task, ?_, ?_⟩
      · intro value hvalue
        rcases Multiset.mem_map.mp hvalue with ⟨other, hother, rfl⟩
        exact hsmaller other hother
      · rw [Multiset.map_add, Multiset.map_cons, Multiset.cons_add,
          ← Multiset.singleton_add, add_comm]

/-- There is no infinite run. -/
theorem not_forever
    [WellFoundedLT Weight] [WellFoundedLT Rank] (run : ℕ → State) :
    ¬ ∀ n, Progress weight rank pending (run n) (run (n + 1)) := by
  intro hrun
  have hwell : WellFounded
      (Below : Weight × Multiset Rank → Weight × Multiset Rank → Prop) :=
    WellFounded.prod_lex wellFounded_lt wellFounded_lt.cutExpand
  have hinstance : IsWellFounded _ Below := ⟨hwell⟩
  rcases WellFounded.not_rel_apply_succ (r := Below) fun n =>
    (weight (run n), (pending (run n)).map (rank (run n))) with ⟨n, hn⟩
  exact hn (hrun n).below

end Worklist
