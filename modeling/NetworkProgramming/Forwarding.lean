import Mathlib.Data.List.Chain
import Mathlib.Logic.Relation
import Mathlib.Order.Lattice.Nat
import Mathlib.Tactic.Common

/-!
# Following next hops to a target

Each element has at most one next hop, and a target has none.  An element
reaches a target when following next hops ends at one, and then it does so
after a fixed number of hops.  This number falls by one with each hop, so no
walk from such an element returns to where it was before.
-/

namespace Forwarding

variable {α : Type*}

/-- Following `k` next hops leads to a target. -/
inductive ReachesIn (next : α → α → Prop) (target : α → Prop) :
    ℕ → α → Prop
  | target {a : α} : target a → ReachesIn next target 0 a
  | hop {k : ℕ} {a b : α} : next a b → ReachesIn next target k b →
      ReachesIn next target (k + 1) a

def Reaches (next : α → α → Prop) (target : α → Prop) (a : α) : Prop :=
  ∃ k, ReachesIn next target k a

variable {next wider : α → α → Prop} {target : α → Prop}

theorem Reaches.of_target {a : α} (ha : target a) :
    Reaches next target a :=
  ⟨0, .target ha⟩

theorem Reaches.of_hop
    {a b : α} (hnext : next a b) (hb : Reaches next target b) :
    Reaches next target a := by
  obtain ⟨k, hk⟩ := hb
  exact ⟨k + 1, .hop hnext hk⟩

theorem ReachesIn.mono
    {k : ℕ} {a : α} (hreaches : ReachesIn next target k a)
    (hwider : ∀ a b, next a b → wider a b) :
    ReachesIn wider target k a := by
  induction hreaches with
  | target ha => exact .target ha
  | hop hnext _ ih => exact .hop (hwider _ _ hnext) ih

theorem Reaches.mono
    {a : α} (hreaches : Reaches next target a)
    (hwider : ∀ a b, next a b → wider a b) :
    Reaches wider target a := by
  obtain ⟨k, hk⟩ := hreaches
  exact ⟨k, hk.mono hwider⟩

/-! ## Deterministic next hops

`wider` is the relation which is followed.  It may have hops which `next`
does not have, but where `next` has a hop, `wider` has no other. -/

section Deterministic

variable (hdet : ∀ a b c, next a b → wider a c → b = c)
variable (hfinal : ∀ a b, target a → ¬ wider a b)

include hdet hfinal

theorem ReachesIn.next_hop
    {k : ℕ} {a b : α} (hreaches : ReachesIn next target k a)
    (hnext : wider a b) :
    ∃ j, k = j + 1 ∧ ReachesIn next target j b := by
  cases hreaches with
  | target ha => exact absurd hnext (hfinal a b ha)
  | @hop j _ c hc hrest =>
      have hcb := hdet a c b hc hnext
      subst hcb
      exact ⟨j, rfl, hrest⟩

theorem ReachesIn.transGen
    {k : ℕ} {a b : α} (hreaches : ReachesIn next target k a)
    (hwalk : Relation.TransGen wider a b) :
    ∃ j < k, ReachesIn next target j b := by
  induction hwalk with
  | single hnext =>
      obtain ⟨j, hkj, hj⟩ := hreaches.next_hop hdet hfinal hnext
      exact ⟨j, by omega, hj⟩
  | tail _ hnext ih =>
      obtain ⟨i, hik, hi⟩ := ih
      obtain ⟨j, hij, hj⟩ := hi.next_hop hdet hfinal hnext
      exact ⟨j, by omega, hj⟩

theorem ReachesIn.not_transGen_self
    {k : ℕ} {a : α} (hreaches : ReachesIn next target k a) :
    ¬ Relation.TransGen wider a a := by
  intro hcycle
  induction k using Nat.strong_induction_on with
  | h k ih =>
      obtain ⟨j, hjk, hj⟩ := hreaches.transGen hdet hfinal hcycle
      exact ih j hjk hj

theorem Reaches.not_transGen_self
    {a : α} (hreaches : Reaches next target a) :
    ¬ Relation.TransGen wider a a := by
  obtain ⟨k, hk⟩ := hreaches
  exact hk.not_transGen_self hdet hfinal

end Deterministic

theorem ReachesIn.unique
    (hdet : ∀ a b c, next a b → next a c → b = c)
    (hfinal : ∀ a b, target a → ¬ next a b)
    {j k : ℕ} {a : α} (hj : ReachesIn next target j a)
    (hk : ReachesIn next target k a) :
    j = k := by
  induction hk generalizing j with
  | target ha =>
      cases hj with
      | target => rfl
      | hop hnext _ => exact absurd hnext (hfinal _ _ ha)
  | hop hnext _ ih =>
      obtain ⟨i, rfl, hi⟩ := hj.next_hop hdet hfinal hnext
      rw [ih hi]

/-- The number of hops to a target. -/
noncomputable def hops (next : α → α → Prop) (target : α → Prop) (a : α) :
    ℕ :=
  sInf {k | ReachesIn next target k a}

theorem hops_lt
    (hdet : ∀ a b c, next a b → next a c → b = c)
    (hfinal : ∀ a b, target a → ¬ next a b)
    {a b : α} (hreaches : Reaches next target a) (hnext : next a b) :
    hops next target b < hops next target a := by
  have hleast : ReachesIn next target (hops next target a) a :=
    Nat.sInf_mem hreaches
  obtain ⟨j, hj, hb⟩ := hleast.next_hop hdet hfinal hnext
  have hle : hops next target b ≤ j := Nat.sInf_le hb
  omega

/-- A walk in a relation without cycles visits nothing twice. -/
theorem nodup_of_isChain
    (hacyclic : ∀ a, ¬ Relation.TransGen next a a)
    {walk : List α} (hchain : walk.IsChain next) :
    walk.Nodup := by
  have htrans : walk.Pairwise (Relation.TransGen next) :=
    List.isChain_iff_pairwise.mp
      (hchain.imp fun _ _ hnext => Relation.TransGen.single hnext)
  refine htrans.imp ?_
  intro a b hab heq
  subst heq
  exact hacyclic a hab

end Forwarding
