import Mathlib.Logic.Relation
import Mathlib.Logic.Function.Iterate
import Mathlib.Data.List.Basic

/-!
# Runs of a partial step function

A system is a partial function `step`: `step state event = none` means that
the event cannot happen in the state.  A run is a finite sequence of enabled
events, each of which satisfies a side condition `Allowed` in the state in
which it happens.  Safety is proved once per step and lifted to every run by
`Reachable.invariant`; a displayed list of events is turned into a run by
`replay`.
-/

namespace Transition

variable {State Event : Type*}

/-- `Run step Allowed start final`: some sequence of enabled and allowed
events leads from `start` to `final`. -/
inductive Run (step : State → Event → Option State)
    (Allowed : State → Event → Prop) (start : State) : State → Prop
  | refl : Run step Allowed start start
  | tail {state next : State} {event : Event} :
      Run step Allowed start state → Allowed state event →
        step state event = some next → Run step Allowed start next

/-- The states reached from an initial state by a run of allowed events. -/
def Reachable (step : State → Event → Option State)
    (Allowed : State → Event → Prop) (Init : State → Prop)
    (state : State) : Prop :=
  ∃ start, Init start ∧ Run step Allowed start state

/-- The side condition of an unrestricted run. -/
def Unrestricted : State → Event → Prop :=
  fun _ _ => True

instance (state : State) (event : Event) :
    Decidable (Unrestricted state event) :=
  inferInstanceAs (Decidable True)

variable {step : State → Event → Option State}
variable {Allowed Weaker : State → Event → Prop}
variable {Init : State → Prop}

theorem Run.invariant
    {start final : State} (hrun : Run step Allowed start final)
    (Inv : State → Prop) (hstart : Inv start)
    (hstep : ∀ state event next, Inv state → Allowed state event →
      step state event = some next → Inv next) :
    Inv final := by
  induction hrun with
  | refl => exact hstart
  | tail _ hallowed hnext ih => exact hstep _ _ _ ih hallowed hnext

theorem Run.trans
    {start middle final : State}
    (hfirst : Run step Allowed start middle)
    (hsecond : Run step Allowed middle final) :
    Run step Allowed start final := by
  induction hsecond with
  | refl => exact hfirst
  | tail _ hallowed hnext ih => exact .tail ih hallowed hnext

theorem Run.mono
    {start final : State}
    (hrun : Run step Allowed start final)
    (hweaker : ∀ state event, Allowed state event → Weaker state event) :
    Run step Weaker start final := by
  induction hrun with
  | refl => exact .refl
  | tail _ hallowed hnext ih => exact .tail ih (hweaker _ _ hallowed) hnext

theorem Reachable.start
    {state : State} (hinit : Init state) :
    Reachable step Allowed Init state :=
  ⟨state, hinit, .refl⟩

theorem Reachable.tail
    {state next : State} {event : Event}
    (hreach : Reachable step Allowed Init state)
    (hallowed : Allowed state event)
    (hnext : step state event = some next) :
    Reachable step Allowed Init next := by
  obtain ⟨start, hinit, hrun⟩ := hreach
  exact ⟨start, hinit, hrun.tail hallowed hnext⟩

theorem Reachable.mono
    {state : State}
    (hreach : Reachable step Allowed Init state)
    (hweaker : ∀ state event, Allowed state event → Weaker state event) :
    Reachable step Weaker Init state := by
  obtain ⟨start, hinit, hrun⟩ := hreach
  exact ⟨start, hinit, hrun.mono hweaker⟩

theorem Reachable.unrestricted
    {state : State}
    (hreach : Reachable step Allowed Init state) :
    Reachable step Unrestricted Init state :=
  hreach.mono fun _ _ _ => trivial

/-- The induction principle of all safety proofs: an invariant holds
initially and is kept by every allowed step. -/
theorem Reachable.invariant
    {state : State} (hreach : Reachable step Allowed Init state)
    (Inv : State → Prop)
    (hinit : ∀ start, Init start → Inv start)
    (hstep : ∀ state event next, Inv state → Allowed state event →
      step state event = some next → Inv next) :
    Inv state := by
  obtain ⟨start, hstart, hrun⟩ := hreach
  exact hrun.invariant Inv (hinit start hstart) hstep

/-! ## Simulation -/

/-- A relation which another system can keep up carries reachability over to
that system. -/
theorem Reachable.simulation
    {State' Event' : Type*} {step' : State' → Event' → Option State'}
    {Allowed' : State' → Event' → Prop} {Init' : State' → Prop}
    {state : State} (hreach : Reachable step Allowed Init state)
    (Follows : State → State' → Prop)
    (hinit : ∀ start, Init start →
      ∃ start', Init' start' ∧ Follows start start')
    (hstep : ∀ state event next state', Follows state state' →
      Allowed state event → step state event = some next →
      ∃ event' next', Allowed' state' event' ∧
        step' state' event' = some next' ∧ Follows next next') :
    ∃ state', Reachable step' Allowed' Init' state' ∧
      Follows state state' := by
  obtain ⟨start, hstart, hrun⟩ := hreach
  induction hrun with
  | refl =>
      obtain ⟨start', hstart', hfollows⟩ := hinit start hstart
      exact ⟨start', .start hstart', hfollows⟩
  | tail _ hallowed hnext ih =>
      obtain ⟨state', hreach', hfollows⟩ := ih
      obtain ⟨event', next', hallowed', hnext', hfollows'⟩ :=
        hstep _ _ _ _ hfollows hallowed hnext
      exact ⟨next', hreach'.tail hallowed' hnext', hfollows'⟩

/-- A cycle can be followed forever. -/
theorem exists_forever_of_cycle
    {next : State → State → Prop} {start : State}
    (hcycle : Relation.TransGen next start start) :
    ∃ run : ℕ → State, run 0 = start ∧
      ∀ n, next (run n) (run (n + 1)) := by
  have hfollow : ∀ state : {state // Relation.TransGen next state state},
      ∃ after : {state // Relation.TransGen next state state},
        next state.1 after.1 := by
    intro ⟨state, hstate⟩
    obtain ⟨after, hnext, hback⟩ :=
      Relation.TransGen.head'_iff.mp hstate
    exact ⟨⟨after, Relation.TransGen.tail' hback hnext⟩, hnext⟩
  choose after hafter using hfollow
  refine ⟨fun n => (after^[n] ⟨start, hcycle⟩).1, rfl, ?_⟩
  intro n
  dsimp only
  rw [Function.iterate_succ_apply']
  exact hafter _

/-! ## Replaying a displayed list of events -/

/-- Performs the events of a list in order, stopping with `none` at the first
one which is disabled or not allowed. -/
def replay (step : State → Event → Option State)
    (Allowed : State → Event → Prop)
    [∀ state event, Decidable (Allowed state event)] :
    State → List Event → Option State
  | state, [] => some state
  | state, event :: rest =>
      if Allowed state event then
        (step state event).bind fun next => replay step Allowed next rest
      else none

theorem replay_cons
    [∀ state event, Decidable (Allowed state event)]
    {state next : State} {event : Event} {rest : List Event}
    (hallowed : Allowed state event) (hstep : step state event = some next) :
    replay step Allowed state (event :: rest) =
      replay step Allowed next rest := by
  simp only [replay, if_pos hallowed, hstep, Option.bind_some]

theorem run_of_replay
    [∀ state event, Decidable (Allowed state event)]
    {start final : State} {events : List Event}
    (hreplay : replay step Allowed start events = some final) :
    Run step Allowed start final := by
  induction events generalizing start with
  | nil =>
      simp only [replay, Option.some.injEq] at hreplay
      subst hreplay
      exact .refl
  | cons event rest ih =>
      simp only [replay] at hreplay
      split at hreplay
      next hallowed =>
        obtain ⟨next, hnext, hrest⟩ := Option.bind_eq_some_iff.mp hreplay
        exact (Run.refl.tail hallowed hnext).trans (ih hrest)
      next => contradiction

/-- A displayed run which ends in a state satisfying a decidable test. -/
theorem exists_reachable_of_replay
    (step : State → Event → Option State)
    (Allowed : State → Event → Prop)
    [∀ state event, Decidable (Allowed state event)]
    {start : State} (hinit : Init start)
    (events : List Event) (test : State → Bool)
    (hreplay :
      (replay step Allowed start events).map test = some true) :
    ∃ state, Reachable step Allowed Init state ∧ test state = true := by
  obtain ⟨final, hfinal, htest⟩ := Option.map_eq_some_iff.mp hreplay
  exact ⟨final, ⟨start, hinit, run_of_replay hfinal⟩, htest⟩

/-! ## Two runs side by side -/

section Transcript

variable {Output Ending : Type*}
variable {act : State → Event → Option (State × List Output)}
variable {ending : State → Ending}

/-- What the events of a list put out, and how they leave the system; `none`
if one of them is disabled. -/
def transcript (act : State → Event → Option (State × List Output))
    (ending : State → Ending) :
    State → List Event → Option (List Output × Ending)
  | state, [] => some ([], ending state)
  | state, event :: events =>
      (act state event).bind fun next =>
        (transcript act ending next.1 events).map fun rest =>
          (next.2 ++ rest.1, rest.2)

theorem transcript_cons
    {state next : State} {event : Event} {outputs : List Output}
    (hact : act state event = some (next, outputs)) (events : List Event) :
    transcript act ending state (event :: events) =
      (transcript act ending next events).map fun rest =>
        (outputs ++ rest.1, rest.2) := by
  simp only [transcript, hact, Option.bind_some]

/-- States which answer every event with the same output and stay alike
cannot be told apart by any list of events. -/
theorem transcript_eq_of_lockstep
    {Alike : State → State → Prop}
    (hending : ∀ left right, Alike left right → ending left = ending right)
    (hact : ∀ left right event, Alike left right →
      Option.Rel (fun next next' : State × List Output =>
        Alike next.1 next'.1 ∧ next.2 = next'.2)
        (act left event) (act right event))
    {left right : State} (halike : Alike left right)
    (events : List Event) :
    transcript act ending left events =
      transcript act ending right events := by
  induction events generalizing left right with
  | nil =>
      simp only [transcript, hending left right halike]
  | cons event events ih =>
      have hrel := hact left right event halike
      simp only [transcript]
      generalize act left event = next, act right event = next' at hrel ⊢
      cases hrel with
      | none => rfl
      | some hnext =>
          simp only [Option.bind_some, ih hnext.1, hnext.2]

end Transcript

end Transition
