import NetworkProgramming.Transition

/-!
# Runs with a record of their events

A run is carried along with the list of the events which happened in it.  An
event leaves something behind which later events keep; at the end of the run
it holds for every event of the record.  Progress is stated in this way: once
everything which was sent has been received, what the receipt of a message
settles is settled for all messages.
-/

namespace Transition

variable {State Event : Type*}

/-- A state with the events which led to it, the last one first. -/
structure Logged (State Event : Type*) where
  state : State
  log : List Event

/-- `step`, writing down what happens. -/
def logged (step : State → Event → Option State)
    (current : Logged State Event) (event : Event) :
    Option (Logged State Event) :=
  (step current.state event).map fun next => ⟨next, event :: current.log⟩

/-- A start with an empty record. -/
def Logged.Initial (Init : State → Prop) (current : Logged State Event) :
    Prop :=
  Init current.state ∧ current.log = []

/-- The side condition of the state, for a state with its record. -/
def Logged.Permits (Allowed : State → Event → Prop)
    (current : Logged State Event) (event : Event) : Prop :=
  Allowed current.state event

instance (Allowed : State → Event → Prop)
    [∀ state event, Decidable (Allowed state event)]
    (current : Logged State Event) (event : Event) :
    Decidable (current.Permits Allowed event) :=
  inferInstanceAs (Decidable (Allowed _ _))

variable {step : State → Event → Option State}
variable {Allowed : State → Event → Prop} {Init : State → Prop}
variable {current : Logged State Event}

theorem logged_eq_some_iff
    {next : Logged State Event} {event : Event} :
    logged step current event = some next ↔
      step current.state event = some next.state ∧
        next.log = event :: current.log := by
  cases next with
  | mk state log =>
      simp only [logged, Option.map_eq_some_iff, Logged.mk.injEq]
      constructor
      · rintro ⟨after, hstep, rfl, rfl⟩
        exact ⟨hstep, rfl⟩
      · rintro ⟨hstep, rfl⟩
        exact ⟨state, hstep, rfl, rfl⟩

/-- The record does not restrict a run. -/
theorem Reachable.of_logged
    (hreach : Reachable (logged step) (Logged.Permits Allowed)
      (Logged.Initial Init) current) :
    Reachable step Allowed Init current.state := by
  refine hreach.invariant
    (fun reached => Reachable step Allowed Init reached.state) ?_ ?_
  · intro start hstart
    exact .start hstart.1
  · intro before event next hbefore hallowed hnext
    exact hbefore.tail hallowed (logged_eq_some_iff.mp hnext).1

/-- What an event establishes and no later event undoes holds at the end for
every event of the record.  Both may use an invariant of the run. -/
theorem Reachable.settled
    (hreach : Reachable (logged step) (Logged.Permits Allowed)
      (Logged.Initial Init) current)
    (Inv : State → Prop) (Settles : Event → State → Prop)
    (hinit : ∀ start, Init start → Inv start)
    (hinv : ∀ state event next, Inv state → Allowed state event →
      step state event = some next → Inv next)
    (hsettles : ∀ state event next, Inv state → Allowed state event →
      step state event = some next → Settles event next)
    (hkeeps : ∀ state event next earlier, Inv state →
      Allowed state event → step state event = some next →
      Settles earlier state → Settles earlier next) :
    Inv current.state ∧
      ∀ event ∈ current.log, Settles event current.state := by
  refine hreach.invariant
    (fun reached => Inv reached.state ∧
      ∀ event ∈ reached.log, Settles event reached.state) ?_ ?_
  · intro start hstart
    refine ⟨hinit start.state hstart.1, ?_⟩
    rw [hstart.2]
    intro event hevent
    cases hevent
  · rintro before event next ⟨hbefore, hlog⟩ hallowed hnext
    obtain ⟨hstep, hrecord⟩ := logged_eq_some_iff.mp hnext
    refine ⟨hinv _ _ _ hbefore hallowed hstep, ?_⟩
    rw [hrecord]
    intro earlier hearlier
    rcases List.mem_cons.mp hearlier with rfl | hold
    · exact hsettles _ _ _ hbefore hallowed hstep
    · exact hkeeps _ _ _ _ hbefore hallowed hstep (hlog earlier hold)

end Transition
