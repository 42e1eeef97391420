import NetworkProgramming.TransferServerStep

/-!
# The alarm and its wait

`receive_ack` arms the interval timer once, before its loop.  Behind the loop
it clears its own `struct itimerval` but does not pass it to `setitimer`, and
the fast retransmit returns without even that.  So the timer is off outside
the loop only when it was the timer that ended the wait; otherwise it may
fire there, and the handler jumps into a call which has returned.
-/

namespace NetworkProgramming.Transfer

/-- `stray` says that the alarm fired outside the loop. -/
structure AlarmRun where
  server : Server
  armed : Bool
  stray : Bool
  deriving DecidableEq

/-- `setitimer` with whole seconds: zero disarms the timer, and a negative
value is an error. -/
def setitimer (armed : Bool) (tvSec : ℤ) : Bool :=
  if tvSec < 0 then armed else decide (tvSec ≠ 0)

/-- Control is in `send_file_data`, or has left it. -/
def AlarmRun.outside (run : AlarmRun) : Bool :=
  match run.server.point with
  | .sending _ _ _ => true
  | .waiting _ => false
  | .returned => true
  | .gaveUp => false

/-- A timeout is the alarm; after a stray one nothing is known. -/
def AlarmRun.step (words : List String) (run : AlarmRun) :
    ServerEvent → Option AlarmRun
  | .send tvTs tvInit =>
      if run.stray then none
      else (run.server.next words (.send tvTs tvInit)).map fun server =>
        { run with
          server := server
          armed :=
            match server.point.wait? with
            | some wait =>
                setitimer run.armed (wait.alarmMiliSecs.tdiv 1000)
            | none => run.armed }
  | .receive ack tv =>
      if run.stray then none
      else (run.server.next words (.receive ack tv)).map fun server =>
        { run with server := server }
  | .timeout =>
      if run.stray || !run.armed then none
      else if run.outside then
        some { run with armed := false, stray := true }
      else (run.server.next words .timeout).map fun server =>
        { run with server := server, armed := false }

def AlarmRun.Initial (run : AlarmRun) : Prop :=
  ∃ server : Server, server.Initial ∧ run = ⟨server, false, false⟩

/-- Outside the loop the timer is off. -/
def AlarmRun.Quiet (run : AlarmRun) : Prop :=
  run.outside = true → run.armed = false

/-- The acknowledgement makes `receive_ack` return. -/
def Server.Leaves (server : Server) (wait : AckWait) (ack : Ack) : Prop :=
  server.config.PastLast ack.seq ∨
    (ack.seq : ℤ) = wait.expectedSeqNum ∨
    (wait.count ack).fastRetransmit = 3 ∧
      server.config.rttinfo.rttNrexmt < rttMaxnrexmt

instance (server : Server) (wait : AckWait) (ack : Ack) :
    Decidable (server.Leaves wait ack) :=
  inferInstanceAs (Decidable (_ ∨ _ ∨ _ ∧ _))

/-- A wait is not ended by an acknowledgement while its alarm is pending. -/
def EndsByAlarm (run : AlarmRun) : ServerEvent → Prop
  | .send _ _ => True
  | .receive ack _ => ∀ wait ∈ run.server.point.wait?,
      run.server.Leaves wait ack → run.armed = false
  | .timeout => True

instance (run : AlarmRun) (event : ServerEvent) :
    Decidable (EndsByAlarm run event) :=
  match event with
  | .send _ _ => inferInstanceAs (Decidable True)
  | .receive _ _ =>
      inferInstanceAs (Decidable (∀ wait ∈ run.server.point.wait?, _))
  | .timeout => inferInstanceAs (Decidable True)

/-! ## Where an acknowledgement leads -/

theorem AlarmRun.outside_receiveAck_iff
    {server : Server} (hserver : server.Numbered) (wait : AckWait)
    (ack : Ack) (tv : Timeval) (armed stray : Bool) :
    AlarmRun.outside ⟨server.receiveAck wait ack tv, armed, stray⟩ = true ↔
      server.Leaves wait ack := by
  have hcases := server.receiveAck_cases wait ack tv
  rw [ThConfig.ackPastLast_iff hserver.last_ge] at hcases
  rcases hcases with
    ⟨hlast, heq⟩ | ⟨_, hexpected, heq⟩ | ⟨hlast, hother, hfast, heq⟩ |
      ⟨hlast, hother, hslow, heq⟩
  · rw [heq]
    exact iff_of_true rfl (.inl hlast)
  · rw [heq]
    exact iff_of_true rfl (.inr (.inl hexpected))
  · rw [heq]
    rcases Server.ackTimeout_cases { server with
        config := server.config.heard ack } (wait.count ack) with
      ⟨hpast, _⟩ | ⟨_, hmany, hup⟩ | ⟨_, hfew, hback⟩
    · rw [wait.count_prevSeqNum] at hpast
      exact absurd hpast hlast
    · rw [hup]
      refine iff_of_false (by simp [AlarmRun.outside]) ?_
      rintro (hleaves | hleaves | hleaves)
      · exact hlast hleaves
      · exact hother hleaves
      · exact absurd hleaves.2 (not_lt.mpr hmany)
    · rw [hback]
      exact iff_of_true rfl (.inr (.inr ⟨hfast, hfew⟩))
  · rw [heq]
    refine iff_of_false (by simp [AlarmRun.outside]) ?_
    rintro (hleaves | hleaves | hleaves)
    · exact hlast hleaves
    · exact hother hleaves
    · exact hslow hleaves.1

/-! ## Steps and runs -/

theorem AlarmRun.Quiet.send
    {words : List String} {run next : AlarmRun} {tvTs tvInit : Timeval}
    (hquiet : run.Quiet)
    (hstep : run.step words (.send tvTs tvInit) = some next) :
    next.Quiet := by
  simp only [AlarmRun.step] at hstep
  split at hstep
  next => cases hstep
  next =>
    simp only [Option.map_eq_some_iff] at hstep
    rcases hstep with ⟨server, hserver, rfl⟩
    have hbefore : run.armed = false := by
      apply hquiet
      cases Server.moves_of_next hserver with
      | packet hpoint _ _ => simp [AlarmRun.outside, hpoint]
      | burstEnd hpoint _ => simp [AlarmRun.outside, hpoint]
    intro houtside
    have hnone : server.point.wait? = none := by
      cases hpoint : server.point with
      | waiting wait => simp [AlarmRun.outside, hpoint] at houtside
      | sending packetCount cwnd rwnd => rfl
      | returned => rfl
      | gaveUp => rfl
    simp only [hnone]
    exact hbefore

theorem AlarmRun.quiet_receive_iff
    {words : List String} {run next : AlarmRun} {ack : Ack} {tv : Timeval}
    (hnumbered : run.server.Numbered)
    (hstep : run.step words (.receive ack tv) = some next) :
    next.Quiet ↔ EndsByAlarm run (.receive ack tv) := by
  simp only [AlarmRun.step] at hstep
  split at hstep
  next => cases hstep
  next =>
    simp only [Option.map_eq_some_iff] at hstep
    rcases hstep with ⟨server, hserver, rfl⟩
    cases Server.moves_of_next hserver with
    | @receive _ _ wait hpoint =>
        unfold AlarmRun.Quiet EndsByAlarm
        rw [AlarmRun.outside_receiveAck_iff hnumbered]
        constructor
        · intro hquiet other hother hleaves
          rw [ServerPoint.mem_wait?_iff, hpoint] at hother
          cases hother
          exact hquiet hleaves
        · intro hends hleaves
          exact hends wait (ServerPoint.mem_wait?_iff.mpr hpoint) hleaves

theorem AlarmRun.Quiet.timeout
    {words : List String} {run next : AlarmRun} (hquiet : run.Quiet)
    (hstep : run.step words .timeout = some next) :
    next.armed = false ∧ next.stray = run.stray := by
  simp only [AlarmRun.step] at hstep
  split at hstep
  next => cases hstep
  next harmed =>
    split at hstep
    next houtside =>
      simp [hquiet houtside] at harmed
    next =>
      simp only [Option.map_eq_some_iff] at hstep
      rcases hstep with ⟨server, _, rfl⟩
      exact ⟨rfl, rfl⟩

theorem AlarmRun.Quiet.step_iff
    {words : List String} {run next : AlarmRun} {event : ServerEvent}
    (hquiet : run.Quiet) (hnumbered : run.server.Numbered)
    (hstep : run.step words event = some next) :
    next.Quiet ↔ EndsByAlarm run event := by
  cases event with
  | send tvTs tvInit => exact iff_of_true (hquiet.send hstep) trivial
  | receive ack tv => exact AlarmRun.quiet_receive_iff hnumbered hstep
  | timeout =>
      exact iff_of_true (fun _ => (hquiet.timeout hstep).1) trivial

theorem AlarmRun.Quiet.stray
    {words : List String} {run next : AlarmRun} {event : ServerEvent}
    (hquiet : run.Quiet) (hstep : run.step words event = some next) :
    next.stray = run.stray := by
  cases event with
  | send tvTs tvInit =>
      simp only [AlarmRun.step] at hstep
      split at hstep
      next => cases hstep
      next =>
        simp only [Option.map_eq_some_iff] at hstep
        rcases hstep with ⟨server, _, rfl⟩
        rfl
  | receive ack tv =>
      simp only [AlarmRun.step] at hstep
      split at hstep
      next => cases hstep
      next =>
        simp only [Option.map_eq_some_iff] at hstep
        rcases hstep with ⟨server, _, rfl⟩
        rfl
  | timeout => exact (hquiet.timeout hstep).2

theorem AlarmRun.regular_step
    {words : List String} {run next : AlarmRun} {event : ServerEvent}
    (hregular : run.server.Regular)
    (hstep : run.step words event = some next) :
    next.server.Regular := by
  cases event with
  | send tvTs tvInit =>
      simp only [AlarmRun.step, Option.ite_none_left_eq_some,
        Option.map_eq_some_iff] at hstep
      rcases hstep with ⟨_, server, hserver, rfl⟩
      exact hregular.next hserver
  | receive ack tv =>
      simp only [AlarmRun.step, Option.ite_none_left_eq_some,
        Option.map_eq_some_iff] at hstep
      rcases hstep with ⟨_, server, hserver, rfl⟩
      exact hregular.next hserver
  | timeout =>
      simp only [AlarmRun.step, Option.ite_none_left_eq_some] at hstep
      rcases hstep with ⟨_, hstep⟩
      split at hstep
      next =>
        cases hstep
        exact hregular
      next =>
        simp only [Option.map_eq_some_iff] at hstep
        rcases hstep with ⟨server, hserver, rfl⟩
        exact hregular.next hserver

/-- The alarm fires only inside its wait, and the next event keeps it so
exactly when it is not an acknowledgement which ends a wait with the alarm
pending. -/
theorem alarm_insideWait
    {words : List String} {run : AlarmRun}
    (hreach : Transition.Reachable (AlarmRun.step words) EndsByAlarm
      AlarmRun.Initial run) :
    run.stray = false ∧ run.Quiet ∧
      ∀ event next, run.step words event = some next →
        (next.Quiet ↔ EndsByAlarm run event) := by
  have hinv : run.stray = false ∧ run.Quiet ∧ run.server.Regular := by
    refine hreach.invariant
      (fun run => run.stray = false ∧ run.Quiet ∧ run.server.Regular)
      ?_ ?_
    · rintro start ⟨server, hinit, rfl⟩
      exact ⟨rfl, fun _ => rfl, hinit.regular⟩
    · rintro run event next ⟨hstray, hquiet, hregular⟩ hends hstep
      exact ⟨(hquiet.stray hstep).trans hstray,
        (hquiet.step_iff hregular.numbered hstep).mpr hends,
        AlarmRun.regular_step hregular hstep⟩
  refine ⟨hinv.1, hinv.2.1, fun event next hstep => ?_⟩
  exact hinv.2.1.step_iff hinv.2.2.numbered hstep

/-! ## One wait -/

theorem freshAlarm_initial :
    AlarmRun.Initial ⟨freshServer 1, false, false⟩ :=
  ⟨_, freshServer_initial 1, rfl⟩

/-- After a timeout the timer is off. -/
theorem alarm_insideWait_timeout :
    ∃ run, Transition.Reachable (AlarmRun.step ["a", "b"]) EndsByAlarm
        AlarmRun.Initial run ∧
      run.outside = true ∧ run.armed = false := by
  obtain ⟨run, hreach, htest⟩ :=
    Transition.exists_reachable_of_replay (AlarmRun.step ["a", "b"])
      EndsByAlarm freshAlarm_initial
      [.send midnight midnight, .send midnight midnight, .timeout]
      (fun run => run.outside) (by decide +kernel)
  exact ⟨run, hreach, htest, (alarm_insideWait hreach).2.1 htest⟩

/-- After the expected acknowledgement it is still armed, and when it fires
the handler jumps into a call which has returned. -/
theorem alarm_outsideWait :
    ∃ run next, Transition.Reachable (AlarmRun.step ["a", "b"])
        Transition.Unrestricted AlarmRun.Initial run ∧
      run.outside = true ∧ run.armed = true ∧
      run.step ["a", "b"] .timeout = some next ∧ next.stray = true := by
  obtain ⟨run, hreach, htest⟩ :=
    Transition.exists_reachable_of_replay (AlarmRun.step ["a", "b"])
      Transition.Unrestricted freshAlarm_initial
      [.send midnight midnight, .send midnight midnight,
        .receive ⟨1, 0, 1⟩ midnight]
      (fun run => run.outside && run.armed && !run.stray)
      (by decide +kernel)
  simp only [Bool.and_eq_true, Bool.not_eq_true'] at htest
  rcases htest with ⟨⟨houtside, harmed⟩, hstray⟩
  refine ⟨run, { run with armed := false, stray := true }, hreach, houtside,
    harmed, ?_, rfl⟩
  simp [AlarmRun.step, houtside, harmed, hstray]

end NetworkProgramming.Transfer
