import NetworkProgramming.TransferServerStep
import Mathlib.Data.Rat.Floor

/-!
# The backoff of the retransmission timeout

`rtt_timeout` doubles the timeout, up to `RTT_RXTMAX`.  The same branch of
`receive_ack` clears `rttinit_ptr`, so the next datagram of a burst calls
`rtt_init` again and the timeout is back at its first value.  Only while the
window is closed, and no burst sends anything, does the doubling last until
the next wait.
-/

namespace NetworkProgramming.Transfer

/-- The server with the number of timeouts since the last acknowledgement and
the alarm of the first of these waits. -/
structure BackoffRun where
  server : Server
  timeouts : ℕ
  first : ℤ
  deriving DecidableEq

def BackoffRun.step (words : List String) (run : BackoffRun) :
    ServerEvent → Option BackoffRun
  | .send tvTs tvInit =>
      (run.server.next words (.send tvTs tvInit)).map fun server =>
        { run with server := server }
  | .receive ack tv =>
      (run.server.next words (.receive ack tv)).map fun server =>
        { run with server := server, timeouts := 0 }
  | .timeout =>
      run.server.point.wait?.map fun wait =>
        { server := run.server.ackTimeout wait
          timeouts := run.timeouts + 1
          first :=
            if run.timeouts = 0 then wait.alarmMiliSecs else run.first }

def RttInfo.InRange (info : RttInfo) : Prop :=
  rttRxtmin ≤ info.rttRto ∧ info.rttRto ≤ rttRxtmax

/-- `rtt_init` is still to be called.  With a closed window it is not called
before the first wait, which uses what is in the memory. -/
def BackoffRun.Initial (run : BackoffRun) : Prop :=
  ∃ config qObj rwnd, config.rttinit = 0 ∧
    (1 ≤ rwnd ∨ config.rttinfo.InRange) ∧
    run = ⟨Server.start config qObj rwnd, 0, 0⟩

/-- A timeout after which the server goes on finds the window closed. -/
def ClosedAtTimeout (run : BackoffRun) : ServerEvent → Prop
  | .send _ _ => True
  | .receive _ _ => True
  | .timeout => ∀ wait ∈ run.server.point.wait?,
      ¬ run.server.config.PastLast wait.prevSeqNum →
      run.server.config.rttinfo.rttNrexmt < rttMaxnrexmt →
      run.server.config.rwnd < 1

instance (run : BackoffRun) (event : ServerEvent) :
    Decidable (ClosedAtTimeout run event) :=
  match event with
  | .send _ _ => inferInstanceAs (Decidable True)
  | .receive _ _ => inferInstanceAs (Decidable True)
  | .timeout =>
      inferInstanceAs (Decidable (∀ wait ∈ run.server.point.wait?, _))

/-! ## The estimators -/

theorem rttMinmax_mem (rto : ℤ) :
    rttRxtmin ≤ rttMinmax rto ∧ rttMinmax rto ≤ rttRxtmax := by
  unfold rttMinmax rttRxtmin rttRxtmax
  split
  · omega
  · split <;> omega

theorem rttMinmax_double
    {rto : ℤ} (hrto : rttRxtmin ≤ rto) :
    rttMinmax (rto * 2) = min rttRxtmax (2 * rto) := by
  unfold rttRxtmin at hrto
  unfold rttMinmax rttRxtmin rttRxtmax
  split
  · omega
  · split <;> omega

theorem rttStart_eq
    {info : RttInfo} (hrto : 0 ≤ info.rttRto) :
    rttStart info = info.rttRto := by
  have hnonneg : (0 : ℚ) ≤ info.rttRto := by exact_mod_cast hrto
  have hsum : (0 : ℚ) ≤ info.rttRto + 1 / 2 := by linarith
  unfold rttStart truncate
  rw [if_pos hsum]
  apply le_antisymm
  · rw [← Int.lt_add_one_iff, Rat.floor_lt_iff]
    push_cast
    linarith
  · rw [Rat.le_floor_iff]
    linarith

/-- Doubling commutes with the upper bound. -/
theorem min_double_pow
    {bound first : ℤ} (hbound : 0 ≤ bound) (timeouts : ℕ) :
    min bound (2 * min bound (2 ^ timeouts * first)) =
      min bound (2 ^ (timeouts + 1) * first) := by
  have hpow : (2 : ℤ) ^ (timeouts + 1) * first =
      2 * (2 ^ timeouts * first) := by ring
  rw [hpow]
  omega

/-! ## The invariant -/

/-- After a timeout without an acknowledgement since, the window is closed and
the timeout was doubled as often as there were timeouts. -/
def BackoffRun.Doubled (run : BackoffRun) : Prop :=
  1 ≤ run.timeouts → run.server.config.rwnd < 1 ∧
    run.server.config.rttinfo.rttRto =
      min rttRxtmax (2 ^ run.timeouts * run.first)

/-- The first burst is about to start. -/
def BackoffRun.Unstarted (run : BackoffRun) (packetCount : ℕ)
    (cwnd rwnd : ℤ) : Prop :=
  run.server.config.rttinit = 0 ∧ run.timeouts = 0 ∧
    (packetCount : ℤ) < min cwnd rwnd

def BackoffRun.AtPoint (run : BackoffRun) : ServerPoint → Prop
  | .sending packetCount cwnd rwnd => run.server.config.isEOF ≠ 1 →
      run.Unstarted packetCount cwnd rwnd ∨
        run.server.config.rttinfo.InRange ∧ run.Doubled
  | .waiting wait => run.server.config.rttinfo.InRange ∧
      wait.alarmMiliSecs = run.server.config.rttinfo.rttRto ∧ run.Doubled
  | .returned => True
  | .gaveUp => True

structure BackoffRun.Sound (run : BackoffRun) : Prop where
  copies : run.server.Copies
  point : run.AtPoint run.server.point

theorem BackoffRun.doubled_zero (server : Server) (first : ℤ) :
    BackoffRun.Doubled ⟨server, 0, first⟩ := by
  intro hsome
  dsimp only at hsome
  omega

theorem BackoffRun.Initial.sound
    {run : BackoffRun} (hinit : run.Initial) :
    run.Sound := by
  rcases hinit with ⟨config, qObj, rwnd, hrttinit, hopen | hrange, rfl⟩
  · refine ⟨Server.copies_start config qObj rwnd, fun _ => .inl ?_⟩
    refine ⟨hrttinit, rfl, ?_⟩
    push_cast
    omega
  · exact ⟨Server.copies_start config qObj rwnd,
      fun _ => .inr ⟨hrange, BackoffRun.doubled_zero _ _⟩⟩

/-! ## Steps -/

theorem RttInfo.InRange.sendPacket
    {server : Server}
    (hstarted : server.config.rttinit = 0 ∨
      server.config.rttinfo.InRange)
    (words : List String) (packetCount : ℕ) (cwnd rwnd : ℤ)
    (tvTs tvInit : Timeval) :
    (server.sendPacket words packetCount cwnd rwnd tvTs
      tvInit).1.config.rttinfo.InRange := by
  rw [Server.sendPacket_config]
  by_cases hinit : server.config.rttinit = 0
  · simp only [if_pos hinit]
    exact rttMinmax_mem _
  · simp only [if_neg hinit]
    exact hstarted.resolve_left hinit

theorem BackoffRun.Sound.send
    {words : List String} {run : BackoffRun} (hsound : run.Sound)
    {server : Server} {tvTs tvInit : Timeval}
    (hmoves : run.server.Moves words (.send tvTs tvInit) server) :
    ({ run with server := server } : BackoffRun).Sound := by
  refine ⟨hsound.copies.next hmoves.next, ?_⟩
  have hat := hsound.point
  cases hmoves with
  | packet hpoint hcount heof =>
      rw [hpoint] at hat
      have hrwnd := (hsound.copies _ _ _ hpoint).2
      intro _
      right
      rcases hat heof with ⟨hinit, hnone, _⟩ | ⟨hrange, hdoubled⟩
      · refine ⟨RttInfo.InRange.sendPacket (.inl hinit) words _ _ _ _ _, ?_⟩
        intro hsome
        dsimp only at hsome
        omega
      · refine ⟨RttInfo.InRange.sendPacket (.inr hrange) words _ _ _ _ _,
          ?_⟩
        -- The burst sends, so the window is open and no timeout came.
        intro hsome
        have hclosed := (hdoubled hsome).1
        omega
  | burstEnd hpoint hend =>
      rw [hpoint] at hat
      by_cases heof : run.server.config.isEOF = 1
      · simp only [Server.endBurst_point, if_pos heof]
        trivial
      · simp only [Server.endBurst_point, if_neg heof]
        rcases hat heof with ⟨_, _, hcount⟩ | ⟨hrange, hdoubled⟩
        · exact absurd ⟨hcount, heof⟩ hend
        · have hpos : 0 ≤ run.server.config.rttinfo.rttRto :=
            le_trans (by decide) hrange.1
          unfold BackoffRun.AtPoint BackoffRun.Doubled
          dsimp only
          rw [Server.endBurst_config]
          exact ⟨hrange, rttStart_eq hpos, hdoubled⟩

theorem BackoffRun.atPoint_startBurst
    {server : Server} {timeouts : ℕ} {first : ℤ}
    (hrange : server.config.rttinfo.InRange)
    (hdoubled : BackoffRun.Doubled ⟨server, timeouts, first⟩) :
    BackoffRun.AtPoint ⟨server.startBurst, timeouts, first⟩
      server.startBurst.point := by
  intro _
  exact .inr ⟨hrange, hdoubled⟩

/-- The three ways out after a timeout; `hdoubled` is what the last of them
needs. -/
theorem BackoffRun.atPoint_ackTimeout
    {server : Server} {wait : AckWait} {timeouts : ℕ} {first : ℤ}
    (hdoubled : ¬ server.config.PastLast wait.prevSeqNum →
      server.config.rttinfo.rttNrexmt < rttMaxnrexmt →
      BackoffRun.Doubled
        ⟨{ server with config := server.config.backOff wait }, timeouts,
          first⟩) :
    BackoffRun.AtPoint ⟨server.ackTimeout wait, timeouts, first⟩
      (server.ackTimeout wait).point := by
  rcases server.ackTimeout_cases wait with
    ⟨_, heq⟩ | ⟨_, _, heq⟩ | ⟨hgo, hfew, heq⟩
  · rw [heq]
    intro hrunning
    exact absurd rfl hrunning
  · rw [heq]
    trivial
  · rw [heq]
    exact BackoffRun.atPoint_startBurst (rttMinmax_mem _) (hdoubled hgo hfew)

theorem BackoffRun.Sound.receive
    {run : BackoffRun} (hsound : run.Sound) {wait : AckWait}
    (hpoint : run.server.point = .waiting wait) (ack : Ack) (tv : Timeval) :
    BackoffRun.AtPoint ⟨run.server.receiveAck wait ack tv, 0, run.first⟩
      (run.server.receiveAck wait ack tv).point := by
  have hat := hsound.point
  rw [hpoint] at hat
  rcases hat with ⟨hrange, halarm, _⟩
  rcases run.server.receiveAck_cases wait ack tv with
    ⟨_, heq⟩ | ⟨_, _, heq⟩ | ⟨_, _, _, heq⟩ | ⟨_, _, _, heq⟩
  · rw [heq]
    intro hrunning
    exact absurd rfl hrunning
  · rw [heq]
    exact BackoffRun.atPoint_startBurst (rttMinmax_mem _)
      (BackoffRun.doubled_zero _ _)
  · rw [heq]
    exact BackoffRun.atPoint_ackTimeout fun _ _ =>
      BackoffRun.doubled_zero _ _
  · rw [heq]
    exact ⟨hrange, (wait.count_alarmMiliSecs ack).trans halarm,
      BackoffRun.doubled_zero _ _⟩

theorem BackoffRun.Sound.timeout
    {run : BackoffRun} (hsound : run.Sound) {wait : AckWait}
    (hpoint : run.server.point = .waiting wait)
    (hclosed : ClosedAtTimeout run .timeout) :
    BackoffRun.AtPoint
      ⟨run.server.ackTimeout wait, run.timeouts + 1,
        if run.timeouts = 0 then wait.alarmMiliSecs else run.first⟩
      (run.server.ackTimeout wait).point := by
  have hat := hsound.point
  rw [hpoint] at hat
  rcases hat with ⟨hrange, halarm, hdoubled⟩
  apply BackoffRun.atPoint_ackTimeout
  intro hgo hfew _
  have hmem := ServerPoint.mem_wait?_iff.mpr hpoint
  refine ⟨hclosed wait hmem hgo hfew, ?_⟩
  change rttMinmax (run.server.config.rttinfo.rttRto * 2) = _
  rw [rttMinmax_double hrange.1]
  by_cases hfirst : run.timeouts = 0
  · simp only [hfirst, if_true, halarm, zero_add, pow_one]
  · simp only [if_neg hfirst]
    rw [(hdoubled (by omega)).2, min_double_pow (by decide)]

theorem BackoffRun.Sound.step
    {words : List String} {run next : BackoffRun} {event : ServerEvent}
    (hsound : run.Sound) (hclosed : ClosedAtTimeout run event)
    (hstep : run.step words event = some next) :
    next.Sound := by
  cases event with
  | send tvTs tvInit =>
      simp only [BackoffRun.step, Option.map_eq_some_iff] at hstep
      rcases hstep with ⟨server, hserver, rfl⟩
      exact hsound.send (Server.moves_of_next hserver)
  | receive ack tv =>
      simp only [BackoffRun.step, Option.map_eq_some_iff] at hstep
      rcases hstep with ⟨server, hserver, rfl⟩
      refine ⟨hsound.copies.next hserver, ?_⟩
      cases Server.moves_of_next hserver with
      | receive hpoint => exact hsound.receive hpoint ack tv
  | timeout =>
      simp only [BackoffRun.step, Option.map_eq_some_iff] at hstep
      rcases hstep with ⟨wait, hwait, rfl⟩
      have hpoint := ServerPoint.mem_wait?_iff.mp hwait
      exact ⟨Server.copies_ackTimeout _ _, hsound.timeout hpoint hclosed⟩

/-- Every alarm is in range, and the one after a number of timeouts in a row is
the first of them doubled as often. -/
theorem alarm_backsOff
    {words : List String} {run : BackoffRun}
    (hreach : Transition.Reachable (BackoffRun.step words) ClosedAtTimeout
      BackoffRun.Initial run)
    {wait : AckWait} (hpoint : run.server.point = .waiting wait) :
    rttRxtmin ≤ wait.alarmMiliSecs ∧ wait.alarmMiliSecs ≤ rttRxtmax ∧
      (1 ≤ run.timeouts → wait.alarmMiliSecs =
        min rttRxtmax (2 ^ run.timeouts * run.first)) := by
  have hsound : run.Sound :=
    hreach.invariant BackoffRun.Sound (fun _ hinit => hinit.sound)
      fun _ _ _ hsound hclosed hstep => hsound.step hclosed hstep
  have hat := hsound.point
  rw [hpoint] at hat
  rcases hat with ⟨hrange, halarm, hdoubled⟩
  rw [halarm]
  exact ⟨hrange.1, hrange.2, fun hsome => (hdoubled hsome).2⟩

/-! ## One timeout, with and without a window -/

theorem freshBackoff_initial :
    BackoffRun.Initial ⟨freshServer 1, 0, 0⟩ :=
  ⟨_, _, 1, rfl, .inl le_rfl, rfl⟩

/-- In ping mode the alarm is doubled. -/
theorem alarm_backsOff_closedWindow :
    ∃ run wait, Transition.Reachable (BackoffRun.step ["a", "b"])
        ClosedAtTimeout BackoffRun.Initial run ∧
      run.server.point = .waiting wait ∧ run.timeouts = 1 ∧
      run.first = 1000 ∧ wait.alarmMiliSecs = 2000 := by
  obtain ⟨run, hreach, htest⟩ :=
    Transition.exists_reachable_of_replay (BackoffRun.step ["a", "b"])
      ClosedAtTimeout freshBackoff_initial
      [.send midnight midnight, .send midnight midnight,
        .receive ⟨1, 0, 0⟩ midnight, .send midnight midnight, .timeout,
        .send midnight midnight]
      (fun run => decide (run.timeouts = 1) && decide (run.first = 1000) &&
        run.server.point.wait?.isSome)
      (by decide +kernel)
  simp only [Bool.and_eq_true, decide_eq_true_eq] at htest
  rcases htest with ⟨⟨htimeouts, hfirst⟩, hwait⟩
  rcases ServerPoint.exists_of_isSome_wait? hwait with ⟨wait, hpoint⟩
  refine ⟨run, wait, hreach, hpoint, htimeouts, hfirst, ?_⟩
  rw [(alarm_backsOff hreach hpoint).2.2 (by omega), htimeouts, hfirst]
  decide

/-- With an open window it is the same again. -/
theorem alarm_resets :
    ∃ run wait, Transition.Reachable (BackoffRun.step ["a", "b"])
        Transition.Unrestricted BackoffRun.Initial run ∧
      run.server.point = .waiting wait ∧ run.timeouts = 1 ∧
      run.first = 1000 ∧ wait.alarmMiliSecs = 1000 := by
  obtain ⟨run, hreach, htest⟩ :=
    Transition.exists_reachable_of_replay (BackoffRun.step ["a", "b"])
      Transition.Unrestricted freshBackoff_initial
      [.send midnight midnight, .send midnight midnight, .timeout,
        .send midnight midnight, .send midnight midnight]
      (fun run => decide (run.timeouts = 1) && decide (run.first = 1000) &&
        decide (run.server.point.wait?.map AckWait.alarmMiliSecs =
          some 1000))
      (by decide +kernel)
  simp only [Bool.and_eq_true, decide_eq_true_eq,
    Option.map_eq_some_iff] at htest
  rcases htest with ⟨⟨htimeouts, hfirst⟩, wait, hwait, halarm⟩
  exact ⟨run, wait, hreach, ServerPoint.mem_wait?_iff.mp hwait, htimeouts,
    hfirst, halarm⟩

end NetworkProgramming.Transfer
