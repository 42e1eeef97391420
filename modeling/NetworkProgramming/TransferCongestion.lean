import Mathlib.Algebra.Order.Ring.Int
import Mathlib.Algebra.Order.GroupWithZero.Basic
import NetworkProgramming.TransferServerStep

/-!
# The congestion window

`receive_ack` doubles `cwnd` for every acknowledgement in slow start and adds
one after it; a timeout and a fast retransmit set it back to one.  Before the
first of these `ssthresh` is `-1` and nothing ends slow start, so a transfer
without losses doubles `cwnd` until it leaves the range of an `int`.  After it
`ssthresh` is half of an earlier window, and slow start ends at `2 ^ 30` at the
latest.  So it is the number of acknowledgements since the window was last set
back which bounds it.
-/

namespace NetworkProgramming.Transfer

/-- The timeout neither ends the transfer nor gives up. -/
def ThConfig.SetsBack (config : ThConfig) (wait : AckWait) : Prop :=
  ¬ config.PastLast wait.prevSeqNum ∧
    config.rttinfo.rttNrexmt < rttMaxnrexmt

instance (config : ThConfig) (wait : AckWait) :
    Decidable (config.SetsBack wait) :=
  inferInstanceAs (Decidable (_ ∧ _))

/-- The acknowledgement is the one which starts a fast retransmit. -/
def ThConfig.Repeats (config : ThConfig) (wait : AckWait) (ack : Ack) :
    Prop :=
  ¬ config.AckPastLast ack.seq ∧ (ack.seq : ℤ) ≠ wait.expectedSeqNum ∧
    (wait.count ack).fastRetransmit = 3

instance (config : ThConfig) (wait : AckWait) (ack : Ack) :
    Decidable (config.Repeats wait ack) :=
  inferInstanceAs (Decidable (_ ∧ _ ∧ _))

/-- Whether the event is a timeout or a fast retransmit which sets the window
back. -/
def Server.setsBack (server : Server) : ServerEvent → Bool
  | .send _ _ => false
  | .receive ack _ => server.point.wait?.any fun wait =>
      decide (server.config.Repeats wait ack) &&
        decide (server.config.SetsBack (wait.count ack))
  | .timeout => server.point.wait?.any fun wait =>
      decide (server.config.SetsBack wait)

/-- The server with the number of acknowledgements since the start or since
the window was last set back. -/
structure WindowRun where
  server : Server
  acks : ℕ
  lost : Bool
  deriving DecidableEq

def WindowRun.acksAfter (run : WindowRun) : ServerEvent → ℕ
  | .receive _ _ => run.acks + 1
  | .send _ _ => run.acks
  | .timeout => run.acks

def WindowRun.step (words : List String) (run : WindowRun)
    (event : ServerEvent) : Option WindowRun :=
  (run.server.next words event).map fun server =>
    if run.server.setsBack event then ⟨server, 0, true⟩
    else ⟨server, run.acksAfter event, run.lost⟩

def WindowRun.Initial (run : WindowRun) : Prop :=
  run.server.Initial ∧ run.acks = 0 ∧ run.lost = false

/-- The number of acknowledgements which the window stands. -/
def maxAcks (lost : Bool) : ℕ :=
  if lost then 2 ^ 30 + 29 else 30

def FewAcks (run : WindowRun) : ServerEvent → Prop
  | .receive _ _ => run.acks < maxAcks run.lost
  | .send _ _ => True
  | .timeout => True

instance (run : WindowRun) (event : ServerEvent) :
    Decidable (FewAcks run event) :=
  match event with
  | .receive _ _ => inferInstanceAs (Decidable (_ < _))
  | .send _ _ => inferInstanceAs (Decidable True)
  | .timeout => inferInstanceAs (Decidable True)

/-- What the window is after a number of acknowledgements.  Slow start doubles
it from one; a threshold is half of an earlier window. -/
structure ThConfig.Counts (config : ThConfig) (acks : ℕ) (lost : Bool) :
    Prop where
  few : acks ≤ maxAcks lost
  one_le : 1 ≤ config.cwnd
  doubled : lost = false → config.ssthresh = -1 ∧ config.cwnd = 2 ^ acks
  threshold : lost = true →
    0 ≤ config.ssthresh ∧ config.ssthresh < 2 ^ 30
  slow_start : lost = true → config.cwnd < config.ssthresh →
    config.cwnd = 2 ^ acks
  bounded : lost = true → config.cwnd + 30 ≤ 2 ^ 30 + acks

/-! ## The updates -/

theorem two_pow_add_le
    {few many : ℕ} (hle : few ≤ many) :
    (2 : ℤ) ^ few + many ≤ 2 ^ many + few := by
  induction many, hle using Nat.le_induction with
  | base => exact le_rfl
  | succ many _ ih =>
      have hpos : (1 : ℤ) ≤ 2 ^ many := one_le_pow₀ (by decide)
      rw [pow_succ]
      push_cast
      omega

section Updates

variable {config : ThConfig} {acks : ℕ} {lost : Bool}

theorem ThConfig.Counts.le_max
    (hcounts : config.Counts acks lost) :
    config.cwnd ≤ intMax := by
  have hfew := hcounts.few
  cases lost with
  | false =>
      have hpow : (2 : ℤ) ^ acks ≤ 2 ^ 30 :=
        pow_le_pow_right₀ (by decide) hfew
      rw [(hcounts.doubled rfl).2]
      unfold intMax
      omega
  | true =>
      have hbounded := hcounts.bounded rfl
      have hfew' : acks ≤ 2 ^ 30 + 29 := hfew
      unfold intMax
      omega

/-- Before the first loss every acknowledgement doubles the window. -/
theorem ThConfig.Counts.growCwnd_eq
    (hcounts : config.Counts acks false) :
    growCwnd config = 2 ^ (acks + 1) := by
  rcases hcounts.doubled rfl with ⟨hthresh, hcwnd⟩
  unfold growCwnd
  rw [if_neg (fun hboth => hboth.1 hthresh), hcwnd, pow_succ]

theorem ThConfig.Counts.one_le_growCwnd
    (hcounts : config.Counts acks lost) :
    1 ≤ growCwnd config := by
  have hone := hcounts.one_le
  unfold growCwnd
  split <;> omega

/-- After a loss the window doubles at most thirty times. -/
theorem ThConfig.Counts.growCwnd_lost
    (hcounts : config.Counts acks true) :
    (growCwnd config < config.ssthresh →
      growCwnd config = 2 ^ (acks + 1)) ∧
    growCwnd config + 30 ≤ 2 ^ 30 + (acks + 1 : ℕ) := by
  rcases hcounts.threshold rfl with ⟨hthresh, hmax⟩
  have hbounded := hcounts.bounded rfl
  unfold growCwnd
  by_cases hslow : config.cwnd < config.ssthresh
  · have hcwnd := hcounts.slow_start rfl hslow
    have hacks : acks < 30 := by
      by_contra hmany
      have hpow : (2 : ℤ) ^ 30 ≤ 2 ^ acks :=
        pow_le_pow_right₀ (by decide) (by omega)
      omega
    have hpow := two_pow_add_le (show acks + 1 ≤ 30 from hacks)
    rw [if_neg (fun hboth => absurd hboth.2 (by omega)), hcwnd, ← pow_succ]
    exact ⟨fun _ => rfl, hpow⟩
  · rw [if_pos ⟨by omega, by omega⟩]
    push_cast
    exact ⟨fun hless => by omega, by omega⟩

theorem ThConfig.Counts.grow
    (hcounts : config.Counts acks lost) {next : ThConfig}
    (hcwnd : next.cwnd = growCwnd config)
    (hssthresh : next.ssthresh = config.ssthresh)
    (hroom : acks < maxAcks lost) :
    next.Counts (acks + 1) lost := by
  refine ⟨hroom, ?_, ?_, ?_, ?_, ?_⟩
  · rw [hcwnd]
    exact hcounts.one_le_growCwnd
  · rintro rfl
    rw [hcwnd, hssthresh]
    exact ⟨(hcounts.doubled rfl).1, hcounts.growCwnd_eq⟩
  · rw [hssthresh]
    exact hcounts.threshold
  · rintro rfl
    rw [hcwnd, hssthresh]
    exact hcounts.growCwnd_lost.1
  · rintro rfl
    rw [hcwnd]
    exact hcounts.growCwnd_lost.2

theorem ThConfig.Counts.backOff
    (hcounts : config.Counts acks lost) (wait : AckWait) :
    (config.backOff wait).Counts 0 true := by
  have hone := hcounts.one_le
  have hmax := hcounts.le_max
  unfold intMax at hmax
  have hhalf : config.cwnd.tdiv 2 = config.cwnd / 2 :=
    Int.tdiv_eq_ediv_of_nonneg (by omega)
  refine ⟨Nat.zero_le _, le_rfl, ?_, ?_, fun _ _ => rfl, ?_⟩
  · intro hkept
    cases hkept
  · intro _
    simp only [ThConfig.backOff]
    omega
  · intro _
    simp only [ThConfig.backOff]
    decide

theorem ThConfig.Counts.congr
    (hcounts : config.Counts acks lost) {next : ThConfig}
    (hcwnd : next.cwnd = config.cwnd)
    (hssthresh : next.ssthresh = config.ssthresh) :
    next.Counts acks lost := by
  rcases hcounts with ⟨hfew, hone, hdoubled, hthresh, hslow, hbounded⟩
  rw [← hcwnd] at hone hdoubled hslow hbounded
  rw [← hssthresh] at hdoubled hthresh hslow
  exact ⟨hfew, hone, hdoubled, hthresh, hslow, hbounded⟩

end Updates

/-! ## Steps and runs -/

theorem ThConfig.Counts.ackTimeout
    {server : Server} {acks : ℕ} {lost : Bool}
    (hcounts : server.config.Counts acks lost) (wait : AckWait) :
    if server.config.SetsBack wait then
      (server.ackTimeout wait).config.Counts 0 true
    else (server.ackTimeout wait).config.Counts acks lost := by
  rcases server.ackTimeout_cases wait with
    ⟨hpast, heq⟩ | ⟨_, hgives, heq⟩ | ⟨hlast, hnrexmt, heq⟩
  · rw [if_neg (fun hback => hback.1 hpast), heq]
    exact hcounts.congr rfl rfl
  · rw [if_neg (fun hback => absurd hback.2 (by omega)), heq]
    exact hcounts.congr rfl rfl
  · rw [if_pos ⟨hlast, hnrexmt⟩, heq]
    exact hcounts.backOff wait

theorem ThConfig.Counts.receiveAck
    {server : Server} {acks : ℕ} {lost : Bool}
    (hcounts : server.config.Counts acks lost)
    (hroom : acks < maxAcks lost)
    (wait : AckWait) (ack : Ack) (tv : Timeval) :
    if server.config.Repeats wait ack ∧
        server.config.SetsBack (wait.count ack) then
      (server.receiveAck wait ack tv).config.Counts 0 true
    else (server.receiveAck wait ack tv).config.Counts (acks + 1) lost := by
  have hheard : (server.config.heard ack).Counts (acks + 1) lost :=
    hcounts.grow rfl rfl hroom
  rcases server.receiveAck_cases wait ack tv with
    ⟨hpast, heq⟩ | ⟨_, hexpected, heq⟩ | ⟨hlast, hother, hfast, heq⟩ |
      ⟨_, _, hfew, heq⟩
  · rw [if_neg (fun hback => hback.1.1 hpast), heq]
    exact hcounts.grow rfl rfl hroom
  · rw [if_neg (fun hback => hback.1.2.1 hexpected), heq]
    exact hheard.congr rfl rfl
  · rw [heq]
    have htimeout := @ThConfig.Counts.ackTimeout
      { server with config := server.config.heard ack } _ _ hheard
      (wait.count ack)
    by_cases hback : server.config.SetsBack (wait.count ack)
    · rw [if_pos ⟨⟨hlast, hother, hfast⟩, hback⟩]
      exact (if_pos hback).mp htimeout
    · rw [if_neg (fun hboth => hback hboth.2)]
      exact (if_neg hback).mp htimeout
  · rw [if_neg (fun hback => hfew hback.1.2.2), heq]
    exact hheard

theorem ThConfig.Counts.step
    {words : List String} {run next : WindowRun} {event : ServerEvent}
    (hcounts : run.server.config.Counts run.acks run.lost)
    (hfew : FewAcks run event) (hstep : run.step words event = some next) :
    next.server.config.Counts next.acks next.lost := by
  simp only [WindowRun.step, Option.map_eq_some_iff] at hstep
  rcases hstep with ⟨server, hnext, rfl⟩
  cases Server.moves_of_next hnext with
  | packet =>
      simp only [Server.setsBack, Bool.false_eq_true, if_false]
      rw [Server.sendPacket_config]
      exact hcounts.congr rfl rfl
  | burstEnd =>
      simp only [Server.setsBack, Bool.false_eq_true, if_false]
      rw [Server.endBurst_config]
      exact hcounts
  | @receive ack tv wait hpoint =>
      have hreceive := hcounts.receiveAck hfew wait ack tv
      simp only [Server.setsBack, hpoint, ServerPoint.wait?,
        Option.any_some, Bool.and_eq_true, decide_eq_true_eq]
      split at hreceive
      next hback =>
        rw [if_pos hback]
        exact hreceive
      next hback =>
        rw [if_neg hback]
        exact hreceive
  | @timeout wait hpoint =>
      have htimeout := hcounts.ackTimeout wait
      simp only [Server.setsBack, hpoint, ServerPoint.wait?,
        Option.any_some, decide_eq_true_eq]
      split at htimeout
      next hback =>
        rw [if_pos hback]
        exact htimeout
      next hback =>
        rw [if_neg hback]
        exact htimeout

theorem WindowRun.next_of_step
    {words : List String} {run next : WindowRun} {event : ServerEvent}
    (hstep : run.step words event = some next) :
    run.server.next words event = some next.server := by
  simp only [WindowRun.step, Option.map_eq_some_iff] at hstep
  rcases hstep with ⟨server, hnext, rfl⟩
  rw [hnext]
  split <;> rfl

theorem WindowRun.counts_of_reachable
    {words : List String} {run : WindowRun}
    (hreach : Transition.Reachable (WindowRun.step words) FewAcks
      WindowRun.Initial run) :
    run.server.config.Counts run.acks run.lost ∧ run.server.Copies := by
  refine hreach.invariant (fun run =>
    run.server.config.Counts run.acks run.lost ∧ run.server.Copies) ?_ ?_
  · rintro ⟨server, acks, lost⟩ ⟨⟨config, qObj, rwnd, rfl⟩, rfl, rfl⟩
    refine ⟨⟨Nat.zero_le _, le_rfl, fun _ => ⟨rfl, rfl⟩, ?_, ?_, ?_⟩,
      Server.copies_start config qObj rwnd⟩ <;>
      exact fun hlost => by cases hlost
  · rintro run event next ⟨hcounts, hcopies⟩ hfew hstep
    exact ⟨hcounts.step hfew hstep,
      hcopies.next (WindowRun.next_of_step hstep)⟩

/-- With at most thirty acknowledgements before the first loss, and at most
`2 ^ 30 + 29` since the window was last set back, it is a positive `int`, and
a burst with an open receiver window sends something.  Before the first loss
one more acknowledgement is one too many. -/
theorem cwnd_inRange
    {words : List String} {run : WindowRun}
    (hreach : Transition.Reachable (WindowRun.step words) FewAcks
      WindowRun.Initial run) :
    1 ≤ run.server.config.cwnd ∧ run.server.config.cwnd ≤ intMax ∧
      (∀ packetCount cwnd rwnd,
        run.server.point = .sending packetCount cwnd rwnd → 1 ≤ rwnd →
          1 ≤ min cwnd rwnd) ∧
      (run.lost = false → ∀ ack tv,
        growCwnd run.server.config ≤ intMax ↔
          FewAcks run (.receive ack tv)) := by
  rcases WindowRun.counts_of_reachable hreach with ⟨hcounts, hcopies⟩
  refine ⟨hcounts.one_le, hcounts.le_max, ?_, ?_⟩
  · intro packetCount cwnd rwnd hpoint hopen
    rw [(hcopies packetCount cwnd rwnd hpoint).1]
    exact le_min hcounts.one_le hopen
  · intro hfresh ack tv
    rw [hfresh] at hcounts
    unfold FewAcks
    rw [hcounts.growCwnd_eq, hfresh]
    constructor
    · intro hmax
      by_contra hmany
      have hpow : (2 : ℤ) ^ 31 ≤ 2 ^ (run.acks + 1) :=
        pow_le_pow_right₀ (by decide) (by simp [maxAcks] at hmany; omega)
      unfold intMax at hmax
      omega
    · intro hfew
      have hpow : (2 : ℤ) ^ (run.acks + 1) ≤ 2 ^ 30 :=
        pow_le_pow_right₀ (by decide) hfew
      unfold intMax
      omega

/-! ## A transfer without losses -/

/-- One round with a window of one datagram. -/
def lossFreeRound (seq : ℕ) : List ServerEvent :=
  [.send midnight midnight, .send midnight midnight,
    .receive ⟨seq + 1, 0, 1⟩ midnight]

def lossFree (rounds : ℕ) : List ServerEvent :=
  (List.range rounds).flatMap lossFreeRound

/-- Thirty acknowledgements are in range, and so is the one after a
timeout. -/
theorem cwnd_inRange_thirtyAcks :
    ∃ before after : WindowRun,
      Transition.Reachable (WindowRun.step (List.replicate 40 "a"))
        FewAcks WindowRun.Initial before ∧
      before.server.config.cwnd = 1073741824 ∧
      before.server.config.cwnd ≤ intMax ∧
      Transition.Reachable (WindowRun.step (List.replicate 40 "a"))
        FewAcks WindowRun.Initial after ∧
      after.lost = true ∧ after.server.config.ssthresh = 536870912 ∧
      after.server.config.cwnd = 2 ∧ after.server.config.cwnd ≤ intMax := by
  have hinit : WindowRun.Initial ⟨freshServer 1, 0, false⟩ :=
    ⟨freshServer_initial 1, rfl, rfl⟩
  obtain ⟨before, hbefore, hcwnd⟩ :=
    Transition.exists_reachable_of_replay
      (WindowRun.step (List.replicate 40 "a")) FewAcks hinit (lossFree 30)
      (fun run => decide (run.server.config.cwnd = 1073741824))
      (by decide +kernel)
  obtain ⟨after, hafter, htest⟩ :=
    Transition.exists_reachable_of_replay
      (WindowRun.step (List.replicate 40 "a")) FewAcks hinit
      (lossFree 30 ++ [.send midnight midnight, .send midnight midnight,
        .timeout] ++ lossFreeRound 31)
      (fun run => run.lost &&
        decide (run.server.config.ssthresh = 536870912) &&
        decide (run.server.config.cwnd = 2))
      (by decide +kernel)
  rw [decide_eq_true_eq] at hcwnd
  simp only [Bool.and_eq_true, decide_eq_true_eq] at htest
  rcases htest with ⟨⟨hlost, hthresh⟩, htwo⟩
  exact ⟨before, after, hbefore, hcwnd, (cwnd_inRange hbefore).2.1,
    hafter, hlost, hthresh, htwo, (cwnd_inRange hafter).2.1⟩

/-- The next one is not. -/
theorem cwnd_overflow :
    ∃ server, Transition.Reachable (Server.next (List.replicate 40 "a"))
        Transition.Unrestricted Server.Initial server ∧
      server.config.isEOF = 0 ∧ ¬ server.config.cwnd ≤ intMax := by
  obtain ⟨server, hreach, htest⟩ :=
    Transition.exists_reachable_of_replay
      (Server.next (List.replicate 40 "a")) Transition.Unrestricted
      (freshServer_initial 1) (lossFree 31)
      (fun server => decide (server.config.isEOF = 0) &&
        decide (server.config.cwnd = 2147483648))
      (by decide +kernel)
  simp only [Bool.and_eq_true, decide_eq_true_eq] at htest
  refine ⟨server, hreach, htest.1, ?_⟩
  rw [htest.2]
  decide

end NetworkProgramming.Transfer
