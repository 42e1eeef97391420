import NetworkProgramming.TransferServerStep

/-!
# Giving up

`rtt_timeout` counts the timeouts and gives up when there were more than
`RTT_MAXNREXMT`.  `rtt_newpack` clears the count for every datagram of a
burst, those which are sent again included.  So the count only grows while
the window is closed and pings are all that is sent; with an open window a
server which hears nothing never gives up.
-/

namespace NetworkProgramming.Transfer

/-- A server which receives nothing, and the timeouts since then. -/
structure Silence where
  server : Server
  timeouts : ℕ

def Silence.step (words : List String) (silence : Silence) :
    ServerEvent → Option Silence
  | .send tvTs tvInit =>
      (silence.server.next words (.send tvTs tvInit)).map fun server =>
        ⟨server, silence.timeouts⟩
  | .receive _ _ => none
  | .timeout =>
      (silence.server.next words .timeout).map fun server =>
        ⟨server, silence.timeouts + 1⟩

/-- Some silence from here on. -/
def Silence.Follows (words : List String) (start final : Silence) : Prop :=
  Transition.Run (Silence.step words) Transition.Unrestricted start final

/-- The wait is the last one, or the count has only to be carried on. -/
def Server.RunsOut (server : Server) (wait : AckWait) : Prop :=
  server.config.PastLast wait.prevSeqNum ∨
    rttMaxnrexmt ≤ server.config.rttinfo.rttNrexmt ∨
    server.config.rwnd < 1 ∧ 0 ≤ server.config.rttinfo.rttNrexmt

theorem Silence.step_cases
    {words : List String} {silence next : Silence} {event : ServerEvent}
    (hstep : silence.step words event = some next) :
    (∃ tvTs tvInit,
        silence.server.Moves words (.send tvTs tvInit) next.server ∧
        next.timeouts = silence.timeouts) ∨
      silence.server.Moves words .timeout next.server ∧
        next.timeouts = silence.timeouts + 1 := by
  cases event with
  | send tvTs tvInit =>
      simp only [Silence.step, Option.map_eq_some_iff] at hstep
      rcases hstep with ⟨server, hserver, rfl⟩
      exact .inl ⟨tvTs, tvInit, Server.moves_of_next hserver, rfl⟩
  | receive ack tv => cases hstep
  | timeout =>
      simp only [Silence.step, Option.map_eq_some_iff] at hstep
      rcases hstep with ⟨server, hserver, rfl⟩
      exact .inr ⟨Server.moves_of_next hserver, rfl⟩

/-! ## The last wait -/

/-- No wait follows. -/
def Server.Leaving (server : Server) : Prop :=
  server.point.wait? = none ∧
    ∀ packetCount cwnd rwnd,
      server.point = .sending packetCount cwnd rwnd →
        server.config.isEOF = 1

theorem Server.Leaving.send
    {words : List String} {server next : Server} {tvTs tvInit : Timeval}
    (hleaving : server.Leaving)
    (hmoves : server.Moves words (.send tvTs tvInit) next) :
    next.Leaving := by
  cases hmoves with
  | packet hpoint hcount heof =>
      exact absurd (hleaving.2 _ _ _ hpoint) heof
  | burstEnd hpoint hend =>
      have heof := hleaving.2 _ _ _ hpoint
      have hreturned : server.endBurst.1.point = .returned := by
        rw [Server.endBurst_point, if_pos heof]
      refine ⟨by rw [hreturned]; rfl, ?_⟩
      intro packetCount cwnd rwnd hsending
      rw [hreturned] at hsending
      cases hsending

theorem Server.Leaving.no_timeout
    {words : List String} {server next : Server}
    (hleaving : server.Leaving)
    (hmoves : server.Moves words .timeout next) : False := by
  cases hmoves with
  | timeout hpoint =>
      have hnone := hleaving.1
      rw [hpoint] at hnone
      cases hnone

theorem Server.ackTimeout_leaving
    {server : Server} {wait : AckWait}
    (hlast : server.config.PastLast wait.prevSeqNum ∨
      rttMaxnrexmt ≤ server.config.rttinfo.rttNrexmt) :
    (server.ackTimeout wait).Leaving := by
  rcases server.ackTimeout_cases wait with
    ⟨_, heq⟩ | ⟨_, _, heq⟩ | ⟨hpast, hcount, _⟩
  · rw [heq]
    exact ⟨rfl, fun _ _ _ _ => rfl⟩
  · rw [heq]
    exact ⟨rfl, fun _ _ _ hsending => by cases hsending⟩
  · rcases hlast with hlast | hlast
    · exact absurd hlast hpast
    · omega

/-! ## The closed window -/

/-- With a closed window `rtt_nrexmt` counts every timeout. -/
structure Silence.Counted (silence : Silence) : Prop where
  le_max : (silence.timeouts : ℤ) ≤ rttMaxnrexmt
  copies : silence.server.Copies
  waiting : ∀ wait, silence.server.point = .waiting wait →
    silence.server.config.PastLast wait.prevSeqNum ∨
      rttMaxnrexmt ≤ silence.server.config.rttinfo.rttNrexmt ∨
      silence.server.config.rwnd < 1 ∧
        (silence.timeouts : ℤ) ≤ silence.server.config.rttinfo.rttNrexmt
  sending : ∀ packetCount cwnd rwnd,
    silence.server.point = .sending packetCount cwnd rwnd →
      silence.server.config.rwnd < 1 ∧
        (silence.timeouts : ℤ) ≤ silence.server.config.rttinfo.rttNrexmt

/-- The count goes on, or it has ended. -/
def Silence.Bounded (silence : Silence) : Prop :=
  silence.Counted ∨
    silence.server.Leaving ∧ (silence.timeouts : ℤ) ≤ rttMaxnrexmt + 1

theorem Silence.Counted.send
    {words : List String} {silence next : Silence} {tvTs tvInit : Timeval}
    (hcounted : silence.Counted)
    (hmoves : silence.server.Moves words (.send tvTs tvInit) next.server)
    (htimeouts : next.timeouts = silence.timeouts) :
    next.Bounded := by
  have hmax := hcounted.le_max
  rcases next with ⟨server, timeouts⟩
  dsimp only at hmoves htimeouts
  subst htimeouts
  cases hmoves with
  | packet hpoint hcount heof =>
      have hclosed := (hcounted.sending _ _ _ hpoint).1
      have hcopy := (hcounted.copies _ _ _ hpoint).2
      omega
  | burstEnd hpoint hend =>
      by_cases heof : silence.server.config.isEOF = 1
      · have hreturned : silence.server.endBurst.1.point = .returned := by
          rw [Server.endBurst_point, if_pos heof]
        refine .inr ⟨⟨by rw [hreturned]; rfl, ?_⟩, by dsimp only; omega⟩
        intro _ _ _ hsending
        rw [hreturned] at hsending
        cases hsending
      · have hnot : ∀ packetCount cwnd rwnd,
            silence.server.endBurst.1.point ≠
              .sending packetCount cwnd rwnd := by
          intro packetCount cwnd rwnd hsending
          rw [Server.endBurst_point, if_neg heof] at hsending
          cases hsending
        refine .inl ⟨hmax, Server.copies_of_not_sending hnot, ?_, ?_⟩
        · intro wait _
          rw [Server.endBurst_config]
          exact .inr (.inr (hcounted.sending _ _ _ hpoint))
        · intro packetCount cwnd rwnd hsending
          exact absurd hsending (hnot packetCount cwnd rwnd)

theorem Silence.Counted.timeout
    {words : List String} {silence next : Silence}
    (hcounted : silence.Counted)
    (hmoves : silence.server.Moves words .timeout next.server)
    (htimeouts : next.timeouts = silence.timeouts + 1) :
    next.Bounded := by
  have hmax := hcounted.le_max
  rcases next with ⟨server, timeouts⟩
  dsimp only at hmoves htimeouts
  subst htimeouts
  cases hmoves with
  | @timeout wait hpoint =>
      by_cases hlast : silence.server.config.PastLast wait.prevSeqNum ∨
          rttMaxnrexmt ≤ silence.server.config.rttinfo.rttNrexmt
      · refine .inr ⟨Server.ackTimeout_leaving hlast, ?_⟩
        push_cast
        omega
      · rcases hcounted.waiting wait hpoint with hpast | hmany | hclosed
        · exact absurd (.inl hpast) hlast
        · exact absurd (.inr hmany) hlast
        · rcases silence.server.ackTimeout_cases wait with
            ⟨hpast, _⟩ | ⟨_, hmany, _⟩ | ⟨_, hfew, heq⟩
          · exact absurd (.inl hpast) hlast
          · exact absurd (.inr hmany) hlast
          · rw [heq]
            have hnrexmt :
                (rttTimeout silence.server.config.rttinfo).1.rttNrexmt =
                  silence.server.config.rttinfo.rttNrexmt + 1 :=
              rfl
            refine .inl ⟨?_, Server.copies_startBurst _, ?_, ?_⟩
            · push_cast
              omega
            · intro _ hwaiting
              cases hwaiting
            · intro _ _ _ _
              refine ⟨hclosed.1, ?_⟩
              simp only [Server.startBurst, ThConfig.backOff, hnrexmt]
              push_cast
              omega

theorem Silence.Bounded.step
    {words : List String} {silence next : Silence} {event : ServerEvent}
    (hbounded : silence.Bounded)
    (hstep : silence.step words event = some next) :
    next.Bounded := by
  rcases Silence.step_cases hstep with
    ⟨tvTs, tvInit, hmoves, htimeouts⟩ | ⟨hmoves, htimeouts⟩
  · rcases hbounded with hcounted | ⟨hleaving, hle⟩
    · exact hcounted.send hmoves htimeouts
    · refine .inr ⟨hleaving.send hmoves, ?_⟩
      rw [htimeouts]
      exact hle
  · rcases hbounded with hcounted | ⟨hleaving, _⟩
    · exact hcounted.timeout hmoves htimeouts
    · exact (hleaving.no_timeout hmoves).elim

theorem Silence.Bounded.timeouts_le
    {silence : Silence} (hbounded : silence.Bounded) :
    (silence.timeouts : ℤ) ≤ rttMaxnrexmt + 1 := by
  rcases hbounded with hcounted | ⟨_, hle⟩
  · have hmax := hcounted.le_max
    omega
  · exact hle

theorem Silence.bounded_of_runsOut
    {server : Server} {wait : AckWait}
    (hpoint : server.point = .waiting wait) (hruns : server.RunsOut wait) :
    Silence.Bounded ⟨server, 0⟩ := by
  have hnot : ∀ packetCount cwnd rwnd,
      server.point ≠ .sending packetCount cwnd rwnd := by
    intro packetCount cwnd rwnd hsending
    rw [hpoint] at hsending
    cases hsending
  refine .inl ⟨by simp [rttMaxnrexmt], Server.copies_of_not_sending hnot,
    ?_, ?_⟩
  · intro other hother
    rw [hpoint] at hother
    cases hother
    exact hruns
  · intro packetCount cwnd rwnd hsending
    exact absurd hsending (hnot packetCount cwnd rwnd)

/-! ## The open window -/

section Rounds

variable {words : List String}

theorem Silence.step_send
    {server next : Server} {tvTs tvInit : Timeval}
    (hmoves : server.Moves words (.send tvTs tvInit) next) (timeouts : ℕ) :
    Silence.step words ⟨server, timeouts⟩ (.send tvTs tvInit) =
      some ⟨next, timeouts⟩ := by
  simp only [Silence.step, hmoves.next, Option.map_some]

theorem Silence.step_timeout
    {server next : Server} (hmoves : server.Moves words .timeout next)
    (timeouts : ℕ) :
    Silence.step words ⟨server, timeouts⟩ .timeout =
      some ⟨next, timeouts + 1⟩ := by
  simp only [Silence.step, hmoves.next, Option.map_some]

/-- A burst is followed by a wait which has heard nothing. -/
theorem Server.Regular.endBurst_waiting
    {server : Server} (hregular : server.Regular)
    (heof : server.config.isEOF ≠ 1) :
    ∃ wait, server.endBurst.1.point = .waiting wait ∧
      ¬ server.endBurst.1.config.PastLast wait.prevSeqNum := by
  have hlast := hregular.numbered.last_ge
  rw [Server.endBurst_point, if_neg heof, Server.endBurst_config]
  refine ⟨_, rfl, ?_⟩
  unfold ThConfig.PastLast
  dsimp only
  omega

/-- What a burst of at most one datagram comes to. -/
structure Silence.Waits (words : List String) (server next : Server)
    (start finish : ℕ) : Prop where
  run : Silence.Follows words ⟨server, start⟩ ⟨next, finish⟩
  waiting : ∃ wait, next.point = .waiting wait ∧
    ¬ next.config.PastLast wait.prevSeqNum
  regular : next.Regular
  rwnd : next.config.rwnd = server.config.rwnd

variable (words)

theorem Silence.exists_burst
    {server : Server} (hregular : server.Regular)
    (hpoint : server.point = .sending 0 1 server.config.rwnd)
    (heof : server.config.isEOF ≠ 1) (timeouts : ℕ) :
    ∃ next, Silence.Waits words server next timeouts timeouts ∧
      next.config.rttinfo.rttNrexmt =
        if 1 ≤ server.config.rwnd then 0
        else server.config.rttinfo.rttNrexmt := by
  by_cases hopen : 1 ≤ server.config.rwnd
  · -- One datagram is sent, and with it the count starts again.
    have hpacket : server.Moves words (.send midnight midnight)
        (server.sendPacket words 0 1 server.config.rwnd midnight
          midnight).1 :=
      .packet hpoint (by push_cast; omega) heof
    have hsent := hregular.next hpacket.next
    have hconfig := server.sendPacket_config words 0 1 server.config.rwnd
      midnight midnight
    have hsentEof : (server.sendPacket words 0 1 server.config.rwnd midnight
        midnight).1.config.isEOF ≠ 1 := by
      rw [hconfig]
      exact heof
    have hend : (server.sendPacket words 0 1 server.config.rwnd midnight
        midnight).1.Moves words (.send midnight midnight)
        (server.sendPacket words 0 1 server.config.rwnd midnight
          midnight).1.endBurst.1 :=
      .burstEnd rfl (by push_cast; omega)
    refine ⟨_, ⟨?_, hsent.endBurst_waiting hsentEof, hsent.next hend.next,
      ?_⟩, ?_⟩
    · exact .tail (.tail .refl trivial (Silence.step_send hpacket timeouts))
        trivial (Silence.step_send hend timeouts)
    · rw [Server.endBurst_config, hconfig]
    · rw [Server.endBurst_config, hconfig, if_pos hopen]
      rfl
  · have hend : server.Moves words (.send midnight midnight)
        server.endBurst.1 :=
      .burstEnd hpoint (by push_cast; omega)
    refine ⟨_, ⟨?_, hregular.endBurst_waiting heof,
      hregular.next hend.next, ?_⟩, ?_⟩
    · exact .tail .refl trivial (Silence.step_send hend timeouts)
    · rw [Server.endBurst_config]
    · rw [Server.endBurst_config, if_neg hopen]

theorem Silence.exists_round
    {server : Server} {wait : AckWait} (hregular : server.Regular)
    (hpoint : server.point = .waiting wait)
    (hgo : ¬ server.config.PastLast wait.prevSeqNum)
    (hfew : server.config.rttinfo.rttNrexmt < rttMaxnrexmt)
    (timeouts : ℕ) :
    ∃ next, Silence.Waits words server next timeouts (timeouts + 1) ∧
      next.config.rttinfo.rttNrexmt =
        if 1 ≤ server.config.rwnd then 0
        else server.config.rttinfo.rttNrexmt + 1 := by
  rcases server.ackTimeout_cases wait with
    ⟨hpast, _⟩ | ⟨_, hmany, _⟩ | ⟨_, _, heq⟩
  · exact absurd hpast hgo
  · omega
  · have htimeout : server.Moves words .timeout (server.ackTimeout wait) :=
      .timeout hpoint
    have hstart := hregular.next htimeout.next
    rw [heq] at htimeout hstart
    rcases Silence.exists_burst words hstart rfl
      (hregular.running wait hpoint) (timeouts + 1) with
      ⟨next, hwaits, hnrexmt⟩
    refine ⟨next, ⟨?_, hwaits.waiting, hwaits.regular, hwaits.rwnd⟩,
      hnrexmt⟩
    have hfirst : Silence.Follows words ⟨server, timeouts⟩ _ :=
      .tail .refl trivial (Silence.step_timeout htimeout timeouts)
    exact hfirst.trans hwaits.run

/-- As long as the window is open, or the count has room, the timeouts can go
on. -/
theorem Silence.exists_rounds
    (rounds : ℕ) {server : Server} {wait : AckWait}
    (hregular : server.Regular) (hpoint : server.point = .waiting wait)
    (hgo : ¬ server.config.PastLast wait.prevSeqNum)
    (hroom : 1 ≤ server.config.rwnd ∧
        server.config.rttinfo.rttNrexmt < rttMaxnrexmt ∨
      server.config.rttinfo.rttNrexmt + rounds ≤ rttMaxnrexmt)
    (timeouts : ℕ) :
    ∃ next wait, Silence.Follows words ⟨server, timeouts⟩
        ⟨next, timeouts + rounds⟩ ∧
      next.point = .waiting wait := by
  induction rounds generalizing server wait timeouts with
  | zero => exact ⟨server, wait, .refl, hpoint⟩
  | succ rounds ih =>
      have hfew : server.config.rttinfo.rttNrexmt < rttMaxnrexmt := by
        omega
      rcases Silence.exists_round words hregular hpoint hgo hfew
        timeouts with ⟨next, hwaits, hnrexmt⟩
      rcases hwaits.waiting with ⟨wait', hwait', hgo'⟩
      have hroom' : 1 ≤ next.config.rwnd ∧
          next.config.rttinfo.rttNrexmt < rttMaxnrexmt ∨
          next.config.rttinfo.rttNrexmt + rounds ≤ rttMaxnrexmt := by
        rw [hnrexmt, hwaits.rwnd]
        have hzero : (0 : ℤ) < rttMaxnrexmt := by decide
        split
        next hopen => exact .inl ⟨hopen, hzero⟩
        next hclosed =>
          right
          push_cast at hroom
          omega
      rcases ih hwaits.regular hwait' hgo' hroom' (timeouts + 1) with
        ⟨final, wait'', hrun, hfinal⟩
      refine ⟨final, wait'', hwaits.run.trans ?_, hfinal⟩
      rw [show timeouts + (rounds + 1) = timeouts + 1 + rounds by omega]
      exact hrun

end Rounds

/-! ## When the server gives up -/

theorem Server.regular_of_reachable
    {words : List String} {server : Server}
    (hreach : Transition.Reachable (Server.next words)
      Transition.Unrestricted Server.Initial server) :
    server.Regular := by
  refine hreach.invariant Server.Regular ?_ ?_
  · intro start hinit
    exact hinit.regular
  · intro server event next hregular _ hnext
    exact hregular.next hnext

/-- From a wait on, silence brings at most `RTT_MAXNREXMT + 1` timeouts
exactly when the wait is the last one anyway, or the window is closed. -/
theorem silence_timeouts_le_iff
    {words : List String} {server : Server}
    (hreach : Transition.Reachable (Server.next words)
      Transition.Unrestricted Server.Initial server)
    {wait : AckWait} (hpoint : server.point = .waiting wait) :
    (∀ final, Silence.Follows words ⟨server, 0⟩ final →
        (final.timeouts : ℤ) ≤ rttMaxnrexmt + 1) ↔
      server.RunsOut wait := by
  have hregular := Server.regular_of_reachable hreach
  constructor
  · intro hall
    by_contra hruns
    simp only [Server.RunsOut, not_or, not_and, not_le] at hruns
    rcases hruns with ⟨hgo, hfew, hcount⟩
    have hroom : 1 ≤ server.config.rwnd ∧
        server.config.rttinfo.rttNrexmt < rttMaxnrexmt ∨
        server.config.rttinfo.rttNrexmt + (13 : ℕ) ≤ rttMaxnrexmt := by
      by_cases hopen : 1 ≤ server.config.rwnd
      · exact .inl ⟨hopen, hfew⟩
      · have hneg := hcount (by omega)
        right
        unfold rttMaxnrexmt
        push_cast
        omega
    rcases Silence.exists_rounds words 13 hregular hpoint hgo hroom 0
      with ⟨next, wait', hrun, hwait'⟩
    have hlate := hall _ (hrun.tail trivial
      (Silence.step_timeout (.timeout hwait') _))
    simp [rttMaxnrexmt] at hlate
  · intro hruns final hrun
    refine Silence.Bounded.timeouts_le (hrun.invariant Silence.Bounded ?_ ?_)
    · exact Silence.bounded_of_runsOut hpoint hruns
    · intro silence event next hbounded _ hstep
      exact hbounded.step hstep

/-- The client closes its window with the first acknowledgement and is not
heard of again. -/
theorem silence_timeouts_le_closedWindow :
    ∃ server wait, Transition.Reachable (Server.next ["a", "b"])
        Transition.Unrestricted Server.Initial server ∧
      server.point = .waiting wait ∧
      ∀ final, Silence.Follows ["a", "b"] ⟨server, 0⟩ final →
        (final.timeouts : ℤ) ≤ rttMaxnrexmt + 1 := by
  obtain ⟨server, hreach, htest⟩ :=
    Transition.exists_reachable_of_replay (Server.next ["a", "b"])
      Transition.Unrestricted (freshServer_initial 1)
      [.send midnight midnight, .send midnight midnight,
        .receive ⟨1, 0, 0⟩ midnight, .send midnight midnight]
      (fun server => decide (server.config.rwnd < 1 ∧
          0 ≤ server.config.rttinfo.rttNrexmt) &&
        server.point.wait?.isSome)
      (by decide +kernel)
  simp only [Bool.and_eq_true, decide_eq_true_eq] at htest
  rcases ServerPoint.exists_of_isSome_wait? htest.2 with ⟨wait, hpoint⟩
  exact ⟨server, wait, hreach, hpoint,
    (silence_timeouts_le_iff hreach hpoint).mpr (.inr (.inr htest.1))⟩

/-- The client dies after it was sent the first datagram: there is no bound
on the timeouts. -/
theorem silence_endless :
    ∃ server, Transition.Reachable (Server.next ["a"])
        Transition.Unrestricted Server.Initial server ∧
      ∀ timeouts, ∃ final, Silence.Follows ["a"] ⟨server, 0⟩ final ∧
        final.timeouts = timeouts := by
  obtain ⟨server, hreach, htest⟩ :=
    Transition.exists_reachable_of_replay (Server.next ["a"])
      Transition.Unrestricted (freshServer_initial 1)
      [.send midnight midnight, .send midnight midnight]
      (fun server => decide (1 ≤ server.config.rwnd ∧
          server.config.rttinfo.rttNrexmt < rttMaxnrexmt) &&
        decide (server.config.lastPackSeqNo = -1) &&
        server.point.wait?.isSome)
      (by decide +kernel)
  simp only [Bool.and_eq_true, decide_eq_true_eq] at htest
  rcases htest with ⟨⟨hopen, hlast⟩, hwait⟩
  rcases ServerPoint.exists_of_isSome_wait? hwait with ⟨wait, hpoint⟩
  refine ⟨server, hreach, fun timeouts => ?_⟩
  rcases Silence.exists_rounds ["a"] timeouts
    (Server.regular_of_reachable hreach) hpoint (fun hpast => hpast.2 hlast)
    (.inl hopen) 0 with ⟨next, _, hrun, _⟩
  exact ⟨_, hrun, Nat.zero_add timeouts⟩

end NetworkProgramming.Transfer
