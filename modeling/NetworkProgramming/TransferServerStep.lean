import NetworkProgramming.TransferServerWindow

/-!
# What one event does to the server

The server alone, with arbitrary acknowledgements and timeouts.  The lemmas
here say what each event can do to its state: one equation for the datagram
of a burst and for the end of a burst, and the ways out of `receive_ack` after
an acknowledgement and after a timeout.
-/

namespace NetworkProgramming.Transfer

def Server.next (words : List String) (server : Server) :
    ServerEvent → Option Server
  | .send tvTs tvInit => (server.send words tvTs tvInit).map Prod.fst
  | .receive ack tv =>
      match server.point with
      | .waiting wait => some (server.receiveAck wait ack tv)
      | _ => none
  | .timeout =>
      match server.point with
      | .waiting wait => some (server.ackTimeout wait)
      | _ => none

/-- The locals of `receive_ack`, inside it. -/
def ServerPoint.wait? : ServerPoint → Option AckWait
  | .waiting wait => some wait
  | _ => none

theorem ServerPoint.mem_wait?_iff
    {point : ServerPoint} {wait : AckWait} :
    wait ∈ point.wait? ↔ point = .waiting wait := by
  cases point <;> simp [ServerPoint.wait?]

theorem ServerPoint.exists_of_isSome_wait?
    {point : ServerPoint} (hwait : point.wait?.isSome = true) :
    ∃ wait, point = .waiting wait := by
  rcases Option.isSome_iff_exists.mp hwait with ⟨wait, hsome⟩
  exact ⟨wait, ServerPoint.mem_wait?_iff.mp hsome⟩

/-- The fields which `send_file_data` does not set are arbitrary. -/
def Server.Initial (server : Server) : Prop :=
  ∃ config qObj rwnd, server = Server.start config qObj rwnd

/-- The state before the first datagram, with zeroed memory. -/
def freshServer (rwnd : ℤ) : Server :=
  (freshRun rwnd).server

theorem freshServer_initial (rwnd : ℤ) : (freshServer rwnd).Initial :=
  ⟨_, _, rwnd, rfl⟩

inductive Server.Moves (words : List String) (server : Server) :
    ServerEvent → Server → Prop
  | packet {tvTs tvInit : Timeval} {packetCount : ℕ} {cwnd rwnd : ℤ}
      (hpoint : server.point = .sending packetCount cwnd rwnd)
      (hcount : (packetCount : ℤ) < min cwnd rwnd)
      (heof : server.config.isEOF ≠ 1) :
      Moves words server (.send tvTs tvInit)
        (server.sendPacket words packetCount cwnd rwnd tvTs tvInit).1
  | burstEnd {tvTs tvInit : Timeval} {packetCount : ℕ} {cwnd rwnd : ℤ}
      (hpoint : server.point = .sending packetCount cwnd rwnd)
      (hend : ¬ ((packetCount : ℤ) < min cwnd rwnd ∧
        server.config.isEOF ≠ 1)) :
      Moves words server (.send tvTs tvInit) server.endBurst.1
  | receive {ack : Ack} {tv : Timeval} {wait : AckWait}
      (hpoint : server.point = .waiting wait) :
      Moves words server (.receive ack tv) (server.receiveAck wait ack tv)
  | timeout {wait : AckWait} (hpoint : server.point = .waiting wait) :
      Moves words server .timeout (server.ackTimeout wait)

theorem Server.moves_of_next
    {words : List String} {server next : Server} {event : ServerEvent}
    (hnext : server.next words event = some next) :
    server.Moves words event next := by
  cases event with
  | send tvTs tvInit =>
      simp only [Server.next, Option.map_eq_some_iff] at hnext
      rcases hnext with ⟨sent, hsend, rfl⟩
      unfold Server.send at hsend
      split at hsend
      next packetCount cwnd rwnd hpoint =>
        split at hsend
        next hsends =>
          simp only [Option.some.injEq] at hsend
          subst hsend
          exact .packet hpoint hsends.1 hsends.2
        next hend =>
          simp only [Option.some.injEq] at hsend
          subst hsend
          exact .burstEnd hpoint hend
      next => cases hsend
  | receive ack tv =>
      simp only [Server.next] at hnext
      split at hnext
      next wait hpoint =>
        simp only [Option.some.injEq] at hnext
        subst hnext
        exact .receive hpoint
      next => cases hnext
  | timeout =>
      simp only [Server.next] at hnext
      split at hnext
      next wait hpoint =>
        simp only [Option.some.injEq] at hnext
        subst hnext
        exact .timeout hpoint
      next => cases hnext

theorem Server.Moves.next
    {words : List String} {server next : Server} {event : ServerEvent}
    (hmoves : server.Moves words event next) :
    server.next words event = some next := by
  cases hmoves with
  | packet hpoint hcount heof =>
      simp only [Server.next, Server.send, hpoint]
      rw [if_pos ⟨hcount, heof⟩]
      rfl
  | burstEnd hpoint hend =>
      simp only [Server.next, Server.send, hpoint]
      rw [if_neg hend]
      rfl
  | receive hpoint => simp only [Server.next, hpoint]
  | timeout hpoint => simp only [Server.next, hpoint]

/-! ## The burst -/

theorem Server.sendPacket_config
    (words : List String) (server : Server) (packetCount : ℕ)
    (cwnd rwnd : ℤ) (tvTs tvInit : Timeval) :
    (server.sendPacket words packetCount cwnd rwnd tvTs tvInit).1.config =
      { server.config with
        lastUnackedSeq := -1
        lastPackSeqNo := (server.load words tvTs).config.lastPackSeqNo
        rttinfo := rttNewpack
          (if server.config.rttinit = 0 then
            rttInit server.config.rttinfo tvInit
          else server.config.rttinfo)
        rttinit := if server.config.rttinit = 0 then 3
          else server.config.rttinit } := by
  have hload : (server.load words tvTs).config =
      { server.config with
        lastUnackedSeq := -1
        lastPackSeqNo :=
          (server.load words tvTs).config.lastPackSeqNo } := by
    unfold Server.load
    split
    next => rfl
    next hunacked =>
      have hnone : server.config.lastUnackedSeq = -1 := not_not.mp hunacked
      simp only [Server.loadNext]
      split
      · simp only [hnone]
      · simp only [← hnone]
  simp only [Server.sendPacket, Loaded.finish]
  rw [hload]
  split <;> rfl

@[simp]
theorem Server.endBurst_config (server : Server) :
    server.endBurst.1.config = server.config := by
  unfold Server.endBurst
  split
  · rfl
  · split <;> rfl

@[simp]
theorem Server.endBurst_seqNum (server : Server) :
    server.endBurst.1.seqNum = server.seqNum := by
  unfold Server.endBurst
  split
  · rfl
  · split <;> rfl

theorem Server.endBurst_point (server : Server) :
    server.endBurst.1.point =
      if server.config.isEOF = 1 then .returned
      else .waiting ⟨server.seqNum + 1, -1, 0,
        rttStart server.config.rttinfo⟩ := by
  unfold Server.endBurst
  split
  · rfl
  · split <;> rfl

/-! ## The ways out of `receive_ack` -/

/-- The number asked for is behind the last packet. -/
def ThConfig.PastLast (config : ThConfig) (seq : ℤ) : Prop :=
  seq > config.lastPackSeqNo ∧ config.lastPackSeqNo ≠ -1

instance (config : ThConfig) (seq : ℤ) : Decidable (config.PastLast seq) :=
  inferInstanceAs (Decidable (_ ∧ _))

/-- The test which `receive_ack` makes of an acknowledgement, on unsigned
numbers. -/
def ThConfig.AckPastLast (config : ThConfig) (seq : ℕ) : Prop :=
  seq > toUint32 config.lastPackSeqNo ∧ config.lastPackSeqNo ≠ -1

instance (config : ThConfig) (seq : ℕ) :
    Decidable (config.AckPastLast seq) :=
  inferInstanceAs (Decidable (_ ∧ _))

/-- The two tests agree on every number which `send_file_data` stores. -/
theorem ThConfig.ackPastLast_iff
    {config : ThConfig} (hlast : -1 ≤ config.lastPackSeqNo) {seq : ℕ} :
    config.AckPastLast seq ↔ config.PastLast seq := by
  refine and_congr_left fun hset => ?_
  have hsame := toUint32_of_nonneg (by omega : 0 ≤ config.lastPackSeqNo)
  omega

/-- The configuration for the resend. -/
def ThConfig.backOff (config : ThConfig) (wait : AckWait) : ThConfig :=
  { config with
    rttinfo := (rttTimeout config.rttinfo).1
    ssthresh := config.cwnd.tdiv 2
    cwnd := 1
    lastUnackedSeq :=
      if wait.prevSeqNum ≠ -1 then wait.prevSeqNum
      else config.lastUnackedSeq
    rttinit := 0 }

theorem rttTimeout_gives_up_iff (info : RttInfo) :
    (rttTimeout info).2 = true ↔ rttMaxnrexmt ≤ info.rttNrexmt := by
  simp only [rttTimeout, decide_eq_true_eq]
  omega

theorem Server.ackTimeout_cases (server : Server) (wait : AckWait) :
    (server.config.PastLast wait.prevSeqNum ∧
      server.ackTimeout wait = { server with
        config := { server.config with isEOF := 1 } }.startBurst) ∨
    (¬ server.config.PastLast wait.prevSeqNum ∧
      rttMaxnrexmt ≤ server.config.rttinfo.rttNrexmt ∧
      server.ackTimeout wait = { server with
        config := { server.config with
          rttinfo := (rttTimeout server.config.rttinfo).1
          rttinit := 0 }
        point := .gaveUp }) ∨
    (¬ server.config.PastLast wait.prevSeqNum ∧
      server.config.rttinfo.rttNrexmt < rttMaxnrexmt ∧
      server.ackTimeout wait = { server with
        config := server.config.backOff wait }.startBurst) := by
  unfold Server.ackTimeout
  by_cases hlast : server.config.PastLast wait.prevSeqNum
  · exact .inl ⟨hlast, if_pos hlast⟩
  · by_cases hnrexmt : rttMaxnrexmt ≤ server.config.rttinfo.rttNrexmt
    · refine .inr (.inl ⟨hlast, hnrexmt, ?_⟩)
      exact (if_neg hlast).trans
        (if_pos ((rttTimeout_gives_up_iff _).mpr hnrexmt))
    · refine .inr (.inr ⟨hlast, by omega, ?_⟩)
      exact (if_neg hlast).trans
        (if_neg (mt (rttTimeout_gives_up_iff _).mp hnrexmt))

theorem Server.ackTimeout_not_waiting (server : Server) (wait : AckWait) :
    ∀ other, (server.ackTimeout wait).point ≠ .waiting other := by
  intro other hpoint
  rcases server.ackTimeout_cases wait with
    ⟨_, heq⟩ | ⟨_, _, heq⟩ | ⟨_, _, heq⟩
  all_goals
    rw [heq] at hpoint
    cases hpoint

/-- After an acknowledgement which does not end the transfer. -/
def ThConfig.heard (config : ThConfig) (ack : Ack) : ThConfig :=
  { config with cwnd := growCwnd config, rwnd := ack.rwnd }

theorem Server.receiveAck_cases
    (server : Server) (wait : AckWait) (ack : Ack) (tv : Timeval) :
    (server.config.AckPastLast ack.seq ∧
      server.receiveAck wait ack tv = Server.ackDone { server with
        config := { server.config with
          cwnd := growCwnd server.config
          isEOF := 1 } } ack tv) ∨
    (¬ server.config.AckPastLast ack.seq ∧
      (ack.seq : ℤ) = wait.expectedSeqNum ∧
      server.receiveAck wait ack tv = Server.ackDone { server with
        config := server.config.heard ack } ack tv) ∨
    (¬ server.config.AckPastLast ack.seq ∧
      (ack.seq : ℤ) ≠ wait.expectedSeqNum ∧
      (wait.count ack).fastRetransmit = 3 ∧
      server.receiveAck wait ack tv = Server.ackTimeout { server with
        config := server.config.heard ack } (wait.count ack)) ∨
    (¬ server.config.AckPastLast ack.seq ∧
      (ack.seq : ℤ) ≠ wait.expectedSeqNum ∧
      (wait.count ack).fastRetransmit ≠ 3 ∧
      server.receiveAck wait ack tv = { server with
        config := server.config.heard ack
        point := .waiting (wait.count ack) }) := by
  unfold Server.receiveAck
  by_cases hlast : server.config.AckPastLast ack.seq
  · exact .inl ⟨hlast, if_pos hlast⟩
  · by_cases hexpected : (ack.seq : ℤ) = wait.expectedSeqNum
    · exact .inr (.inl ⟨hlast, hexpected,
        (if_neg hlast).trans (if_pos hexpected)⟩)
    · by_cases hfast : (wait.count ack).fastRetransmit = 3
      · exact .inr (.inr (.inl ⟨hlast, hexpected, hfast,
          (if_neg hlast).trans ((if_neg hexpected).trans
            (if_pos hfast))⟩))
      · exact .inr (.inr (.inr ⟨hlast, hexpected, hfast,
          (if_neg hlast).trans ((if_neg hexpected).trans
            (if_neg hfast))⟩))

/-! ## Numbers -/

/-- What holds at every point: the numbers are in place, and a wait expects
the number behind the last datagram. -/
structure Server.Regular (server : Server) : Prop where
  numbered : server.Numbered
  expected : ∀ wait, server.point = .waiting wait →
    wait.expectedSeqNum = server.seqNum + 1
  prev_ge : ∀ wait, server.point = .waiting wait → -1 ≤ wait.prevSeqNum
  running : ∀ wait, server.point = .waiting wait → server.config.isEOF ≠ 1

theorem Server.Numbered.regular
    {server : Server} (hnumbered : server.Numbered)
    (hpoint : ∀ wait, server.point ≠ .waiting wait) :
    server.Regular :=
  ⟨hnumbered, fun wait hwait => absurd hwait (hpoint wait),
    fun wait hwait => absurd hwait (hpoint wait),
    fun wait hwait => absurd hwait (hpoint wait)⟩

theorem Server.Numbered.ackTimeout
    {server : Server} (hnumbered : server.Numbered) {wait : AckWait}
    (hprev : -1 ≤ wait.prevSeqNum) :
    (server.ackTimeout wait).Regular := by
  have hseq := hnumbered.seqNum_ge
  have hunacked := hnumbered.unacked_ge
  have hlast := hnumbered.last_ge
  rcases server.ackTimeout_cases wait with
    ⟨_, heq⟩ | ⟨_, _, heq⟩ | ⟨_, _, heq⟩
  · rw [heq]
    exact Server.Numbered.regular ⟨hseq, hunacked, hlast⟩
      fun _ hpoint => by cases hpoint
  · rw [heq]
    exact Server.Numbered.regular ⟨hseq, hunacked, hlast⟩
      fun _ hpoint => by cases hpoint
  · rw [heq]
    refine Server.Numbered.regular ⟨hseq, ?_, hlast⟩
      fun _ hpoint => by cases hpoint
    simp only [Server.startBurst, ThConfig.backOff]
    split <;> omega

theorem Server.Regular.next
    {words : List String} {server next : Server} {event : ServerEvent}
    (hregular : server.Regular)
    (hnext : server.next words event = some next) :
    next.Regular := by
  have hnumbered := hregular.numbered
  have hseq := hnumbered.seqNum_ge
  have hunacked := hnumbered.unacked_ge
  have hlast := hnumbered.last_ge
  cases Server.moves_of_next hnext with
  | packet =>
      exact (hnumbered.sendPacket words _ _ _ _ _).numbered.regular
        fun _ hpoint => by cases hpoint
  | burstEnd =>
      refine ⟨⟨?_, ?_, ?_⟩, ?_, ?_, ?_⟩
      · simpa using hseq
      · simpa using hunacked
      · simpa using hlast
      all_goals
        intro wait hwait
        rw [Server.endBurst_point] at hwait
        split at hwait
        next => cases hwait
        next hrunning =>
          cases hwait
          simp [hrunning]
  | @receive ack tv wait hpoint =>
      rcases server.receiveAck_cases wait ack tv with
        ⟨_, heq⟩ | ⟨_, _, heq⟩ | ⟨_, _, _, heq⟩ | ⟨_, _, _, heq⟩
      · rw [heq]
        exact Server.Numbered.regular ⟨hseq, le_rfl, hlast⟩
          fun _ hwait => by cases hwait
      · rw [heq]
        exact Server.Numbered.regular ⟨hseq, le_rfl, hlast⟩
          fun _ hwait => by cases hwait
      · rw [heq]
        apply Server.Numbered.ackTimeout
        · exact ⟨hseq, hunacked, hlast⟩
        · rw [wait.count_prevSeqNum]
          omega
      · rw [heq]
        refine ⟨⟨hseq, hunacked, hlast⟩, ?_, ?_, ?_⟩
        · intro other hother
          cases hother
          rw [wait.count_expectedSeqNum]
          exact hregular.expected wait hpoint
        · intro other hother
          cases hother
          rw [wait.count_prevSeqNum]
          omega
        · intro _ _
          exact hregular.running wait hpoint
  | @timeout wait hpoint =>
      exact hnumbered.ackTimeout (hregular.prev_ge wait hpoint)

theorem Server.Initial.regular
    {server : Server} (hinit : server.Initial) :
    server.Regular := by
  rcases hinit with ⟨config, qObj, rwnd, rfl⟩
  exact Server.Numbered.regular ⟨le_rfl, le_rfl, le_rfl⟩
    fun _ hpoint => by cases hpoint

/-! ## The windows of a burst -/

/-- The windows of a burst are those of the configuration. -/
def Server.Copies (server : Server) : Prop :=
  ∀ packetCount cwnd rwnd,
    server.point = .sending packetCount cwnd rwnd →
      cwnd = server.config.cwnd ∧ rwnd = server.config.rwnd

theorem Server.copies_start (config : ThConfig) (qObj : Datagram) (rwnd : ℤ) :
    (Server.start config qObj rwnd).Copies := by
  intro packetCount cwnd rwnd' hpoint
  cases hpoint
  exact ⟨rfl, rfl⟩

theorem Server.copies_startBurst (server : Server) :
    server.startBurst.Copies := by
  intro packetCount cwnd rwnd hpoint
  cases hpoint
  exact ⟨rfl, rfl⟩

theorem Server.copies_of_not_sending
    {server : Server}
    (hpoint : ∀ packetCount cwnd rwnd,
      server.point ≠ .sending packetCount cwnd rwnd) :
    server.Copies :=
  fun packetCount cwnd rwnd hsending =>
    absurd hsending (hpoint packetCount cwnd rwnd)

theorem Server.copies_ackTimeout (server : Server) (wait : AckWait) :
    (server.ackTimeout wait).Copies := by
  rcases server.ackTimeout_cases wait with
    ⟨_, heq⟩ | ⟨_, _, heq⟩ | ⟨_, _, heq⟩
  · rw [heq]
    exact Server.copies_startBurst _
  · rw [heq]
    exact Server.copies_of_not_sending fun _ _ _ hpoint => by cases hpoint
  · rw [heq]
    exact Server.copies_startBurst _

theorem Server.Copies.next
    {words : List String} {server next : Server} {event : ServerEvent}
    (hcopies : server.Copies)
    (hnext : server.next words event = some next) :
    next.Copies := by
  cases Server.moves_of_next hnext with
  | packet hpoint =>
      intro packetCount cwnd rwnd hsending
      rw [Server.sendPacket_config]
      cases hsending
      exact hcopies _ _ _ hpoint
  | burstEnd =>
      apply Server.copies_of_not_sending
      intro packetCount cwnd rwnd hsending
      rw [Server.endBurst_point] at hsending
      split at hsending <;> cases hsending
  | @receive ack tv wait =>
      rcases server.receiveAck_cases wait ack tv with
        ⟨_, heq⟩ | ⟨_, _, heq⟩ | ⟨_, _, _, heq⟩ | ⟨_, _, _, heq⟩
      · rw [heq]
        exact Server.copies_startBurst _
      · rw [heq]
        exact Server.copies_startBurst _
      · rw [heq]
        exact Server.copies_ackTimeout _ _
      · rw [heq]
        exact Server.copies_of_not_sending
          fun _ _ _ hpoint => by cases hpoint
  | timeout => exact Server.copies_ackTimeout _ _

end NetworkProgramming.Transfer
