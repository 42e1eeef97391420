import NetworkProgramming.TransferServerCursor
import NetworkProgramming.TransferServerStep

/-!
# The datagram after a timeout

After a timeout the oldest unacknowledged datagram should be sent again.  Its
number is the largest one which was acknowledged so far.  `receive_ack` knows
only the number it heard last in the same wait, so that one has to be the
largest.  A wait without any acknowledgement leaves what is sent next as it
is: then a resend which is still due has to be for the largest number, or
nothing may be outstanding but the last packet, which is sent again anyway.
A closed window puts the resend off, and acknowledgements which come in the
meantime may replace it.
-/

namespace NetworkProgramming.Transfer

/-- A datagram of the file, not a ping. -/
def Datagram.isFile (datagram : Datagram) : Bool :=
  decide (datagram.config.type = .data) ||
    decide (datagram.config.type = .eof)

/-- The server with the largest number acknowledged so far.  `owed` has what
that number was at each timeout since the last datagram of the file. -/
structure ResendRun where
  server : Server
  largest : ℤ
  owed : List ℤ
  deriving DecidableEq

def ResendRun.step (words : List String) (run : ResendRun) :
    ServerEvent → Option ResendRun
  | .send tvTs tvInit =>
      (run.server.send words tvTs tvInit).map fun sent =>
        { run with
          server := sent.1
          owed := if sent.2.any Datagram.isFile then [] else run.owed }
  | .receive ack tv =>
      (run.server.next words (.receive ack tv)).map fun server =>
        { run with server := server, largest := max run.largest ack.seq }
  | .timeout =>
      (run.server.next words .timeout).map fun server =>
        { run with
          server := server
          owed :=
            if server.config.isEOF = 1 then run.owed
            else run.largest :: run.owed }

def ResendRun.Initial (run : ResendRun) : Prop :=
  ∃ server : Server, server.Initial ∧ run = ⟨server, 0, []⟩

/-- The last packet is what was sent last. -/
def Server.SentLast (server : Server) : Prop :=
  server.config.lastPackSeqNo ≠ -1 ∧
    server.seqNum = server.config.lastPackSeqNo

instance (server : Server) : Decidable server.SentLast :=
  inferInstanceAs (Decidable (_ ∧ _))

/-- Nothing is outstanding, or the last packet alone. -/
def ResendRun.Settled (run : ResendRun) : Prop :=
  if run.server.SentLast then run.largest = run.server.seqNum
  else run.largest = run.server.seqNum + 1

/-- No acknowledgement so far was larger than the last one of the wait; in a
wait without any, than the one a resend is still due for; and if there is
none either, the datagrams sent so far are settled. -/
def ResendRun.KnowsLargest (run : ResendRun) (wait : AckWait) : Prop :=
  if wait.prevSeqNum ≠ -1 then run.largest ≤ wait.prevSeqNum
  else if run.server.config.lastUnackedSeq ≠ -1 then
    run.largest ≤ run.server.config.lastUnackedSeq
  else run.Settled

/-- At a timeout the largest number is known, and none larger has come since
an earlier timeout whose resend is still to come; an acknowledgement which
ends a wait while a resend is to come asks for it. -/
def HeardLargest (run : ResendRun) : ServerEvent → Prop
  | .send _ _ => True
  | .receive ack _ => ∀ wait ∈ run.server.point.wait?,
      ((ack.seq : ℤ) = wait.expectedSeqNum ∨
        (wait.count ack).fastRetransmit = 3) →
      ¬ run.server.config.PastLast ack.seq →
      ∀ owed ∈ run.owed, owed = ack.seq
  | .timeout => ∀ wait ∈ run.server.point.wait?,
      ¬ run.server.config.PastLast wait.prevSeqNum →
      run.KnowsLargest wait ∧ ∀ owed ∈ run.owed, run.largest ≤ owed

instance (run : ResendRun) : Decidable run.Settled :=
  inferInstanceAs (Decidable (if run.server.SentLast then
    run.largest = run.server.seqNum
  else run.largest = run.server.seqNum + 1))

instance (run : ResendRun) (wait : AckWait) :
    Decidable (run.KnowsLargest wait) :=
  inferInstanceAs (Decidable (if wait.prevSeqNum ≠ -1 then
    run.largest ≤ wait.prevSeqNum
  else if run.server.config.lastUnackedSeq ≠ -1 then
    run.largest ≤ run.server.config.lastUnackedSeq
  else run.Settled))

instance (run : ResendRun) (event : ServerEvent) :
    Decidable (HeardLargest run event) :=
  match event with
  | .send _ _ => inferInstanceAs (Decidable True)
  | .receive _ _ =>
      inferInstanceAs (Decidable (∀ wait ∈ run.server.point.wait?, _))
  | .timeout =>
      inferInstanceAs (Decidable (∀ wait ∈ run.server.point.wait?, _))

/-! ## The number of the next datagram of the file -/

/-- The next number, or that of the last packet if it is beyond it. -/
def Server.fileSeq (server : Server) : ℤ :=
  if server.nextSeq ≥ server.config.lastPackSeqNo ∧
      server.config.lastPackSeqNo ≠ -1 then server.config.lastPackSeqNo
  else server.nextSeq

theorem Server.fileSeq_eq_nextSeq
    {server : Server}
    (hlast : ¬ server.config.PastLast server.nextSeq) :
    server.fileSeq = server.nextSeq := by
  unfold ThConfig.PastLast at hlast
  unfold Server.fileSeq
  split <;> omega

theorem Server.load_sentSeq
    (words : List String) (server : Server) (tv : Timeval) :
    (server.load words tv).sentSeq = server.fileSeq := by
  unfold Server.load Server.fileSeq Server.nextSeq
  by_cases hunacked : server.config.lastUnackedSeq ≠ -1
  · rw [if_pos hunacked, if_pos hunacked]
    rfl
  · rw [if_neg hunacked, if_neg hunacked]
    simp only [Server.loadNext, Loaded.sentSeq]
    split
    next hmarks =>
      -- The number which becomes the last one is the next one.
      dsimp only
      rw [hmarks.2]
      simp
    next => rfl

theorem Server.Numbered.sendPacket_seq
    {server : Server} (hserver : server.Numbered) (words : List String)
    (packetCount : ℕ) (cwnd rwnd : ℤ) (tvTs tvInit : Timeval) :
    ((server.sendPacket words packetCount cwnd rwnd tvTs
      tvInit).2.config.seq : ℤ) = server.fileSeq := by
  have hsends := hserver.sendPacket words packetCount cwnd rwnd tvTs tvInit
  rw [hsends.seq, ← server.load_sentSeq words tvTs]
  rfl

theorem Server.sendPacket_isFile
    (words : List String) (server : Server) (packetCount : ℕ)
    (cwnd rwnd : ℤ) (tvTs tvInit : Timeval) :
    (server.sendPacket words packetCount cwnd rwnd tvTs
      tvInit).2.isFile = true := by
  unfold Datagram.isFile
  rw [Server.sendPacket_type]
  split <;> rfl

/-- A silent wait leaves the next datagram of the file as it is. -/
theorem Server.fileSeq_backOff
    {server : Server} {wait : AckWait} (hsilent : wait.prevSeqNum = -1) :
    Server.fileSeq ({ server with
      config := server.config.backOff wait } : Server).startBurst =
      server.fileSeq := by
  have hkeeps : (server.config.backOff wait).lastUnackedSeq =
      server.config.lastUnackedSeq :=
    if_neg (not_not.mpr hsilent)
  simp only [Server.fileSeq, Server.nextSeq, Server.startBurst, hkeeps]
  rfl

/-- Otherwise the number heard last comes next. -/
theorem Server.fileSeq_backOff_heard
    {server : Server} {wait : AckWait} (hheard : wait.prevSeqNum ≠ -1)
    (hlast : ¬ server.config.PastLast wait.prevSeqNum) :
    Server.fileSeq ({ server with
      config := server.config.backOff wait } : Server).startBurst =
      wait.prevSeqNum := by
  have hsets : (server.config.backOff wait).lastUnackedSeq =
      wait.prevSeqNum :=
    if_pos hheard
  have hnext : Server.nextSeq ({ server with
      config := server.config.backOff wait } : Server).startBurst =
      wait.prevSeqNum := by
    simp only [Server.nextSeq, Server.startBurst, hsets, if_pos hheard]
  rw [Server.fileSeq_eq_nextSeq, hnext]
  rw [hnext]
  exact hlast

/-! ## What can be asked for -/

/-- No resend is due beyond the largest number acknowledged or beyond the last
packet, and nothing was sent beyond the last packet. -/
structure Server.Bounded (server : Server) (largest : ℤ) : Prop where
  largest_nonneg : 0 ≤ largest
  unacked_le : server.config.lastUnackedSeq ≤ largest
  unacked_inside : server.config.lastUnackedSeq ≠ -1 →
    ¬ server.config.PastLast server.config.lastUnackedSeq
  seqNum_le : server.config.lastPackSeqNo ≠ -1 →
    server.seqNum ≤ server.config.lastPackSeqNo

section Bounded

variable {server : Server} {largest : ℤ}

theorem Server.Bounded.sendPacket
    (hbounded : server.Bounded largest) (words : List String)
    (packetCount : ℕ) (cwnd rwnd : ℤ) (tvTs tvInit : Timeval) :
    (server.sendPacket words packetCount cwnd rwnd tvTs
      tvInit).1.Bounded largest := by
  have hnonneg := hbounded.largest_nonneg
  have hunacked : (server.sendPacket words packetCount cwnd rwnd tvTs
      tvInit).1.config.lastUnackedSeq = -1 := by
    rw [Server.sendPacket_config]
  refine ⟨hnonneg, by omega, fun hdue => absurd hunacked hdue, ?_⟩
  have hseqNum : (server.sendPacket words packetCount cwnd rwnd tvTs
      tvInit).1.seqNum = (server.load words tvTs).sentSeq := rfl
  rw [Server.sendPacket_config, hseqNum, Loaded.sentSeq]
  intro hset
  dsimp only at hset ⊢
  split <;> omega

theorem Server.Bounded.ackTimeout
    (hbounded : server.Bounded largest) {wait : AckWait}
    (hprev : wait.prevSeqNum ≤ largest) :
    (server.ackTimeout wait).Bounded largest := by
  have hnonneg := hbounded.largest_nonneg
  rcases server.ackTimeout_cases wait with
    ⟨_, heq⟩ | ⟨_, _, heq⟩ | ⟨hinside, _, heq⟩
  · rw [heq]
    exact ⟨hnonneg, hbounded.unacked_le, hbounded.unacked_inside,
      hbounded.seqNum_le⟩
  · rw [heq]
    exact ⟨hnonneg, hbounded.unacked_le, hbounded.unacked_inside,
      hbounded.seqNum_le⟩
  · rw [heq]
    refine ⟨hnonneg, ?_, ?_, hbounded.seqNum_le⟩
    · simp only [Server.startBurst, ThConfig.backOff]
      split
      · exact hprev
      · exact hbounded.unacked_le
    · simp only [Server.startBurst, ThConfig.backOff]
      split
      · exact fun _ => hinside
      · exact hbounded.unacked_inside

theorem Server.Bounded.receiveAck
    (hbounded : server.Bounded largest) (wait : AckWait) (ack : Ack)
    (tv : Timeval) :
    (server.receiveAck wait ack tv).Bounded (max largest ack.seq) := by
  have hnonneg : 0 ≤ max largest ack.seq :=
    hbounded.largest_nonneg.trans (le_max_left _ _)
  have hunacked : server.config.lastUnackedSeq ≤ max largest ack.seq :=
    hbounded.unacked_le.trans (le_max_left _ _)
  have hnone : (-1 : ℤ) ≤ max largest ack.seq := by omega
  rcases server.receiveAck_cases wait ack tv with
    ⟨_, heq⟩ | ⟨_, _, heq⟩ | ⟨_, _, _, heq⟩ | ⟨_, _, _, heq⟩
  · rw [heq]
    exact ⟨hnonneg, hnone, fun hdue => absurd rfl hdue,
      hbounded.seqNum_le⟩
  · rw [heq]
    exact ⟨hnonneg, hnone, fun hdue => absurd rfl hdue,
      hbounded.seqNum_le⟩
  · rw [heq]
    apply Server.Bounded.ackTimeout
    · exact ⟨hnonneg, hunacked, hbounded.unacked_inside,
        hbounded.seqNum_le⟩
    · rw [wait.count_prevSeqNum]
      exact le_max_right _ _
  · rw [heq]
    exact ⟨hnonneg, hunacked, hbounded.unacked_inside,
      hbounded.seqNum_le⟩

/-- What the next datagram of the file is at a timeout which knows the
largest number. -/
theorem Server.Bounded.fileSeq_backOff
    {run : ResendRun} (hbounded : run.server.Bounded run.largest)
    {wait : AckWait} (hprev : wait.prevSeqNum ≤ run.largest)
    (hinside : ¬ run.server.config.PastLast wait.prevSeqNum)
    (hknows : run.KnowsLargest wait) :
    Server.fileSeq ({ run.server with
      config := run.server.config.backOff wait } : Server).startBurst =
      run.largest := by
  have hunacked := hbounded.unacked_le
  unfold ResendRun.KnowsLargest at hknows
  split at hknows
  next hheard =>
    rw [Server.fileSeq_backOff_heard hheard hinside]
    omega
  next hsilent =>
    rw [Server.fileSeq_backOff (not_not.mp hsilent)]
    split at hknows
    next hdue =>
      have hnext : run.server.nextSeq =
          run.server.config.lastUnackedSeq := if_pos hdue
      rw [Server.fileSeq_eq_nextSeq, hnext]
      · omega
      · rw [hnext]
        exact hbounded.unacked_inside hdue
    next hnone =>
      have hnext : run.server.nextSeq = run.server.seqNum + 1 :=
        if_neg hnone
      have hbehind := hbounded.seqNum_le
      unfold ResendRun.Settled at hknows
      unfold Server.fileSeq
      rw [hnext]
      split at hknows
      next hsent =>
        -- the last packet goes out again
        obtain ⟨hset, hat⟩ := hsent
        rw [if_pos ⟨by omega, hset⟩]
        omega
      next hmore =>
        unfold Server.SentLast at hmore
        split <;> omega

end Bounded

/-! ## Steps and runs -/

/-- In a burst the next datagram of the file is the one which is owed. -/
structure ResendRun.Sound (run : ResendRun) : Prop where
  regular : run.server.Regular
  bounded : run.server.Bounded run.largest
  prev_le : ∀ wait, run.server.point = .waiting wait →
    wait.prevSeqNum ≤ run.largest
  owed_le : ∀ owed ∈ run.owed, owed ≤ run.largest
  owed : ∀ packetCount cwnd rwnd,
    run.server.point = .sending packetCount cwnd rwnd →
    run.server.config.isEOF ≠ 1 →
      ∀ owed ∈ run.owed, run.server.fileSeq = owed

theorem ResendRun.Sound.receive
    {run : ResendRun} (hsound : run.Sound) {wait : AckWait}
    (hpoint : run.server.point = .waiting wait) {ack : Ack}
    {tv : Timeval} (hheard : HeardLargest run (.receive ack tv))
    {packetCount : ℕ} {cwnd rwnd : ℤ}
    (hsending : (run.server.receiveAck wait ack tv).point =
      .sending packetCount cwnd rwnd)
    (hrunning : (run.server.receiveAck wait ack tv).config.isEOF ≠ 1) :
    ∀ owed ∈ run.owed,
      (run.server.receiveAck wait ack tv).fileSeq = owed := by
  have hexpected := hsound.regular.expected wait hpoint
  have hcase := hheard wait (ServerPoint.mem_wait?_iff.mpr hpoint)
  have hcases := run.server.receiveAck_cases wait ack tv
  rw [ThConfig.ackPastLast_iff hsound.regular.numbered.last_ge] at hcases
  intro owed howed
  rcases hcases with
    ⟨_, heq⟩ | ⟨hlast, hseq, heq⟩ | ⟨hlast, _, hfast, heq⟩ | ⟨_, _, _, heq⟩
  · rw [heq] at hrunning
    exact absurd rfl hrunning
  · rw [hcase (.inl hseq) hlast owed howed, heq]
    have hnext : Server.nextSeq (Server.ackDone { run.server with
        config := run.server.config.heard ack } ack tv) = ack.seq := by
      simp only [Server.nextSeq, Server.ackDone, Server.startBurst]
      omega
    rw [Server.fileSeq_eq_nextSeq, hnext]
    rw [hnext]
    exact hlast
  · rw [hcase (.inr hfast) hlast owed howed]
    have hasked := wait.count_prevSeqNum ack
    rw [heq] at hsending ⊢
    rcases Server.ackTimeout_cases { run.server with
        config := run.server.config.heard ack } (wait.count ack) with
      ⟨hpast, _⟩ | ⟨_, _, hup⟩ | ⟨hinside, _, hback⟩
    · rw [hasked] at hpast
      exact absurd hpast hlast
    · rw [hup] at hsending
      cases hsending
    · rw [hback, ← hasked]
      exact Server.fileSeq_backOff_heard (by omega) hinside
  · rw [heq] at hsending
    cases hsending

theorem ResendRun.Sound.timeout
    {run : ResendRun} (hsound : run.Sound) {wait : AckWait}
    (hpoint : run.server.point = .waiting wait)
    (hheard : HeardLargest run .timeout)
    {packetCount : ℕ} {cwnd rwnd : ℤ}
    (hsending : (run.server.ackTimeout wait).point =
      .sending packetCount cwnd rwnd)
    (hrunning : (run.server.ackTimeout wait).config.isEOF ≠ 1) :
    (run.server.ackTimeout wait).fileSeq = run.largest ∧
      ∀ owed ∈ run.owed, owed = run.largest := by
  have hcase := hheard wait (ServerPoint.mem_wait?_iff.mpr hpoint)
  rcases run.server.ackTimeout_cases wait with
    ⟨_, heq⟩ | ⟨_, _, heq⟩ | ⟨hinside, _, heq⟩
  · rw [heq] at hrunning
    exact absurd rfl hrunning
  · rw [heq] at hsending
    cases hsending
  · obtain ⟨hknows, hsame⟩ := hcase hinside
    refine ⟨?_, ?_⟩
    · rw [heq]
      exact hsound.bounded.fileSeq_backOff (hsound.prev_le wait hpoint)
        hinside hknows
    · intro owed howed
      exact le_antisymm (hsound.owed_le owed howed) (hsame owed howed)

theorem ResendRun.next_of_step
    {words : List String} {run next : ResendRun} {event : ServerEvent}
    (hstep : run.step words event = some next) :
    run.server.next words event = some next.server := by
  cases event with
  | send tvTs tvInit =>
      simp only [ResendRun.step, Option.map_eq_some_iff] at hstep
      rcases hstep with ⟨sent, hsend, rfl⟩
      simp only [Server.next, hsend, Option.map_some]
  | receive ack tv =>
      simp only [ResendRun.step, Option.map_eq_some_iff] at hstep
      rcases hstep with ⟨server, hserver, rfl⟩
      exact hserver
  | timeout =>
      simp only [ResendRun.step, Option.map_eq_some_iff] at hstep
      rcases hstep with ⟨server, hserver, rfl⟩
      exact hserver

theorem ResendRun.Sound.send
    {words : List String} {run : ResendRun} (hsound : run.Sound)
    {tvTs tvInit : Timeval} {sent : Server × Option Datagram}
    (hsend : run.server.send words tvTs tvInit = some sent)
    (hregular : sent.1.Regular) :
    ResendRun.Sound { run with
      server := sent.1
      owed := if sent.2.any Datagram.isFile then [] else run.owed } := by
  rcases Server.send_cases hsend with hpacket | rfl
  · rcases hpacket with ⟨packetCount, cwnd, rwnd, _, _, _, rfl⟩
    have hfile : (some (run.server.sendPacket words packetCount cwnd rwnd
        tvTs tvInit).2).any Datagram.isFile = true :=
      Server.sendPacket_isFile words run.server packetCount cwnd rwnd tvTs
        tvInit
    refine ⟨hregular, hsound.bounded.sendPacket words _ _ _ _ _,
      (fun _ hwait => by cases hwait), ?_, ?_⟩
    · intro owed howed
      simp [hfile] at howed
    · intro _ _ _ _ _ owed howed
      simp [hfile] at howed
  · have hbounded := hsound.bounded
    have hnonneg := hbounded.largest_nonneg
    refine ⟨hregular, ⟨hnonneg, ?_, ?_, ?_⟩, ?_, ?_, ?_⟩
    · simpa using hbounded.unacked_le
    · simpa using hbounded.unacked_inside
    · simpa using hbounded.seqNum_le
    · intro wait hwait
      dsimp only at hwait ⊢
      rw [Server.endBurst_point] at hwait
      split at hwait
      · cases hwait
      · cases hwait
        dsimp only
        omega
    · intro owed howed
      dsimp only at howed ⊢
      split at howed
      · cases howed
      · exact hsound.owed_le owed howed
    · intro packetCount cwnd rwnd hsending
      dsimp only at hsending
      rw [Server.endBurst_point] at hsending
      split at hsending <;> cases hsending

/-- The last number of a wait which goes on is the one just heard. -/
theorem Server.prevSeqNum_receiveAck
    {server : Server} {wait other : AckWait} {ack : Ack} {tv : Timeval}
    (hpoint : (server.receiveAck wait ack tv).point = .waiting other) :
    other.prevSeqNum = ack.seq := by
  rcases server.receiveAck_cases wait ack tv with
    ⟨_, heq⟩ | ⟨_, _, heq⟩ | ⟨_, _, _, heq⟩ | ⟨_, _, _, heq⟩
  · rw [heq] at hpoint
    cases hpoint
  · rw [heq] at hpoint
    cases hpoint
  · rw [heq] at hpoint
    exact absurd hpoint (Server.ackTimeout_not_waiting _ _ other)
  · rw [heq] at hpoint
    cases hpoint
    exact wait.count_prevSeqNum ack

theorem ResendRun.Sound.afterReceive
    {run : ResendRun} (hsound : run.Sound) {wait : AckWait}
    (hpoint : run.server.point = .waiting wait) {ack : Ack}
    {tv : Timeval} (hheard : HeardLargest run (.receive ack tv))
    (hregular : (run.server.receiveAck wait ack tv).Regular) :
    ResendRun.Sound { run with
      server := run.server.receiveAck wait ack tv
      largest := max run.largest ack.seq } := by
  refine ⟨hregular, hsound.bounded.receiveAck wait ack tv, ?_, ?_, ?_⟩
  · intro other hother
    rw [Server.prevSeqNum_receiveAck hother]
    exact le_max_right _ _
  · intro owed howed
    exact (hsound.owed_le owed howed).trans (le_max_left _ _)
  · intro packetCount cwnd rwnd hsending hrunning
    exact hsound.receive hpoint hheard hsending hrunning

theorem ResendRun.Sound.afterTimeout
    {run : ResendRun} (hsound : run.Sound) {wait : AckWait}
    (hpoint : run.server.point = .waiting wait)
    (hheard : HeardLargest run .timeout)
    (hregular : (run.server.ackTimeout wait).Regular) :
    ResendRun.Sound { run with
      server := run.server.ackTimeout wait
      owed :=
        if (run.server.ackTimeout wait).config.isEOF = 1 then run.owed
        else run.largest :: run.owed } := by
  have hprev := hsound.prev_le wait hpoint
  refine ⟨hregular, hsound.bounded.ackTimeout hprev, ?_, ?_, ?_⟩
  · intro other hother
    exact absurd hother (Server.ackTimeout_not_waiting _ _ other)
  · intro owed howed
    dsimp only at howed ⊢
    split at howed
    · exact hsound.owed_le owed howed
    · rcases List.mem_cons.mp howed with rfl | hold
      · exact le_rfl
      · exact hsound.owed_le owed hold
  · intro packetCount cwnd rwnd hsending hrunning
    rcases hsound.timeout hpoint hheard hsending hrunning with
      ⟨hlargest, hothers⟩
    intro owed howed
    dsimp only at hrunning howed ⊢
    rw [if_neg hrunning, List.mem_cons] at howed
    rcases howed with rfl | howed
    · exact hlargest
    · rw [hothers owed howed]
      exact hlargest

theorem ResendRun.Sound.step
    {words : List String} {run next : ResendRun} {event : ServerEvent}
    (hsound : run.Sound) (hheard : HeardLargest run event)
    (hstep : run.step words event = some next) :
    next.Sound := by
  have hregular := hsound.regular.next (ResendRun.next_of_step hstep)
  cases event with
  | send tvTs tvInit =>
      simp only [ResendRun.step, Option.map_eq_some_iff] at hstep
      rcases hstep with ⟨sent, hsend, rfl⟩
      exact hsound.send hsend hregular
  | receive ack tv =>
      simp only [ResendRun.step, Option.map_eq_some_iff] at hstep
      rcases hstep with ⟨server, hserver, rfl⟩
      cases Server.moves_of_next hserver with
      | receive hpoint => exact hsound.afterReceive hpoint hheard hregular
  | timeout =>
      simp only [ResendRun.step, Option.map_eq_some_iff] at hstep
      rcases hstep with ⟨server, hserver, rfl⟩
      cases Server.moves_of_next hserver with
      | timeout hpoint => exact hsound.afterTimeout hpoint hheard hregular

theorem ResendRun.sound_of_reachable
    {words : List String} {run : ResendRun}
    (hreach : Transition.Reachable (ResendRun.step words) HeardLargest
      ResendRun.Initial run) :
    run.Sound := by
  refine hreach.invariant ResendRun.Sound ?_ ?_
  · rintro start ⟨server, hserver, rfl⟩
    have hregular := hserver.regular
    rcases hserver with ⟨config, qObj, rwnd, rfl⟩
    refine ⟨hregular, ⟨le_rfl, ?_, ?_, ?_⟩, ?_, ?_, ?_⟩
    · change (-1 : ℤ) ≤ 0
      omega
    · exact fun hdue => absurd rfl hdue
    · exact fun hset => absurd rfl hset
    · exact fun _ hwait => by cases hwait
    · intro owed howed
      cases howed
    · intro _ _ _ _ _ owed howed
      cases howed
  · intro run event next hsound hheard hstep
    exact hsound.step hheard hstep

/-- The next datagram of the file is the oldest which was unacknowledged at
the timeout. -/
theorem timeout_resendsLargest
    {words : List String} {run : ResendRun}
    (hreach : Transition.Reachable (ResendRun.step words) HeardLargest
      ResendRun.Initial run)
    {tvTs tvInit : Timeval} {next : Server} {datagram : Datagram}
    (hsend : run.server.send words tvTs tvInit =
      some (next, some datagram))
    (hfile : datagram.isFile = true) :
    ∀ owed ∈ run.owed, (datagram.config.seq : ℤ) = owed := by
  have hsound := ResendRun.sound_of_reachable hreach
  rcases Server.send_cases hsend with hpacket | hend
  · rcases hpacket with ⟨packetCount, cwnd, rwnd, hpoint, _, heof, hsent⟩
    simp only [Prod.mk.injEq, Option.some.injEq] at hsent
    intro owed howed
    rw [hsent.2, hsound.regular.numbered.sendPacket_seq]
    exact hsound.owed packetCount cwnd rwnd hpoint heof owed howed
  · unfold Server.endBurst at hend
    split_ifs at hend
    · simp at hend
    · simp only [Prod.mk.injEq, Option.some.injEq] at hend
      rw [hend.2] at hfile
      simp [Server.pingDatagram, Datagram.isFile] at hfile
    · simp at hend

/-! ## A file of two words -/

theorem freshResend_initial (rwnd : ℤ) :
    ResendRun.Initial ⟨freshServer rwnd, 0, []⟩ :=
  ⟨_, freshServer_initial rwnd, rfl⟩

/-- The number of the datagram of the file which is sent next. -/
def ResendRun.sends (words : List String) (run : ResendRun) : Option ℕ :=
  (run.server.send words midnight midnight).bind fun sent =>
    sent.2.bind fun datagram =>
      if datagram.isFile then some datagram.config.seq else none

theorem ResendRun.exists_of_sends
    {words : List String} {run : ResendRun} {seq : ℕ}
    (hsends : run.sends words = some seq) :
    ∃ next datagram, run.server.send words midnight midnight =
        some (next, some datagram) ∧
      datagram.isFile = true ∧ datagram.config.seq = seq := by
  simp only [ResendRun.sends, Option.bind_eq_some_iff,
    Option.ite_none_right_eq_some, Option.some.injEq] at hsends
  rcases hsends with ⟨⟨next, sent⟩, hsend, datagram, hdatagram, hfile, hseq⟩
  dsimp only at hdatagram
  subst hdatagram
  exact ⟨next, datagram, hsend, hfile, hseq⟩

/-- The second datagram is lost; its number is asked for once more before the
timeout and sent again after it. -/
theorem timeout_resendsLargest_afterAck :
    ∃ run, Transition.Reachable (ResendRun.step ["a", "b"]) HeardLargest
        ResendRun.Initial run ∧
      run.owed = [1] ∧
      ∃ next datagram, run.server.send ["a", "b"] midnight midnight =
          some (next, some datagram) ∧
        datagram.isFile = true ∧ (datagram.config.seq : ℤ) = 1 := by
  obtain ⟨run, hreach, htest⟩ :=
    Transition.exists_reachable_of_replay (ResendRun.step ["a", "b"])
      HeardLargest (freshResend_initial 2)
      [.send midnight midnight, .send midnight midnight,
        .receive ⟨1, 0, 2⟩ midnight, .send midnight midnight,
        .send midnight midnight, .send midnight midnight,
        .receive ⟨1, 0, 2⟩ midnight, .timeout]
      (fun run => decide (run.owed = [1]) &&
        (run.sends ["a", "b"]).isSome)
      (by decide +kernel)
  simp only [Bool.and_eq_true, decide_eq_true_eq,
    Option.isSome_iff_exists] at htest
  rcases htest with ⟨howed, seq, hsends⟩
  rcases ResendRun.exists_of_sends hsends with
    ⟨next, datagram, hsend, hfile, _⟩
  refine ⟨run, hreach, howed, next, datagram, hsend, hfile, ?_⟩
  refine timeout_resendsLargest hreach hsend hfile 1 ?_
  rw [howed]
  exact List.mem_singleton_self 1

/-- The first datagram is lost, and without any acknowledgement the timeout is
followed by the second one. -/
theorem timeout_skipsLost :
    ∃ run next datagram,
      Transition.Reachable (ResendRun.step ["a", "b"])
        Transition.Unrestricted ResendRun.Initial run ∧
      run.largest = 0 ∧ run.owed = [0] ∧
      run.server.send ["a", "b"] midnight midnight =
        some (next, some datagram) ∧
      datagram.isFile = true ∧ datagram.config.seq = 1 := by
  obtain ⟨run, hreach, htest⟩ :=
    Transition.exists_reachable_of_replay (ResendRun.step ["a", "b"])
      Transition.Unrestricted (freshResend_initial 1)
      [.send midnight midnight, .send midnight midnight, .timeout]
      (fun run => decide (run.largest = 0) && decide (run.owed = [0]) &&
        decide (run.sends ["a", "b"] = some 1))
      (by decide +kernel)
  simp only [Bool.and_eq_true, decide_eq_true_eq] at htest
  rcases htest with ⟨⟨hlargest, howed⟩, hsends⟩
  rcases ResendRun.exists_of_sends hsends with
    ⟨next, datagram, hsend, hfile, hseq⟩
  exact ⟨run, next, datagram, hreach, hlargest, howed, hsend, hfile, hseq⟩

end NetworkProgramming.Transfer
