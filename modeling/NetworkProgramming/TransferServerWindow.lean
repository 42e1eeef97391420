import NetworkProgramming.TransferSystem

/-!
# The server and the window of the last acknowledgement

The server alone, with arbitrary acknowledgements.  A burst sends at most
`rwnd` datagrams and starts at the number which the last acknowledgement asks
for, with one exception: after a wait which ended by a timeout and heard no
acknowledgement, the next datagram is a new one, behind those which are still
outstanding.
-/

namespace NetworkProgramming.Transfer

/-- The server with the two fields of the acknowledgement which
`receive_ack` received last. -/
structure ServerRun where
  server : Server
  ackSeq : ℤ
  ackRwnd : ℤ
  deriving DecidableEq

inductive ServerEvent where
  | send (tvTs tvInit : Timeval)
  | receive (ack : Ack) (tv : Timeval)
  | timeout
  deriving DecidableEq

def ServerRun.step (words : List String) (run : ServerRun) :
    ServerEvent → Option ServerRun
  | .send tvTs tvInit =>
      (run.server.send words tvTs tvInit).map fun sent =>
        { run with server := sent.1 }
  | .receive ack tv =>
      match run.server.point with
      | .waiting wait =>
          some ⟨run.server.receiveAck wait ack tv, ack.seq, ack.rwnd⟩
      | _ => none
  | .timeout =>
      match run.server.point with
      | .waiting wait =>
          some { run with server := run.server.ackTimeout wait }
      | _ => none

/-- Before any acknowledgement the window is the configured one. -/
def ServerRun.Initial (run : ServerRun) : Prop :=
  ∃ config qObj rwnd, run = ⟨Server.start config qObj rwnd, 0, rwnd⟩

/-- A wait without any acknowledgement times out only when a retransmission
is due, the window is closed, or the window still has room for the next
number. -/
def LeavesRoom (run : ServerRun) : ServerEvent → Prop
  | .send _ _ => True
  | .receive _ _ => True
  | .timeout =>
      match run.server.point with
      | .waiting wait => wait.prevSeqNum = -1 →
          run.server.config.lastUnackedSeq = -1 →
          0 < run.server.config.rwnd →
          run.server.seqNum + 1 < run.ackSeq + run.ackRwnd
      | _ => True

/-- The number of the next datagram, if it is not beyond the last packet. -/
def Server.nextSeq (server : Server) : ℤ :=
  if server.config.lastUnackedSeq ≠ -1 then server.config.lastUnackedSeq
  else server.seqNum + 1

/-! ## One datagram -/

structure Server.Numbered (server : Server) : Prop where
  seqNum_ge : -1 ≤ server.seqNum
  unacked_ge : -1 ≤ server.config.lastUnackedSeq
  last_ge : -1 ≤ server.config.lastPackSeqNo

theorem Server.Numbered.nextSeq_nonneg
    {server : Server} (hserver : server.Numbered) :
    0 ≤ server.nextSeq := by
  have hseq := hserver.seqNum_ge
  have hunacked := hserver.unacked_ge
  unfold Server.nextSeq
  split <;> omega

/-- The word which is loaded has the next number, and no retransmission is
due after it. -/
structure Loaded.Follows (loaded : Loaded) (server : Server) : Prop where
  seqNum : loaded.seqNum = server.nextSeq
  unacked : loaded.config.lastUnackedSeq = -1
  last_ge : -1 ≤ loaded.config.lastPackSeqNo
  rwnd : loaded.config.rwnd = server.config.rwnd
  isEOF : loaded.config.isEOF = server.config.isEOF

theorem Server.Numbered.load
    {server : Server} (hserver : server.Numbered) (words : List String)
    (tv : Timeval) :
    (server.load words tv).Follows server := by
  have hseq := hserver.seqNum_ge
  unfold Server.load
  by_cases hunacked : server.config.lastUnackedSeq ≠ -1
  · rw [if_pos hunacked]
    refine ⟨?_, rfl, hserver.last_ge, rfl, rfl⟩
    rw [Server.nextSeq, if_pos hunacked]
    rfl
  · rw [if_neg hunacked]
    have hnone : server.config.lastUnackedSeq = -1 :=
      not_not.mp hunacked
    constructor
    · rw [Server.nextSeq, if_neg hunacked]
      rfl
    · simp only [Server.loadNext]
      split <;> exact hnone
    · simp only [Server.loadNext]
      split
      · simp only
        omega
      · exact hserver.last_ge
    · simp only [Server.loadNext]
      split <;> rfl
    · simp only [Server.loadNext]
      split <;> rfl

/-- What one datagram of a burst does. -/
structure Server.Sends (server next : Server) (datagram : Datagram) :
    Prop where
  numbered : next.Numbered
  seq : (datagram.config.seq : ℤ) = next.seqNum
  seqNum_le : next.seqNum ≤ server.nextSeq
  unacked : next.config.lastUnackedSeq = -1
  rwnd : next.config.rwnd = server.config.rwnd
  isEOF : next.config.isEOF = server.config.isEOF

theorem Loaded.Follows.finish_config
    {loaded : Loaded} {server : Server} (hloaded : loaded.Follows server)
    (tv : Timeval) :
    (loaded.finish tv).1.lastUnackedSeq = -1 ∧
      (loaded.finish tv).1.lastPackSeqNo = loaded.config.lastPackSeqNo ∧
      (loaded.finish tv).1.rwnd = server.config.rwnd ∧
      (loaded.finish tv).1.isEOF = server.config.isEOF := by
  have hunacked := hloaded.unacked
  have hrwnd := hloaded.rwnd
  have heof := hloaded.isEOF
  simp only [Loaded.finish]
  split
  · exact ⟨hunacked, rfl, hrwnd, heof⟩
  · exact ⟨hunacked, rfl, hrwnd, heof⟩

theorem Loaded.Follows.finish_seqNum
    {loaded : Loaded} {server : Server} (hloaded : loaded.Follows server)
    (hnext : 0 ≤ server.nextSeq) (tv : Timeval) :
    0 ≤ (loaded.finish tv).2.1 ∧
      (loaded.finish tv).2.1 ≤ server.nextSeq := by
  have hseq := hloaded.seqNum
  have hlast := hloaded.last_ge
  simp only [Loaded.finish]
  split <;> omega

theorem Server.Numbered.sendPacket
    {server : Server} (hserver : server.Numbered) (words : List String)
    (packetCount : ℕ) (cwnd rwnd : ℤ) (tvTs tvInit : Timeval) :
    server.Sends
      (server.sendPacket words packetCount cwnd rwnd tvTs tvInit).1
      (server.sendPacket words packetCount cwnd rwnd tvTs tvInit).2 := by
  have hloaded := hserver.load words tvTs
  have hseq := hloaded.finish_seqNum hserver.nextSeq_nonneg tvInit
  rcases hloaded.finish_config tvInit with ⟨hunacked, hlast, hrwnd, heof⟩
  have hlast_ge := hloaded.last_ge
  constructor
  · constructor
    · simp only [Server.sendPacket]
      omega
    · simp only [Server.sendPacket]
      omega
    · simp only [Server.sendPacket]
      omega
  · exact toUint32_of_nonneg hseq.1
  · exact hseq.2
  · exact hunacked
  · exact hrwnd
  · exact heof

/-! ## The invariant -/

/-- A retransmission which is due is the one asked for last. -/
def ServerRun.Due (run : ServerRun) : Prop :=
  run.server.config.lastUnackedSeq = -1 ∨
    run.server.config.lastUnackedSeq = run.ackSeq

/-- In a burst the datagrams which are still to be sent fit into the window;
a wait knows the last acknowledgement if it heard one. -/
def ServerRun.AtPoint (run : ServerRun) : ServerPoint → Prop
  | .sending packetCount cwnd rwnd => run.Due ∧
      ((packetCount : ℤ) < min cwnd rwnd →
        run.server.nextSeq + (min cwnd rwnd - packetCount) ≤
          run.ackSeq + run.ackRwnd)
  | .waiting wait => wait.expectedSeqNum = run.server.seqNum + 1 ∧
      (wait.prevSeqNum = -1 ∧ run.Due ∨ wait.prevSeqNum = run.ackSeq)
  | .returned => True
  | .gaveUp => True

structure ServerRun.InWindow (run : ServerRun) : Prop where
  numbered : run.server.Numbered
  ackSeq_ge : 0 ≤ run.ackSeq
  rwnd : run.server.config.isEOF ≠ 1 →
    run.server.config.rwnd = run.ackRwnd
  point : run.server.config.isEOF ≠ 1 → run.AtPoint run.server.point
  running : ∀ wait, run.server.point = .waiting wait →
    run.server.config.isEOF ≠ 1

theorem ServerRun.Initial.inWindow
    {run : ServerRun} (hinit : run.Initial) :
    run.InWindow := by
  rcases hinit with ⟨config, qObj, rwnd, rfl⟩
  constructor
  · constructor <;> simp [Server.start]
  · exact le_rfl
  · intro _
    rfl
  · intro _
    refine ⟨.inl rfl, ?_⟩
    simp only [Server.start, Server.nextSeq]
    omega
  · intro wait hwait
    cases hwait

theorem ServerRun.InWindow.sendPacket
    {run : ServerRun} (hrun : run.InWindow) {packetCount : ℕ}
    {cwnd rwnd : ℤ}
    (hpoint : run.server.point = .sending packetCount cwnd rwnd)
    (hcount : (packetCount : ℤ) < min cwnd rwnd)
    (heof : run.server.config.isEOF ≠ 1) (words : List String)
    (tvTs tvInit : Timeval) :
    ({ run with server := (run.server.sendPacket words packetCount cwnd
        rwnd tvTs tvInit).1 } : ServerRun).InWindow := by
  have hsends := hrun.numbered.sendPacket words packetCount cwnd rwnd
    tvTs tvInit
  have hat := hrun.point heof
  rw [hpoint] at hat
  have hroom := hat.2 hcount
  have hle := hsends.seqNum_le
  have hunacked := hsends.unacked
  constructor
  · exact hsends.numbered
  · exact hrun.ackSeq_ge
  · intro _
    exact hsends.rwnd.trans (hrun.rwnd heof)
  · intro _
    refine ⟨.inl hunacked, ?_⟩
    intro hmore
    rw [Server.nextSeq, if_neg (not_not.mpr hunacked)]
    push_cast at hmore ⊢
    omega
  · intro wait hwait
    cases hwait

theorem ServerRun.InWindow.endBurst
    {run : ServerRun} (hrun : run.InWindow) {packetCount : ℕ}
    {cwnd rwnd : ℤ}
    (hpoint : run.server.point = .sending packetCount cwnd rwnd) :
    ({ run with server := run.server.endBurst.1 } : ServerRun).InWindow := by
  unfold Server.endBurst
  by_cases heof : run.server.config.isEOF = 1
  · rw [if_pos heof]
    exact ⟨⟨hrun.numbered.seqNum_ge, hrun.numbered.unacked_ge,
      hrun.numbered.last_ge⟩, hrun.ackSeq_ge, hrun.rwnd,
      fun _ => trivial, fun wait hwait => by cases hwait⟩
  · have hat := hrun.point heof
    rw [hpoint] at hat
    have hdue : run.Due := hat.1
    rw [if_neg heof]
    split
    · exact ⟨⟨hrun.numbered.seqNum_ge, hrun.numbered.unacked_ge,
        hrun.numbered.last_ge⟩, hrun.ackSeq_ge, hrun.rwnd,
        fun _ => ⟨rfl, .inl ⟨rfl, hdue⟩⟩, fun _ _ => heof⟩
    · exact ⟨⟨hrun.numbered.seqNum_ge, hrun.numbered.unacked_ge,
        hrun.numbered.last_ge⟩, hrun.ackSeq_ge, hrun.rwnd,
        fun _ => ⟨rfl, .inl ⟨rfl, hdue⟩⟩, fun _ _ => heof⟩

/-- A new burst, with a window which has room for it. -/
theorem Server.Numbered.inWindow_startBurst
    {server : Server} (hnumbered : server.Numbered)
    {ackSeq ackRwnd : ℤ} (hack : 0 ≤ ackSeq)
    (hrwnd : server.config.rwnd = ackRwnd)
    (hdue : server.config.lastUnackedSeq = -1 ∨
      server.config.lastUnackedSeq = ackSeq)
    (hroom : 0 < min server.config.cwnd ackRwnd →
      server.nextSeq + min server.config.cwnd ackRwnd ≤
        ackSeq + ackRwnd) :
    (ServerRun.mk server.startBurst ackSeq ackRwnd).InWindow := by
  subst hrwnd
  refine ⟨⟨hnumbered.seqNum_ge, hnumbered.unacked_ge,
    hnumbered.last_ge⟩, hack, fun _ => rfl, fun _ => ⟨hdue, ?_⟩,
    fun _ hpoint => by cases hpoint⟩
  intro hopen
  have hfits := hroom (by simpa using hopen)
  change server.nextSeq + (min server.config.cwnd server.config.rwnd -
    ((0 : ℕ) : ℤ)) ≤ ackSeq + server.config.rwnd
  push_cast
  omega

theorem ServerRun.inWindow_of_eof
    {run : ServerRun} (hnumbered : run.server.Numbered)
    (hack : 0 ≤ run.ackSeq) (heof : run.server.config.isEOF = 1)
    (hpoint : ∀ wait, run.server.point ≠ .waiting wait) :
    run.InWindow :=
  ⟨hnumbered, hack, fun hne => absurd heof hne,
    fun hne => absurd heof hne, fun wait hwait => absurd hwait (hpoint wait)⟩

/-- The exit of `receive_ack` by a timeout or a fast retransmit. -/
theorem Server.Numbered.inWindow_ackTimeout
    {server : Server} (hnumbered : server.Numbered)
    {ackSeq ackRwnd : ℤ} (hack : 0 ≤ ackSeq)
    (hrwnd : server.config.rwnd = ackRwnd) {wait : AckWait}
    (hwait : wait.prevSeqNum = -1 ∧
        (server.config.lastUnackedSeq = -1 ∨
          server.config.lastUnackedSeq = ackSeq) ∨
      wait.prevSeqNum = ackSeq)
    (hroom : wait.prevSeqNum = -1 → server.config.lastUnackedSeq = -1 →
      0 < server.config.rwnd → server.seqNum + 1 < ackSeq + ackRwnd) :
    (ServerRun.mk (server.ackTimeout wait) ackSeq ackRwnd).InWindow := by
  have hlast := hnumbered.last_ge
  unfold Server.ackTimeout
  split
  · refine ServerRun.inWindow_of_eof ?_ hack rfl ?_
    · exact ⟨hnumbered.seqNum_ge, hnumbered.unacked_ge, hlast⟩
    · intro wait hpoint
      cases hpoint
  · dsimp only
    split
    · exact ⟨⟨hnumbered.seqNum_ge, hnumbered.unacked_ge, hlast⟩, hack,
        fun _ => hrwnd, fun _ => trivial, fun _ hpoint => by cases hpoint⟩
    · rcases hwait with ⟨hnone, hdue⟩ | hheard
      · rw [if_neg (not_not.mpr hnone)]
        apply Server.Numbered.inWindow_startBurst
        · exact ⟨hnumbered.seqNum_ge, hnumbered.unacked_ge, hlast⟩
        · exact hack
        · exact hrwnd
        · exact hdue
        · intro hopen
          simp only [Server.nextSeq] at hopen ⊢
          split
          next => omega
          next hunacked =>
            have hnext := hroom hnone (not_not.mp hunacked) (by omega)
            omega
      · have hsome : wait.prevSeqNum ≠ -1 := by omega
        rw [if_pos hsome]
        apply Server.Numbered.inWindow_startBurst
        · exact ⟨hnumbered.seqNum_ge, by dsimp only; omega, hlast⟩
        · exact hack
        · exact hrwnd
        · exact .inr hheard
        · intro hopen
          simp only [Server.nextSeq, if_pos hsome] at hopen ⊢
          omega

theorem ServerRun.InWindow.receiveAck
    {run : ServerRun} (hrun : run.InWindow) {wait : AckWait}
    (hpoint : run.server.point = .waiting wait) (ack : Ack) (tv : Timeval) :
    (ServerRun.mk (run.server.receiveAck wait ack tv) ack.seq
      ack.rwnd).InWindow := by
  have hnumbered := hrun.numbered
  have heof := hrun.running wait hpoint
  have hat := hrun.point heof
  rw [hpoint] at hat
  have hexpected : wait.expectedSeqNum = run.server.seqNum + 1 := hat.1
  have hack : (0 : ℤ) ≤ ack.seq := by omega
  unfold Server.receiveAck
  dsimp only
  split
  · refine ServerRun.inWindow_of_eof ?_ hack rfl ?_
    · exact ⟨hnumbered.seqNum_ge, le_rfl, hnumbered.last_ge⟩
    · intro wait' hwait'
      cases hwait'
  · split
    next hseq =>
      apply Server.Numbered.inWindow_startBurst
      · exact ⟨hnumbered.seqNum_ge, le_rfl, hnumbered.last_ge⟩
      · exact hack
      · rfl
      · exact .inl rfl
      · intro _
        simp only [Server.nextSeq]
        omega
    next =>
      split
      next =>
        apply Server.Numbered.inWindow_ackTimeout
        · exact ⟨hnumbered.seqNum_ge, hnumbered.unacked_ge,
            hnumbered.last_ge⟩
        · exact hack
        · rfl
        · exact .inr (wait.count_prevSeqNum ack)
        · intro hnone
          rw [wait.count_prevSeqNum ack] at hnone
          omega
      next =>
        refine ⟨⟨hnumbered.seqNum_ge, hnumbered.unacked_ge,
          hnumbered.last_ge⟩, hack, fun _ => rfl, fun _ => ?_,
          fun _ _ => heof⟩
        exact ⟨(wait.count_expectedSeqNum ack).trans hexpected,
          .inr (wait.count_prevSeqNum ack)⟩

/-! ## Runs -/

theorem ServerRun.InWindow.send
    {words : List String} {run : ServerRun} (hrun : run.InWindow)
    {tvTs tvInit : Timeval} {sent : Server × Option Datagram}
    (hsend : run.server.send words tvTs tvInit = some sent) :
    ({ run with server := sent.1 } : ServerRun).InWindow := by
  cases hpoint : run.server.point with
  | sending packetCount cwnd rwnd =>
      simp only [Server.send, hpoint] at hsend
      split at hsend
      next hsends =>
        simp only [Option.some.injEq] at hsend
        subst hsend
        exact hrun.sendPacket hpoint hsends.1 hsends.2 words tvTs tvInit
      next =>
        simp only [Option.some.injEq] at hsend
        subst hsend
        exact hrun.endBurst hpoint
  | waiting => simp [Server.send, hpoint] at hsend
  | returned => simp [Server.send, hpoint] at hsend
  | gaveUp => simp [Server.send, hpoint] at hsend

theorem ServerRun.InWindow.step
    {words : List String} {run next : ServerRun} {event : ServerEvent}
    (hrun : run.InWindow) (hroom : LeavesRoom run event)
    (hstep : run.step words event = some next) :
    next.InWindow := by
  cases event with
  | send tvTs tvInit =>
      simp only [ServerRun.step, Option.map_eq_some_iff] at hstep
      rcases hstep with ⟨sent, hsend, rfl⟩
      exact hrun.send hsend
  | receive ack tv =>
      simp only [ServerRun.step] at hstep
      split at hstep
      next wait hpoint =>
        simp only [Option.some.injEq] at hstep
        subst hstep
        exact hrun.receiveAck hpoint ack tv
      next => cases hstep
  | timeout =>
      simp only [ServerRun.step] at hstep
      split at hstep
      next wait hpoint =>
        simp only [Option.some.injEq] at hstep
        subst hstep
        have heof := hrun.running wait hpoint
        have hat := hrun.point heof
        rw [hpoint] at hat
        simp only [LeavesRoom, hpoint] at hroom
        exact hrun.numbered.inWindow_ackTimeout hrun.ackSeq_ge
          (hrun.rwnd heof) hat.2 hroom
      next => cases hstep

theorem ServerRun.inWindow_of_reachable
    {words : List String} {run : ServerRun}
    (hreach : Transition.Reachable (ServerRun.step words) LeavesRoom
      ServerRun.Initial run) :
    run.InWindow :=
  hreach.invariant ServerRun.InWindow (fun _ hinit => hinit.inWindow)
    fun _ _ _ hrun hroom hstep => hrun.step hroom hstep

/-- Every datagram of the file lies in the window of the last
acknowledgement. -/
theorem sentDatagram_inWindow
    {words : List String} {run : ServerRun}
    (hreach : Transition.Reachable (ServerRun.step words) LeavesRoom
      ServerRun.Initial run)
    {tvTs tvInit : Timeval} {next : Server} {datagram : Datagram}
    (hsend : run.server.send words tvTs tvInit =
      some (next, some datagram))
    (htype : datagram.config.type = .data ∨ datagram.config.type = .eof) :
    (datagram.config.seq : ℤ) < run.ackSeq + run.ackRwnd := by
  have hrun := ServerRun.inWindow_of_reachable hreach
  rcases Server.send_cases hsend with hpacket | hend
  · rcases hpacket with ⟨packetCount, cwnd, rwnd, hpoint, hcount, heof,
      hsent⟩
    have hsends := hrun.numbered.sendPacket words packetCount cwnd rwnd
      tvTs tvInit
    simp only [Prod.mk.injEq, Option.some.injEq] at hsent
    rw [← hsent.1, ← hsent.2] at hsends
    have hat := hrun.point heof
    rw [hpoint] at hat
    have hroom := hat.2 hcount
    have hseq := hsends.seq
    have hle := hsends.seqNum_le
    omega
  · unfold Server.endBurst at hend
    split_ifs at hend
    · simp at hend
    · simp only [Prod.mk.injEq, Option.some.injEq] at hend
      rw [hend.2] at htype
      simp [Server.pingDatagram] at htype
    · simp at hend

/-! ## A file of two words -/

instance (run : ServerRun) (event : ServerEvent) :
    Decidable (LeavesRoom run event) :=
  match event with
  | .send _ _ => inferInstanceAs (Decidable True)
  | .receive _ _ => inferInstanceAs (Decidable True)
  | .timeout =>
      match hpoint : run.server.point with
      | .waiting wait =>
          decidable_of_iff (wait.prevSeqNum = -1 →
            run.server.config.lastUnackedSeq = -1 →
            0 < run.server.config.rwnd →
            run.server.seqNum + 1 < run.ackSeq + run.ackRwnd)
            (by simp [LeavesRoom, hpoint])
      | .sending _ _ _ => isTrue (by simp [LeavesRoom, hpoint])
      | .returned => isTrue (by simp [LeavesRoom, hpoint])
      | .gaveUp => isTrue (by simp [LeavesRoom, hpoint])

def midnight : Timeval :=
  ⟨0, 0⟩

def freshRun (rwnd : ℤ) : ServerRun :=
  ⟨Server.start ⟨0, 0, ⟨0, 0, 0, 0, 0, 0⟩, 0, 0, 0, 0, 0⟩ zeroDatagram
    rwnd, 0, rwnd⟩

theorem freshRun_initial (rwnd : ℤ) : (freshRun rwnd).Initial :=
  ⟨_, _, rwnd, rfl⟩

/-- The number of the datagram which the server sends next. -/
def ServerRun.sends (words : List String) (run : ServerRun) : Option ℕ :=
  (run.server.send words midnight midnight).bind fun sent =>
    sent.2.bind fun datagram =>
      if datagram.config.type = .data then some datagram.config.seq
      else none

theorem ServerRun.exists_of_sends
    {words : List String} {run : ServerRun} {seq : ℕ}
    (hsends : run.sends words = some seq) :
    ∃ next datagram, run.server.send words midnight midnight =
        some (next, some datagram) ∧
      datagram.config.type = .data ∧ datagram.config.seq = seq := by
  simp only [ServerRun.sends, Option.bind_eq_some_iff,
    Option.ite_none_right_eq_some, Option.some.injEq] at hsends
  rcases hsends with ⟨⟨next, sent⟩, hsend, datagram, hdatagram, htype, hseq⟩
  dsimp only at hdatagram
  subst hdatagram
  exact ⟨next, datagram, hsend, htype, hseq⟩

/-- With room for two datagrams a timeout without an acknowledgement is
followed by the second word. -/
theorem sentDatagram_inWindow_afterTimeout :
    ∃ run, Transition.Reachable (ServerRun.step ["a", "b"]) LeavesRoom
        ServerRun.Initial run ∧
      run.ackSeq + run.ackRwnd = 2 ∧
      ∃ next datagram, run.server.send ["a", "b"] midnight midnight =
          some (next, some datagram) ∧
        (datagram.config.seq : ℤ) < run.ackSeq + run.ackRwnd := by
  obtain ⟨run, hreach, htest⟩ :=
    Transition.exists_reachable_of_replay (ServerRun.step ["a", "b"])
      LeavesRoom (freshRun_initial 2)
      [.send midnight midnight, .send midnight midnight, .timeout]
      (fun state => decide (state.ackSeq + state.ackRwnd = 2) &&
        decide (state.sends ["a", "b"] = some 1))
      (by decide +kernel)
  simp only [Bool.and_eq_true, decide_eq_true_eq] at htest
  rcases ServerRun.exists_of_sends htest.2 with
    ⟨next, datagram, hsend, htype, _⟩
  exact ⟨run, hreach, htest.1, next, datagram, hsend,
    sentDatagram_inWindow hreach hsend (.inl htype)⟩

/-- With room for one datagram the same timeout is followed by the second
word as well, which is beyond the window. -/
theorem sentDatagram_beyondWindow :
    ∃ run next datagram,
      Transition.Reachable (ServerRun.step ["a", "b"])
        Transition.Unrestricted ServerRun.Initial run ∧
      run.server.send ["a", "b"] midnight midnight =
        some (next, some datagram) ∧
      datagram.config.type = .data ∧
      ¬ (datagram.config.seq : ℤ) < run.ackSeq + run.ackRwnd := by
  obtain ⟨run, hreach, htest⟩ :=
    Transition.exists_reachable_of_replay (ServerRun.step ["a", "b"])
      Transition.Unrestricted (freshRun_initial 1)
      [.send midnight midnight, .send midnight midnight, .timeout]
      (fun state => decide (state.ackSeq + state.ackRwnd = 1) &&
        decide (state.sends ["a", "b"] = some 1))
      (by decide +kernel)
  simp only [Bool.and_eq_true, decide_eq_true_eq] at htest
  rcases ServerRun.exists_of_sends htest.2 with
    ⟨next, datagram, hsend, htype, hseq⟩
  refine ⟨run, next, datagram, hreach, hsend, htype, ?_⟩
  rw [hseq, htest.1]
  decide

end NetworkProgramming.Transfer
