import NetworkProgramming.TransferSystem

/-!
# The file cursor and the sequence number

The position in the file always follows the sequence number: after the
datagram with number `s` the cursor stands behind word `s`, or at the end of
the file.  Hence a datagram with a number below the number of words carries
exactly that word, and the end of the file is recorded only under a number
which is at least the number of words.

`bound` is a number which no acknowledgement exceeds.  The server marks the
transfer as finished only after an acknowledgement beyond the recorded last
packet.
-/

namespace NetworkProgramming.Transfer

/-! ## Reading the file -/

theorem fscanf_position (words : List String) (fp : ℕ) (buf : String) :
    (fscanf words fp buf).1 =
      if fp < words.length then fp + 1 else fp := by
  unfold fscanf
  by_cases hfp : fp < words.length
  · simp [hfp]
  · simp [hfp]

theorem fscanf_word
    {words : List String} {fp : ℕ} (hfp : fp < words.length)
    (buf : String) :
    words[fp]? = some (fscanf words fp buf).2.1 := by
  simp [fscanf, hfp]

theorem fscanf_eof (words : List String) (fp : ℕ) (buf : String) :
    (fscanf words fp buf).2.2 = true ↔ words.length ≤ fp := by
  unfold fscanf
  by_cases hfp : fp < words.length
  · simp [hfp]
  · simp [not_lt.mp hfp]

theorem skipWords_position
    (words : List String) (count fp : ℕ) (buf : String) :
    (skipWords words count (fp, buf)).1 =
      max fp (min (fp + count) words.length) := by
  induction count generalizing fp buf with
  | zero =>
      simp only [skipWords]
      omega
  | succ count ih =>
      simp only [skipWords]
      rw [ih, fscanf_position]
      split_ifs <;> omega

theorem rescan_position (words : List String) (seq : ℕ) :
    (rescan words seq).1 = min (seq + 1) words.length := by
  simp only [rescan, fscanf_position, skipWords_position]
  split_ifs <;> omega

theorem rescan_word
    {words : List String} {seq : ℕ} (hseq : seq < words.length) :
    words[seq]? = some (rescan words seq).2 := by
  have hskip : (skipWords words seq (0, "")).1 = seq := by
    rw [skipWords_position]
    omega
  unfold rescan
  dsimp only
  rw [hskip]
  exact fscanf_word hseq _

/-! ## The server invariant -/

structure Server.InStep (words : List String) (server : Server)
    (bound : ℕ) : Prop where
  seqNum_ge : -1 ≤ server.seqNum
  cursor : (server.fp : ℤ) = min (server.seqNum + 1) words.length
  unacked_ge : -1 ≤ server.config.lastUnackedSeq
  last : server.config.lastPackSeqNo = -1 ∨
    (words.length : ℤ) ≤ server.config.lastPackSeqNo
  finished : server.config.isEOF = 1 →
    server.config.lastPackSeqNo ≠ -1 ∧ server.config.lastPackSeqNo < bound
  heard : ∀ wait, server.point = .waiting wait →
    -1 ≤ wait.prevSeqNum ∧ wait.prevSeqNum ≤ bound

theorem Server.InStep.mono
    {words : List String} {server : Server} {bound larger : ℕ}
    (hserver : server.InStep words bound) (hle : bound ≤ larger) :
    server.InStep words larger := by
  refine { hserver with finished := ?_, heard := ?_ }
  · intro heof
    have hlast := hserver.finished heof
    omega
  · intro wait hwait
    have hprev := hserver.heard wait hwait
    omega

theorem Server.start_inStep
    (words : List String) {config : ThConfig} (heof : config.isEOF = 0)
    (qObj : Datagram) (rwnd : ℤ) (bound : ℕ) :
    (Server.start config qObj rwnd).InStep words bound := by
  constructor <;> simp [Server.start, heof]

theorem Server.InStep.startBurst
    {words : List String} {server : Server} {bound : ℕ}
    (hserver : server.InStep words bound) :
    server.startBurst.InStep words bound := by
  refine { hserver with heard := ?_ }
  intro wait hwait
  simp [Server.startBurst] at hwait

/-! ## One datagram of a burst -/

/-- The facts about the chosen word which the rest of the loop body needs. -/
structure Loaded.InStep (words : List String) (loaded : Loaded) : Prop where
  seqNum_ge : 0 ≤ loaded.seqNum
  cursor : (loaded.fp : ℤ) = min (loaded.seqNum + 1) words.length
  word : loaded.seqNum < words.length →
    words[loaded.seqNum.toNat]? = some loaded.buf
  unacked_ge : -1 ≤ loaded.config.lastUnackedSeq
  last : loaded.config.lastPackSeqNo = -1 ∨
    (words.length : ℤ) ≤ loaded.config.lastPackSeqNo

theorem Server.InStep.loadRetransmit
    {words : List String} {server : Server} {bound : ℕ}
    (hserver : server.InStep words bound)
    (hunacked : server.config.lastUnackedSeq ≠ -1) :
    (server.loadRetransmit words).InStep words := by
  have hge := hserver.unacked_ge
  constructor
  · simp only [Server.loadRetransmit]
    omega
  · simp only [Server.loadRetransmit, rescan_position]
    omega
  · intro hlt
    simp only [Server.loadRetransmit] at hlt ⊢
    exact rescan_word (by omega)
  · simp [Server.loadRetransmit]
  · exact hserver.last

theorem Server.InStep.loadNext
    {words : List String} {server : Server} {bound : ℕ}
    (hserver : server.InStep words bound) (tv : Timeval) :
    (server.loadNext words tv).InStep words := by
  have hge := hserver.seqNum_ge
  have hcursor := hserver.cursor
  constructor
  · simp only [Server.loadNext]
    omega
  · simp only [Server.loadNext, fscanf_position]
    split_ifs <;> omega
  · intro hlt
    simp only [Server.loadNext] at hlt ⊢
    have hfp : (server.seqNum + 1).toNat = server.fp := by omega
    rw [hfp]
    exact fscanf_word (by omega) _
  · simp only [Server.loadNext]
    split_ifs <;> exact hserver.unacked_ge
  · simp only [Server.loadNext]
    split_ifs with hend
    · have hfp := (fscanf_eof words server.fp "").mp hend.1
      simp only
      omega
    · exact hserver.last

theorem Server.InStep.load
    {words : List String} {server : Server} {bound : ℕ}
    (hserver : server.InStep words bound) (tv : Timeval) :
    (server.load words tv).InStep words := by
  unfold Server.load
  split_ifs with hunacked
  · exact hserver.loadRetransmit hunacked
  · exact hserver.loadNext tv

theorem Server.load_isEOF
    (words : List String) (server : Server) (tv : Timeval) :
    (server.load words tv).config.isEOF = server.config.isEOF := by
  unfold Server.load Server.loadRetransmit Server.loadNext
  dsimp only
  split_ifs <;> rfl

/-- The number under which the loop body sends. -/
def Loaded.sentSeq (loaded : Loaded) : ℤ :=
  if loaded.seqNum ≥ loaded.config.lastPackSeqNo ∧
      loaded.config.lastPackSeqNo ≠ -1 then loaded.config.lastPackSeqNo
  else loaded.seqNum

theorem Loaded.finish_config
    (loaded : Loaded) (tv : Timeval) :
    (loaded.finish tv).1.lastUnackedSeq = loaded.config.lastUnackedSeq ∧
      (loaded.finish tv).1.lastPackSeqNo = loaded.config.lastPackSeqNo ∧
      (loaded.finish tv).1.isEOF = loaded.config.isEOF := by
  unfold Loaded.finish
  dsimp only
  split_ifs <;> simp

theorem Loaded.InStep.sentSeq_nonneg
    {words : List String} {loaded : Loaded}
    (hloaded : loaded.InStep words) : 0 ≤ loaded.sentSeq := by
  have hge := hloaded.seqNum_ge
  have hlast := hloaded.last
  unfold Loaded.sentSeq
  split_ifs <;> omega

theorem Server.InStep.sendPacket
    {words : List String} {server : Server} {bound : ℕ}
    (hserver : server.InStep words bound) (heof : server.config.isEOF ≠ 1)
    (packetCount : ℕ) (cwnd rwnd : ℤ) (tvTs tvInit : Timeval) :
    (server.sendPacket words packetCount cwnd rwnd tvTs
      tvInit).1.InStep words bound := by
  have hloaded := hserver.load tvTs
  have hconfig := (server.load words tvTs).finish_config tvInit
  have hsame := server.load_isEOF words tvTs
  have hcursor := hloaded.cursor
  have hlast := hloaded.last
  constructor
  · have hge := hloaded.sentSeq_nonneg
    change -1 ≤ (server.load words tvTs).sentSeq
    omega
  · change ((server.load words tvTs).fp : ℤ) =
      min ((server.load words tvTs).sentSeq + 1) words.length
    unfold Loaded.sentSeq
    split_ifs <;> omega
  · change -1 ≤ ((server.load words tvTs).finish tvInit).1.lastUnackedSeq
    rw [hconfig.1]
    exact hloaded.unacked_ge
  · change ((server.load words tvTs).finish tvInit).1.lastPackSeqNo = -1 ∨
      _ ≤ ((server.load words tvTs).finish tvInit).1.lastPackSeqNo
    rw [hconfig.2.1]
    exact hlast
  · intro hfinished
    change ((server.load words tvTs).finish tvInit).1.isEOF = 1 at hfinished
    rw [hconfig.2.2, hsame] at hfinished
    contradiction
  · intro wait hwait
    simp [Server.sendPacket] at hwait

/-- A datagram with a number below the number of words carries that word, and
an end marker has a number which is at least the number of words. -/
structure Datagram.Faithful (words : List String) (datagram : Datagram) :
    Prop where
  word : datagram.config.type = .data →
    datagram.config.seq < words.length →
      words[datagram.config.seq]? = some datagram.buf
  marker : datagram.config.type = .eof →
    words.length ≤ datagram.config.seq

theorem Server.sendPacket_seq
    {words : List String} {server : Server} {bound : ℕ}
    (hserver : server.InStep words bound)
    (packetCount : ℕ) (cwnd rwnd : ℤ) (tvTs tvInit : Timeval) :
    ((server.sendPacket words packetCount cwnd rwnd tvTs
      tvInit).2.config.seq : ℤ) = (server.load words tvTs).sentSeq :=
  toUint32_of_nonneg (hserver.load tvTs).sentSeq_nonneg

theorem Server.sendPacket_type
    (words : List String) (server : Server)
    (packetCount : ℕ) (cwnd rwnd : ℤ) (tvTs tvInit : Timeval) :
    (server.sendPacket words packetCount cwnd rwnd tvTs
      tvInit).2.config.type =
        if (server.load words tvTs).seqNum ≥
              (server.load words tvTs).config.lastPackSeqNo ∧
            (server.load words tvTs).config.lastPackSeqNo ≠ -1 then .eof
        else .data :=
  rfl

theorem Server.InStep.sendPacket_faithful
    {words : List String} {server : Server} {bound : ℕ}
    (hserver : server.InStep words bound)
    (packetCount : ℕ) (cwnd rwnd : ℤ) (tvTs tvInit : Timeval) :
    (server.sendPacket words packetCount cwnd rwnd tvTs
      tvInit).2.Faithful words := by
  have hloaded := hserver.load tvTs
  have hlast := hloaded.last
  have hseq := Server.sendPacket_seq hserver packetCount cwnd rwnd
    tvTs tvInit
  have htype := server.sendPacket_type words packetCount cwnd rwnd
    tvTs tvInit
  unfold Loaded.sentSeq at hseq
  constructor
  · intro hdata hlt
    rw [htype] at hdata
    split_ifs at hdata hseq with hend
    have hnat : (server.sendPacket words packetCount cwnd rwnd tvTs
        tvInit).2.config.seq = (server.load words tvTs).seqNum.toNat := by
      omega
    rw [hnat] at hlt ⊢
    exact hloaded.word (by omega)
  · intro hmarker
    rw [htype] at hmarker
    split_ifs at hmarker hseq with hend
    omega

/-! ## Around the burst and in `receive_ack` -/

theorem Server.InStep.enterReceiveAck
    {words : List String} {server : Server} {bound : ℕ}
    (hserver : server.InStep words bound) :
    server.enterReceiveAck.InStep words bound := by
  refine { hserver with heard := ?_ }
  intro wait hwait
  simp only [Server.enterReceiveAck, ServerPoint.waiting.injEq] at hwait
  subst hwait
  simp only
  omega

theorem Server.InStep.endBurst
    {words : List String} {server : Server} {bound : ℕ}
    (hserver : server.InStep words bound) :
    server.endBurst.1.InStep words bound := by
  unfold Server.endBurst
  split_ifs
  · refine { hserver with heard := ?_ }
    intro wait hwait
    contradiction
  · apply Server.InStep.enterReceiveAck
    exact { hserver with }
  · exact hserver.enterReceiveAck

theorem Server.endBurst_faithful
    {words : List String} {server : Server} {datagram : Datagram}
    (hsent : server.endBurst.2 = some datagram) :
    datagram.Faithful words := by
  have hping : datagram.config.type = .ping := by
    unfold Server.endBurst at hsent
    split_ifs at hsent
    simp only [Option.some.injEq] at hsent
    subst hsent
    rfl
  constructor <;> simp [hping]

theorem Server.InStep.ackTimeout
    {words : List String} {server : Server} {bound : ℕ}
    (hserver : server.InStep words bound) {wait : AckWait}
    (hwait : -1 ≤ wait.prevSeqNum ∧ wait.prevSeqNum ≤ bound) :
    (server.ackTimeout wait).InStep words bound := by
  unfold Server.ackTimeout
  dsimp only
  split_ifs with hend hgiveUp hprev
  · apply Server.InStep.startBurst
    refine { hserver with finished := ?_ }
    intro _
    exact ⟨hend.2, by simp only; omega⟩
  · refine { hserver with heard := ?_ }
    intro other hother
    contradiction
  · apply Server.InStep.startBurst
    exact { hserver with unacked_ge := hwait.1 }
  · apply Server.InStep.startBurst
    exact { hserver with }

theorem Server.InStep.ackDone
    {words : List String} {server : Server} {bound : ℕ}
    (hserver : server.InStep words bound) (ack : Ack) (tv : Timeval) :
    (server.ackDone ack tv).InStep words bound := by
  unfold Server.ackDone
  apply Server.InStep.startBurst
  exact { hserver with unacked_ge := by simp }

theorem Server.InStep.receiveAck
    {words : List String} {server : Server} {bound : ℕ}
    (hserver : server.InStep words bound) (wait : AckWait)
    {ack : Ack} (hack : ack.seq ≤ bound) (tv : Timeval) :
    (server.receiveAck wait ack tv).InStep words bound := by
  have hcount : -1 ≤ (wait.count ack).prevSeqNum ∧
      (wait.count ack).prevSeqNum ≤ bound := by
    rw [wait.count_prevSeqNum]
    omega
  unfold Server.receiveAck
  dsimp only
  split_ifs with hend hexpected hfast
  · have hpast := le_toUint32 server.config.lastPackSeqNo
    apply Server.InStep.ackDone
    refine { hserver with finished := ?_ }
    intro _
    exact ⟨hend.2, by simp only; omega⟩
  · apply Server.InStep.ackDone
    exact { hserver with }
  · apply Server.InStep.ackTimeout
    · exact { hserver with }
    · exact hcount
  · refine { hserver with heard := ?_ }
    intro other hother
    simp only [ServerPoint.waiting.injEq] at hother
    subst hother
    exact hcount

end NetworkProgramming.Transfer
