import NetworkProgramming.TransferServerCursor

/-!
# What the client has received

The cursor invariant of the server, the numbering of the client and the
contents of the network are kept together along every run.  Completion is then
sound: when the server considers the transfer finished, the client holds every
word of the file.

The end of the file is recorded only when a new packet is read.  A
retransmission reads past the end without noticing it, so the delivered
payloads are a prefix of the file only in runs without such a retransmission.
-/

namespace NetworkProgramming.Transfer

variable {rwnd : ℕ}

/-! ## The joint invariant -/

structure System.InStep (words : List String) (system : System rwnd) :
    Prop where
  server : system.server.InStep words system.client.expectedSeqNum
  client : system.client.Numbered
  acks : ∀ ack ∈ system.acks, ack.seq ≤ system.client.expectedSeqNum
  datagrams : ∀ datagram ∈ system.datagrams, datagram.Faithful words
  words_first : system.client.payloads.take words.length <+: words

theorem System.Initial.inStep
    {system : System rwnd} (hinit : system.Initial)
    (words : List String) :
    system.InStep words := by
  rcases hinit.server with ⟨config, qObj, servRwnd, heof, hserver⟩
  constructor
  · rw [hserver]
    exact Server.start_inStep words heof qObj servRwnd _
  · exact hinit.client.numbered
  · simp [hinit.acks, openingMessage]
  · simp [hinit.datagrams]
  · simp [Client.payloads, hinit.client.accepted]

theorem concat_prefix_of_getElem?
    {α : Type*} {words payloads : List α} {word : α}
    (hstart : payloads <+: words)
    (hword : words[payloads.length]? = some word) :
    payloads ++ [word] <+: words := by
  rcases hstart with ⟨rest, hrest⟩
  rw [← hrest, List.getElem?_append_right le_rfl] at hword
  cases rest with
  | nil => simp at hword
  | cons head tail =>
      simp only [Nat.sub_self, List.getElem?_cons_zero,
        Option.some.injEq] at hword
      subst hword
      exact ⟨tail, by simpa using hrest⟩

theorem take_concat_prefix_of_getElem?
    {α : Type*} {words payloads : List α} {word : α}
    (hstart : payloads.take words.length <+: words)
    (hword : payloads.length < words.length →
      words[payloads.length]? = some word) :
    (payloads ++ [word]).take words.length <+: words := by
  rcases Nat.lt_or_ge payloads.length words.length with hlt | hge
  · rw [List.take_of_length_le hlt.le] at hstart
    rw [List.take_of_length_le (by simp; omega)]
    exact concat_prefix_of_getElem? hstart (hword hlt)
  · rw [List.take_append_of_le_length hge]
    exact hstart

theorem System.InStep.clientReceive
    {words : List String} {system : System rwnd}
    (hsystem : system.InStep words) {datagram : Datagram}
    (hmem : datagram ∈ system.datagrams) :
    System.InStep words { system with
      client := (system.client.receive datagram).1
      acks := (system.client.receive datagram).2.toList ++
        system.acks } := by
  have hfaithful := hsystem.datagrams datagram hmem
  have hcases := hsystem.client.receive_cases datagram
  have hle : system.client.expectedSeqNum ≤
      (system.client.receive datagram).1.expectedSeqNum := by
    rcases hcases with hsame | ⟨entry, _, _, _, hnext⟩
    · rw [hsame.2]
    · rw [hnext]
      omega
  constructor
  · exact hsystem.server.mono hle
  · exact hsystem.client.receive datagram
  · intro ack hack
    rw [List.mem_append] at hack
    rcases hack with hnew | hold
    · exact (Client.receive_ack_seq (Option.mem_toList.mp hnew)).le
    · exact (hsystem.acks ack hold).trans hle
  · exact hsystem.datagrams
  · rcases hcases with hsame | ⟨entry, hentry, hseq, haccepted, _⟩
    · simpa [Client.payloads, hsame.1] using hsystem.words_first
    · simp only [Client.payloads, haccepted, List.map_append,
        List.map_singleton]
      apply take_concat_prefix_of_getElem? hsystem.words_first
      intro hlt
      rw [hsystem.client.length] at hlt ⊢
      unfold Datagram.entry? at hentry
      cases htype : datagram.config.type with
      | data =>
          simp only [htype, Option.some.injEq] at hentry
          subst hentry
          rw [← hseq] at hlt ⊢
          exact hfaithful.word htype hlt
      | eof =>
          have hmarker := hfaithful.marker htype
          omega
      | ping => simp [htype] at hentry
      | ack => simp [htype] at hentry

theorem System.InStep.send
    {words : List String} {system : System rwnd}
    (hsystem : system.InStep words) {tvTs tvInit : Timeval}
    {sent : Server × Option Datagram}
    (hsent : system.server.send words tvTs tvInit = some sent) :
    System.InStep words { system with
      server := sent.1
      datagrams := sent.2.toList ++ system.datagrams } := by
  have hserver := hsystem.server
  have hfaithful : sent.1.InStep words system.client.expectedSeqNum ∧
      ∀ datagram, sent.2 = some datagram → datagram.Faithful words := by
    rcases Server.send_cases hsent with
      ⟨packetCount, cwnd, rwnd, _, _, heof, heq⟩ | heq
    · subst heq
      refine ⟨hserver.sendPacket heof packetCount cwnd rwnd tvTs tvInit, ?_⟩
      intro datagram hdatagram
      simp only [Option.some.injEq] at hdatagram
      subst hdatagram
      exact hserver.sendPacket_faithful packetCount cwnd rwnd tvTs tvInit
    · subst heq
      exact ⟨hserver.endBurst, fun datagram hdatagram =>
        Server.endBurst_faithful hdatagram⟩
  refine { hsystem with server := hfaithful.1, datagrams := ?_ }
  intro datagram hmem
  rw [List.mem_append] at hmem
  rcases hmem with hnew | hold
  · exact hfaithful.2 datagram (Option.mem_toList.mp hnew)
  · exact hsystem.datagrams datagram hold

theorem System.InStep.step
    {words : List String} {system next : System rwnd}
    {event : SystemEvent} (hsystem : system.InStep words)
    (hstep : system.step words event = some next) :
    next.InStep words := by
  rcases System.step_cases hstep with
    ⟨tvTs, tvInit, sent, _, hsent, hnext⟩ |
    ⟨ack, tv, wait, _, _, hack, hnext⟩ |
    ⟨wait, _, hpoint, hnext⟩ |
    ⟨datagram, _, hmem, hnext⟩ | ⟨_, hnext⟩
  · subst hnext
    exact hsystem.send hsent
  · subst hnext
    exact { hsystem with
      server := hsystem.server.receiveAck wait (hsystem.acks ack hack) tv }
  · subst hnext
    exact { hsystem with
      server := hsystem.server.ackTimeout (hsystem.server.heard wait hpoint) }
  · subst hnext
    exact hsystem.clientReceive hmem
  · subst hnext
    exact { hsystem with client := hsystem.client.readerPass }

theorem System.inStep_of_reachable
    {words : List String} {system : System rwnd}
    (hreach : system.Reachable words) :
    system.InStep words := by
  refine hreach.invariant (System.InStep words) ?_ ?_
  · intro start hinit
    exact hinit.inStep words
  · intro state event next hstate _ hstep
    exact hstate.step hstep

/-! ## Completion -/

/-- When the server considers the transfer finished, the client has accepted
the numbers up to `words.length` at least, and the first of them carried the
words of the file. -/
theorem serverCompletion_sound
    (words : List String) {system : System rwnd}
    (hreach : system.Reachable words)
    (heof : system.server.config.isEOF = 1) :
    (words.length : ℤ) ≤ system.server.config.lastPackSeqNo ∧
      words.length + 1 ≤ system.client.accepted.length ∧
      system.client.accepted.map Accepted.seq =
        List.range system.client.accepted.length ∧
      system.client.payloads.take words.length = words := by
  have hsystem := System.inStep_of_reachable hreach
  have hfinished := hsystem.server.finished heof
  have hlast := hsystem.server.last
  have hlength := hsystem.client.length
  have hpayloads : system.client.payloads.length =
      system.client.accepted.length := by
    simp [Client.payloads]
  have hmany : words.length + 1 ≤ system.client.accepted.length := by
    omega
  refine ⟨by omega, hmany, ?_, ?_⟩
  · rw [hsystem.client.numbers, ← hlength, hpayloads]
  · apply hsystem.words_first.eq_of_length
    simp
    omega

/-- The second of three words is lost, the client drops the third, and after
the timeout the server goes back to the second. -/
theorem serverCompletion_sound_resent :
    ∃ system : System 4,
      system.server.config.isEOF = 1 ∧
        system.datagrams.map Datagram.buf =
          ["", "three", "two", "three", "two", "one"] ∧
        system.client.payloads = ["one", "two", "three", endOfFile] ∧
        system.client.payloads.take 3 = ["one", "two", "three"] := by
  obtain ⟨system, hreach, htest⟩ := Transition.exists_reachable_of_replay
    (System.step ["one", "two", "three"]) Transition.Unrestricted
    (System.fresh_initial 4 10)
    [.send ⟨0, 0⟩ ⟨0, 0⟩, .send ⟨0, 0⟩ ⟨0, 0⟩,
      .clientReceive ⟨⟨0, 0, 0, .data⟩, "one"⟩,
      .serverReceive ⟨1, 0, 3⟩ ⟨0, 0⟩,
      .send ⟨0, 0⟩ ⟨0, 0⟩, .send ⟨0, 0⟩ ⟨0, 0⟩, .send ⟨0, 0⟩ ⟨0, 0⟩,
      .clientReceive ⟨⟨2, 0, 0, .data⟩, "three"⟩,
      .serverReceive ⟨1, 0, 3⟩ ⟨0, 0⟩, .timeout,
      .send ⟨0, 0⟩ ⟨0, 0⟩, .send ⟨0, 0⟩ ⟨0, 0⟩,
      .clientReceive ⟨⟨1, 0, 0, .data⟩, "two"⟩,
      .serverReceive ⟨2, 0, 2⟩ ⟨0, 0⟩,
      .send ⟨0, 0⟩ ⟨0, 0⟩, .send ⟨0, 0⟩ ⟨0, 0⟩, .send ⟨0, 0⟩ ⟨0, 0⟩,
      .clientReceive ⟨⟨2, 0, 0, .data⟩, "three"⟩,
      .clientReceive ⟨⟨3, 0, 0, .eof⟩, ""⟩,
      .serverReceive ⟨4, 0, 0⟩ ⟨0, 0⟩]
    (fun system => decide (system.server.config.isEOF = 1) &&
      decide (system.datagrams.map Datagram.buf =
        ["", "three", "two", "three", "two", "one"]) &&
      decide (system.client.payloads =
        ["one", "two", "three", endOfFile]))
    (by decide +kernel)
  simp only [Bool.and_eq_true, decide_eq_true_eq] at htest
  obtain ⟨⟨heof, hsent⟩, hpayloads⟩ := htest
  exact ⟨system, heof, hsent, hpayloads,
    (serverCompletion_sound ["one", "two", "three"] hreach heof).2.2.2⟩

/-! ## Runs without a retransmission past the end -/

def ServerPoint.Sends (isEOF : ℤ) : ServerPoint → Prop
  | .sending packetCount cwnd rwnd =>
      (packetCount : ℤ) < min cwnd rwnd ∧ isEOF ≠ 1
  | _ => False

instance (isEOF : ℤ) (point : ServerPoint) :
    Decidable (point.Sends isEOF) :=
  match point with
  | .sending _ _ _ => inferInstanceAs (Decidable (_ ∧ _))
  | .waiting _ => inferInstanceAs (Decidable False)
  | .returned => inferInstanceAs (Decidable False)
  | .gaveUp => inferInstanceAs (Decidable False)

/-- The next datagram retransmits a number beyond the last word although the
end of the file has not been recorded. -/
def Server.RetransmitsPastEnd (words : List String) (server : Server) :
    Prop :=
  server.point.Sends server.config.isEOF ∧
    server.config.lastUnackedSeq ≠ -1 ∧
    (words.length : ℤ) ≤ server.config.lastUnackedSeq ∧
    server.config.lastPackSeqNo = -1

instance (words : List String) (server : Server) :
    Decidable (server.RetransmitsPastEnd words) :=
  inferInstanceAs (Decidable (_ ∧ _))

def NoRetransmitPastEnd (words : List String) :
    System rwnd → SystemEvent → Prop
  | system, .send _ _ => ¬ system.server.RetransmitsPastEnd words
  | _, _ => True

instance (words : List String) (system : System rwnd)
    (event : SystemEvent) :
    Decidable (NoRetransmitPastEnd words system event) :=
  match event with
  | .send _ _ => inferInstanceAs (Decidable (¬ _))
  | .serverReceive _ _ => inferInstanceAs (Decidable True)
  | .timeout => inferInstanceAs (Decidable True)
  | .clientReceive _ => inferInstanceAs (Decidable True)
  | .readerPass => inferInstanceAs (Decidable True)

/-- The sequence number never leaves the file and its end marker. -/
structure Server.Within (words : List String) (server : Server) :
    Prop where
  last_le : server.config.lastPackSeqNo ≤ words.length
  seqNum_le : server.seqNum ≤ words.length
  seqNum_lt : server.config.lastPackSeqNo = -1 →
    server.seqNum < words.length

structure Datagram.Within (words : List String) (datagram : Datagram) :
    Prop where
  data_lt : datagram.config.type = .data →
    datagram.config.seq < words.length
  eof_eq : datagram.config.type = .eof →
    datagram.config.seq = words.length

/-- The same bounds for the word chosen by the loop body: the recorded end is
the number of words, and without a record the number is a word of the
file. -/
theorem Server.Within.load
    {words : List String} {server : Server} {bound : ℕ}
    (hwithin : server.Within words) (hserver : server.InStep words bound)
    (hunacked : server.config.lastUnackedSeq ≠ -1 →
      server.config.lastPackSeqNo = -1 →
        server.config.lastUnackedSeq < words.length) (tv : Timeval) :
    (server.load words tv).config.lastPackSeqNo ≤ words.length ∧
      ((server.load words tv).config.lastPackSeqNo = -1 →
        (server.load words tv).seqNum < words.length) := by
  have hlast := hwithin.last_le
  have hlt := hwithin.seqNum_lt
  have hcursor := hserver.cursor
  unfold Server.load
  split_ifs with hretransmit
  · exact ⟨hlast, hunacked hretransmit⟩
  · have heof := fscanf_eof words server.fp ""
    simp only [Server.loadNext]
    split_ifs with hend
    · have hfp := heof.mp hend.1
      have hseq := hlt hend.2
      simp only
      omega
    · refine ⟨hlast, ?_⟩
      intro hnone
      have hseq := hlt hnone
      have hfp : ¬ words.length ≤ server.fp := by
        intro hfp
        exact hend ⟨heof.mpr hfp, hnone⟩
      omega

theorem Server.Within.sendPacket
    {words : List String} {server : Server} {bound : ℕ}
    (hwithin : server.Within words) (hserver : server.InStep words bound)
    (hunacked : server.config.lastUnackedSeq ≠ -1 →
      server.config.lastPackSeqNo = -1 →
        server.config.lastUnackedSeq < words.length)
    (packetCount : ℕ) (cwnd rwnd : ℤ) (tvTs tvInit : Timeval) :
    (server.sendPacket words packetCount cwnd rwnd tvTs
        tvInit).1.Within words ∧
      (server.sendPacket words packetCount cwnd rwnd tvTs
        tvInit).2.Within words := by
  have hload := hwithin.load hserver hunacked tvTs
  have hlast := (hserver.load tvTs).last
  have hconfig := ((server.load words tvTs).finish_config tvInit).2.1
  have hseq := Server.sendPacket_seq hserver packetCount cwnd rwnd
    tvTs tvInit
  have htype := server.sendPacket_type words packetCount cwnd rwnd
    tvTs tvInit
  have hsent : (server.load words tvTs).sentSeq ≤ words.length ∧
      ((server.load words tvTs).config.lastPackSeqNo = -1 →
        (server.load words tvTs).sentSeq < words.length) := by
    unfold Loaded.sentSeq
    split_ifs with hend
    · exact ⟨hload.1, fun hnone => absurd hnone hend.2⟩
    · refine ⟨?_, hload.2⟩
      by_cases hnone : (server.load words tvTs).config.lastPackSeqNo = -1
      · exact (hload.2 hnone).le
      · omega
  constructor
  · constructor
    · change ((server.load words tvTs).finish tvInit).1.lastPackSeqNo ≤ _
      rw [hconfig]
      exact hload.1
    · exact hsent.1
    · intro hnone
      change ((server.load words tvTs).finish
        tvInit).1.lastPackSeqNo = -1 at hnone
      rw [hconfig] at hnone
      exact hsent.2 hnone
  · unfold Loaded.sentSeq at hseq
    constructor
    · intro hdata
      rw [htype] at hdata
      split_ifs at hdata hseq with hend
      by_cases hnone : (server.load words tvTs).config.lastPackSeqNo = -1
      · have hlt := hload.2 hnone
        omega
      · omega
    · intro hmarker
      rw [htype] at hmarker
      split_ifs at hmarker hseq with hend
      omega

theorem Server.Within.endBurst
    {words : List String} {server : Server}
    (hwithin : server.Within words) :
    server.endBurst.1.Within words := by
  unfold Server.endBurst
  split_ifs <;> exact { hwithin with }

theorem Server.endBurst_within
    {words : List String} {server : Server} {datagram : Datagram}
    (hsent : server.endBurst.2 = some datagram) :
    datagram.Within words := by
  unfold Server.endBurst at hsent
  split_ifs at hsent
  simp only [Option.some.injEq] at hsent
  subst hsent
  constructor <;> simp [Server.pingDatagram]

theorem Server.Within.ackTimeout
    {words : List String} {server : Server}
    (hwithin : server.Within words) (wait : AckWait) :
    (server.ackTimeout wait).Within words := by
  unfold Server.ackTimeout
  dsimp only
  split_ifs <;> exact { hwithin with }

theorem Server.Within.receiveAck
    {words : List String} {server : Server}
    (hwithin : server.Within words) (wait : AckWait) (ack : Ack)
    (tv : Timeval) :
    (server.receiveAck wait ack tv).Within words := by
  unfold Server.receiveAck
  dsimp only
  split_ifs
  · exact { hwithin with }
  · exact { hwithin with }
  · apply Server.Within.ackTimeout
    exact { hwithin with }
  · exact { hwithin with }

structure System.Within (words : List String) (system : System rwnd) :
    Prop where
  server : system.server.Within words
  datagrams : ∀ datagram ∈ system.datagrams, datagram.Within words
  accepted : ∀ accepted ∈ system.client.accepted,
    accepted.type = .data → accepted.seq < words.length
  payloads : system.client.payloads <+: words ++ [endOfFile]

theorem System.Initial.within
    {system : System rwnd} (hinit : system.Initial)
    (words : List String) :
    system.Within words := by
  rcases hinit.server with ⟨config, qObj, servRwnd, heof, hserver⟩
  constructor
  · rw [hserver]
    constructor <;> simp [Server.start]
    all_goals omega
  · simp [hinit.datagrams]
  · simp [hinit.client.accepted]
  · simp [Client.payloads, hinit.client.accepted]

theorem System.Within.clientReceive
    {words : List String} {system : System rwnd}
    (hwithin : system.Within words) (hsystem : system.InStep words)
    {datagram : Datagram} (hmem : datagram ∈ system.datagrams)
    (acks : List Ack) :
    System.Within words { system with
      client := (system.client.receive datagram).1
      acks := acks } := by
  have hfaithful := hsystem.datagrams datagram hmem
  have hbounds := hwithin.datagrams datagram hmem
  rcases hsystem.client.receive_cases datagram with
    hsame | ⟨entry, hentry, hseq, haccepted, _⟩
  · refine { hwithin with accepted := ?_, payloads := ?_ }
    · simpa [hsame.1] using hwithin.accepted
    · simpa [Client.payloads, hsame.1] using hwithin.payloads
  · have hlength := hsystem.client.length
    have hnew : (entry.1 = .data →
          system.client.expectedSeqNum < words.length) ∧
        (words ++ [endOfFile])[system.client.expectedSeqNum]? =
          some entry.2 := by
      rw [← hseq]
      unfold Datagram.entry? at hentry
      cases htype : datagram.config.type with
      | data =>
          simp only [htype, Option.some.injEq] at hentry
          subst hentry
          have hlt := hbounds.data_lt htype
          rw [List.getElem?_append_left hlt]
          exact ⟨fun _ => hlt, hfaithful.word htype hlt⟩
      | eof =>
          simp only [htype, Option.some.injEq] at hentry
          subst hentry
          rw [hbounds.eof_eq htype]
          simp
      | ping => simp [htype] at hentry
      | ack => simp [htype] at hentry
    refine { hwithin with accepted := ?_, payloads := ?_ }
    · intro accepted hmem hdata
      rw [haccepted, List.mem_append] at hmem
      rcases hmem with hold | hlast
      · exact hwithin.accepted accepted hold hdata
      · simp only [List.mem_singleton] at hlast
        subst hlast
        exact hnew.1 hdata
    · simp only [Client.payloads, haccepted, List.map_append,
        List.map_singleton]
      apply concat_prefix_of_getElem? hwithin.payloads
      rw [hlength]
      exact hnew.2

theorem System.Within.send
    {words : List String} {system : System rwnd}
    (hwithin : system.Within words) (hsystem : system.InStep words)
    (hallowed : ¬ system.server.RetransmitsPastEnd words)
    {tvTs tvInit : Timeval} {sent : Server × Option Datagram}
    (hsent : system.server.send words tvTs tvInit = some sent) :
    System.Within words { system with
      server := sent.1
      datagrams := sent.2.toList ++ system.datagrams } := by
  have hserver := hwithin.server
  have hsides : sent.1.Within words ∧
      ∀ datagram, sent.2 = some datagram → datagram.Within words := by
    rcases Server.send_cases hsent with
      ⟨packetCount, cwnd, rwnd, hpoint, hcount, heof, heq⟩ | heq
    · have hunacked : system.server.config.lastUnackedSeq ≠ -1 →
          system.server.config.lastPackSeqNo = -1 →
            system.server.config.lastUnackedSeq < words.length := by
        intro hretransmit hnone
        by_contra hpast
        apply hallowed
        refine ⟨?_, hretransmit, by omega, hnone⟩
        simp only [ServerPoint.Sends, hpoint]
        exact ⟨hcount, heof⟩
      have hboth := hserver.sendPacket hsystem.server hunacked
        packetCount cwnd rwnd tvTs tvInit
      subst heq
      refine ⟨hboth.1, ?_⟩
      intro datagram hdatagram
      simp only [Option.some.injEq] at hdatagram
      subst hdatagram
      exact hboth.2
    · subst heq
      exact ⟨hserver.endBurst, fun datagram hdatagram =>
        Server.endBurst_within hdatagram⟩
  refine { hwithin with server := hsides.1, datagrams := ?_ }
  intro datagram hmem
  rw [List.mem_append] at hmem
  rcases hmem with hnew | hold
  · exact hsides.2 datagram (Option.mem_toList.mp hnew)
  · exact hwithin.datagrams datagram hold

theorem System.Within.step
    {words : List String} {system next : System rwnd}
    {event : SystemEvent} (hwithin : system.Within words)
    (hsystem : system.InStep words)
    (hallowed : NoRetransmitPastEnd words system event)
    (hstep : system.step words event = some next) :
    next.Within words := by
  rcases System.step_cases hstep with
    ⟨tvTs, tvInit, sent, hevent, hsent, hnext⟩ |
    ⟨ack, tv, wait, _, _, _, hnext⟩ |
    ⟨wait, _, _, hnext⟩ |
    ⟨datagram, _, hmem, hnext⟩ | ⟨_, hnext⟩
  · subst hnext hevent
    exact hwithin.send hsystem hallowed hsent
  · subst hnext
    exact { hwithin with server := hwithin.server.receiveAck wait ack tv }
  · subst hnext
    exact { hwithin with server := hwithin.server.ackTimeout wait }
  · subst hnext
    exact hwithin.clientReceive hsystem hmem _
  · subst hnext
    exact { hwithin with
      accepted := hwithin.accepted
      payloads := hwithin.payloads }

/-- In every run without a retransmission past an unrecorded end, the accepted
payloads are a prefix of the words followed by the end marker. -/
theorem acceptedPayloads_prefix_of_file
    (words : List String) {system : System rwnd}
    (hreach : Transition.Reachable (System.step words)
      (NoRetransmitPastEnd words) System.Initial system) :
    system.client.accepted.map Accepted.seq =
        List.range system.client.accepted.length ∧
      system.client.payloads <+: words ++ [endOfFile] ∧
      ∀ accepted ∈ system.client.accepted,
        accepted.type = .data → accepted.seq < words.length := by
  have hboth : system.InStep words ∧ system.Within words := by
    refine hreach.invariant
      (fun system => system.InStep words ∧ system.Within words) ?_ ?_
    · intro start hinit
      exact ⟨hinit.inStep words, hinit.within words⟩
    · intro state event next hstate hallowed hstep
      exact ⟨hstate.1.step hstep, hstate.2.step hstate.1 hallowed hstep⟩
  have hlength := hboth.1.client.length
  refine ⟨?_, hboth.2.payloads, hboth.2.accepted⟩
  rw [hboth.1.client.numbers, ← hlength]
  simp [Client.payloads]

/-- Three words of which the second and third are sent in one burst.  A late
copy of the first acknowledgement makes the server send the second word again,
with the acknowledgement of the third one still under way. -/
def lateAckEvents : List SystemEvent :=
  [.send ⟨0, 0⟩ ⟨0, 0⟩, .send ⟨0, 0⟩ ⟨0, 0⟩,
    .clientReceive ⟨⟨0, 0, 0, .data⟩, "a"⟩,
    .serverReceive ⟨1, 0, 9⟩ ⟨0, 0⟩,
    .send ⟨0, 0⟩ ⟨0, 0⟩, .send ⟨0, 0⟩ ⟨0, 0⟩, .send ⟨0, 0⟩ ⟨0, 0⟩,
    .clientReceive ⟨⟨1, 0, 0, .data⟩, "b"⟩,
    .clientReceive ⟨⟨2, 0, 0, .data⟩, "c"⟩,
    .serverReceive ⟨1, 0, 9⟩ ⟨0, 0⟩, .timeout,
    .send ⟨0, 0⟩ ⟨0, 0⟩, .send ⟨0, 0⟩ ⟨0, 0⟩]

theorem acceptedPayloads_of_lateAck :
    ∃ system : System 10,
      (system.client.payloads = ["a", "b", "c"] ∧
        system.server.seqNum = 1) ∧
      system.client.payloads <+: ["a", "b", "c"] ++ [endOfFile] := by
  obtain ⟨system, hreach, htest⟩ := Transition.exists_reachable_of_replay
    (System.step ["a", "b", "c"]) (NoRetransmitPastEnd ["a", "b", "c"])
    (System.fresh_initial 10 10) lateAckEvents
    (fun system =>
      decide (system.client.payloads = ["a", "b", "c"]) &&
        decide (system.server.seqNum = 1))
    (by decide +kernel)
  simp only [Bool.and_eq_true, decide_eq_true_eq] at htest
  exact ⟨system, htest, (acceptedPayloads_prefix_of_file _ hreach).2.1⟩

/-- If that acknowledgement then arrives and the next wait times out, the
server retransmits number three of a file with three words: it sends the last
word again as data, and the client accepts it. -/
theorem acceptedPayloads_repeat_lastWord :
    ∃ system : System 10, system.Reachable ["a", "b", "c"] ∧
      system.client.payloads = ["a", "b", "c", "c"] ∧
      ¬ system.client.payloads <+: ["a", "b", "c"] ++ [endOfFile] ∧
      ⟨.data, "c", 3⟩ ∈ system.client.accepted := by
  obtain ⟨system, hreach, htest⟩ := Transition.exists_reachable_of_replay
    (System.step ["a", "b", "c"]) Transition.Unrestricted
    (System.fresh_initial 10 10)
    (lateAckEvents ++
      [.serverReceive ⟨3, 0, 7⟩ ⟨0, 0⟩, .timeout,
        .send ⟨0, 0⟩ ⟨0, 0⟩,
        .clientReceive ⟨⟨3, 0, 0, .data⟩, "c"⟩])
    (fun system =>
      decide (system.client.payloads = ["a", "b", "c", "c"]) &&
        decide (⟨.data, "c", 3⟩ ∈ system.client.accepted))
    (by decide +kernel)
  simp only [Bool.and_eq_true, decide_eq_true_eq] at htest
  refine ⟨system, hreach, htest.1, ?_, htest.2⟩
  rw [htest.1]
  decide

end NetworkProgramming.Transfer
