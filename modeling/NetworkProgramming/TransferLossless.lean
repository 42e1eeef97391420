import NetworkProgramming.TransferLink
import NetworkProgramming.TransitionLog

/-!
# A transfer without losses

Over a link which loses nothing the transfer cannot stop before it is
complete: as long as the server waits, a packet or an acknowledgement is on
the way.  It also cannot go on: apart from pings, every event uses up work
which was there at the start.
-/

namespace NetworkProgramming.Transfer

open Transition

variable {rwnd : ℕ} {words : List String}

def Link.Reachable (words : List String)
    (current : Logged (Link rwnd) LinkEvent) : Prop :=
  Transition.Reachable (logged (Link.step words))
    (Logged.Permits Link.Allowed) (Logged.Initial Link.Initial) current

/-- The server has returned, and the client has stored the file with its end
marker. -/
structure Link.Complete (words : List String) (link : Link rwnd) :
    Prop where
  returned : link.server.point = .returned
  finished : link.client.status = .finished
  payloads : link.client.payloads = words ++ [endOfFile]

theorem map_snd_fileEntries (words : List String) :
    (fileEntries words).map Prod.snd = words ++ [endOfFile] := by
  simp [fileEntries, Function.comp_def]

theorem Link.Tracks.payloads
    {link : Link rwnd} {next first : ℕ}
    (htracks : link.Tracks words next first)
    (hlt : words.length < link.client.expectedSeqNum) :
    link.client.payloads = words ++ [endOfFile] := by
  have hmap := congrArg (List.map Prod.snd) htracks.accepted
  have hall : (fileEntries words).take link.client.expectedSeqNum =
      fileEntries words := by
    apply List.take_of_length_le
    simp only [fileEntries, List.length_append, List.length_map,
      List.length_singleton]
    omega
  rw [hall, map_snd_fileEntries, List.map_map] at hmap
  exact hmap

/-! ## Something can always happen -/

theorem Link.InStep.progress
    {link : Link rwnd} (hin : link.InStep words)
    (hroom : growCwnd link.server.config ≤ intMax) :
    link.Complete words ∨
      ∃ event, event ≠ .readerPass ∧ link.Allowed event ∧
        (link.step words event).isSome = true := by
  obtain ⟨next, first, htracks, hpoint⟩ := hin
  have hle := htracks.server.le
  cases hat : link.server.point with
  | sending packetCount cwnd window =>
      refine .inr ⟨.send ⟨0, 0⟩ ⟨0, 0⟩, by simp, trivial, ?_⟩
      simp only [Link.step, Server.send, hat, Option.isSome_map]
      split <;> rfl
  | waiting wait =>
      rw [hat] at hpoint
      right
      cases hacks : link.acks with
      | cons ack acks =>
          refine ⟨.acknowledge ⟨0, 0⟩, by simp, hroom, ?_⟩
          simp [Link.step, hat, hacks]
      | nil =>
          -- nothing comes back yet, so something is on the way to the client
          have hdeliver : link.client.expectedSeqNum ≤ words.length ∧
              ∃ datagram datagrams,
                link.datagrams = datagram :: datagrams := by
            rcases hpoint.onWay with
              ⟨told, hflow, htold, _⟩ | ⟨hpinged, hnext, _⟩
            · have htoldAll := congrArg List.length hflow.acks
              simp only [hacks, List.map_nil, List.length_nil,
                List.length_range'] at htoldAll
              have htold_le := hflow.told_le
              obtain ⟨datagram, datagrams, hqueue, _⟩ :=
                hflow.datagrams.head (by omega)
              exact ⟨by omega, datagram, datagrams, hqueue⟩
            · have hexpected := hpinged.expected
              rcases hpinged.onWay with
                ⟨ping, _, hqueue, _⟩ | ⟨ack, _, _, hsome⟩
              · exact ⟨by omega, ping, [], hqueue⟩
              · rw [hacks] at hsome
                cases hsome
          obtain ⟨hreceiving, datagram, datagrams, hqueue⟩ := hdeliver
          refine ⟨.deliver, by simp, trivial, ?_⟩
          have hrunning := htracks.receiving_iff.mpr hreceiving
          simp [Link.step, hqueue, hrunning]
  | returned =>
      rw [hat] at hpoint
      have hlt : words.length < link.client.expectedSeqNum := hpoint
      refine .inl ⟨hat, ?_, htracks.payloads hlt⟩
      rw [htracks.status, if_neg (by omega)]
  | gaveUp =>
      rw [hat] at hpoint
      exact hpoint.elim

/-! ## What is left to do -/

/-- The packets which can still be sent.  A burst which has reached the end
of the file fills up with copies of the end marker. -/
def Link.unsent (words : List String) (link : Link rwnd) : ℕ :=
  if link.server.seqNum < words.length then
    (words.length - link.server.seqNum).toNat + rwnd
  else match link.server.point with
    | .sending packetCount cwnd window =>
        if link.server.config.isEOF = 1 then 0
        else (min cwnd window - packetCount).toNat
    | _ => 0

def ServerPoint.isSending : ServerPoint → Bool
  | .sending _ _ _ => true
  | _ => false

/-- A packet is sent, delivered and acknowledged, and it may be the only one
of its burst. -/
def Link.work (words : List String) (link : Link rwnd) : ℕ :=
  4 * link.unsent words + 3 * link.datagrams.length +
    2 * link.acks.length + link.server.point.isSending.toNat

def Link.pings (link : Link rwnd) : ℕ :=
  link.sent.countP Datagram.isPing

def LinkEvent.isTransfer : LinkEvent → Bool
  | .readerPass => false
  | _ => true

theorem Link.unsent_of_ahead
    {link : Link rwnd} {next : ℕ} (hahead : link.server.Ahead words next)
    (hle : next ≤ words.length) :
    link.unsent words = words.length + 1 - next + rwnd := by
  have hseqNum := hahead.seqNum
  rw [Link.unsent, if_pos (by omega)]
  omega

/-- Outside a burst nothing is left behind the end marker. -/
theorem Link.unsent_of_done
    {link : Link rwnd} {next : ℕ} (hahead : link.server.Ahead words next)
    (hlt : words.length < next)
    (hdone : link.server.point.isSending = true →
      link.server.config.isEOF = 1) :
    link.unsent words = 0 := by
  have hseqNum := hahead.seqNum
  rw [Link.unsent, if_neg (by omega)]
  split
  next packetCount cwnd window hpoint =>
    rw [hpoint] at hdone
    rw [if_pos (hdone rfl)]
  next => rfl

theorem Link.InBurst.unsent_eq
    {link : Link rwnd} {told next first packetCount : ℕ}
    {cwnd window : ℤ}
    (hburst : link.InBurst words told next first packetCount cwnd window)
    (hahead : link.server.Ahead words next)
    (hpoint : link.server.point = .sending packetCount cwnd window)
    (hlt : words.length < next) :
    link.unsent words = (min cwnd window - packetCount).toNat := by
  have hseqNum := hahead.seqNum
  rw [Link.unsent, if_neg (by omega), hpoint]
  exact if_neg hburst.running

theorem Link.InBurst.work_sendPacket
    {link : Link rwnd} {told next first packetCount : ℕ}
    {cwnd window : ℤ}
    (hburst : link.InBurst words told next first packetCount cwnd window)
    (htracks : link.Tracks words next first)
    (hpoint : link.server.point = .sending packetCount cwnd window)
    (hcount : (packetCount : ℤ) < min cwnd window)
    (tvTs tvInit : Timeval) :
    (link.withSent
      (link.server.sendPacket words packetCount cwnd window tvTs tvInit).1
      [(link.server.sendPacket words packetCount cwnd window tvTs
        tvInit).2]).unsent words + 1 ≤ link.unsent words := by
  have hle := htracks.server.le
  have hwindow := hburst.window_le
  have hafter := hburst.sendPacket htracks hcount tvTs tvInit
  have hnext_le := hburst.next_le
  have hroom := hburst.room
  have hahead := (htracks.sendPacket packetCount cwnd window tvTs tvInit
    (by omega)).server
  have hlast : words.length < min (next + 1) (words.length + 1) →
      _ = (min cwnd window - (packetCount + 1 : ℕ)).toNat :=
    hafter.unsent_eq hahead rfl
  have hmore : min (next + 1) (words.length + 1) ≤ words.length →
      _ = words.length + 1 - min (next + 1) (words.length + 1) + rwnd :=
    Link.unsent_of_ahead hahead
  by_cases hend : next ≤ words.length
  · rw [Link.unsent_of_ahead htracks.server hend]
    by_cases hnext : next = words.length
    · rw [hlast (by omega)]
      omega
    · rw [hmore (by omega)]
      omega
  · rw [hburst.unsent_eq htracks.server hpoint (by omega),
      hlast (by omega)]
    omega

theorem Link.pings_withSent
    (link : Link rwnd) (server : Server) (datagrams : List Datagram) :
    (link.withSent server datagrams).pings =
      link.pings + datagrams.countP Datagram.isPing :=
  List.countP_append

/-- All that follows a burst is a ping. -/
theorem Server.endBurst_pings (server : Server) :
    server.endBurst.2.toList.countP Datagram.isPing =
      server.endBurst.2.toList.length := by
  unfold Server.endBurst
  split
  · rfl
  · split <;> rfl

theorem Link.Tracks.work_endBurst
    {link : Link rwnd} {next first : ℕ}
    (htracks : link.Tracks words next first)
    (hsending : link.server.point.isSending = true) :
    (link.withSent link.server.endBurst.1
      link.server.endBurst.2.toList).work words + 1 ≤ link.work words +
        3 * link.server.endBurst.2.toList.countP Datagram.isPing := by
  have hafter := htracks.endBurst.server
  have hpoint : link.server.endBurst.1.point.isSending = false := by
    rw [Server.endBurst_point]
    split <;> rfl
  have hunsent : (link.withSent link.server.endBurst.1
      link.server.endBurst.2.toList).unsent words ≤ link.unsent words := by
    by_cases hle : next ≤ words.length
    · rw [Link.unsent_of_ahead hafter hle,
        Link.unsent_of_ahead htracks.server hle]
    · rw [Link.unsent_of_done hafter (by omega)]
      · exact Nat.zero_le _
      · intro hsends
        exact absurd hsends (by rw [Link.withSent, hpoint]; simp)
  have hdatagrams : (link.withSent link.server.endBurst.1
      link.server.endBurst.2.toList).datagrams.length =
        link.datagrams.length + link.server.endBurst.2.toList.length :=
    List.length_append
  have hdone : (link.withSent link.server.endBurst.1
      link.server.endBurst.2.toList).server.point.isSending = false :=
    hpoint
  have hacks : (link.withSent link.server.endBurst.1
      link.server.endBurst.2.toList).acks = link.acks := rfl
  simp only [Link.work, hdatagrams, hacks, hsending, hdone,
    Server.endBurst_pings, Bool.toNat_true, Bool.toNat_false]
  omega

theorem Link.InStep.work_send
    {link : Link rwnd} (hin : link.InStep words) {tvTs tvInit : Timeval}
    {sent : Server × Option Datagram}
    (hsend : link.server.send words tvTs tvInit = some sent) :
    (link.withSent sent.1 sent.2.toList).work words + 1 ≤
      link.work words + 3 * sent.2.toList.countP Datagram.isPing := by
  obtain ⟨next, first, htracks, hpoint⟩ := hin
  cases hat : link.server.point with
  | sending packetCount cwnd window =>
      have hsending : link.server.point.isSending = true := by
        rw [hat]
        rfl
      simp only [Server.send, hat] at hsend
      split at hsend
      next hsends =>
        simp only [Option.some.injEq] at hsend
        subst hsend
        rw [hat] at hpoint
        rcases hpoint with ⟨hclosing, _⟩ | ⟨told, hburst⟩
        · exact absurd hclosing hsends.2
        · have hunsent := hburst.work_sendPacket htracks hat hsends.1 tvTs
            tvInit
          have hlength : (link.datagrams ++ [(link.server.sendPacket words
              packetCount cwnd window tvTs tvInit).2]).length =
                link.datagrams.length + 1 := List.length_append
          rw [Link.work, Link.work, hsending]
          simp only [Option.toList_some]
          change _ + 3 * (link.datagrams ++ [_]).length + 2 * link.acks.length
            + 1 + 1 ≤ _ + 1 + _
          omega
      next =>
        simp only [Option.some.injEq] at hsend
        subst hsend
        exact htracks.work_endBurst hsending
  | waiting wait => simp [Server.send, hat] at hsend
  | returned => simp [Server.send, hat] at hsend
  | gaveUp => simp [Server.send, hat] at hsend

theorem Server.receiveAck_seqNum
    (server : Server) (wait : AckWait) (ack : Ack) (tv : Timeval) :
    (server.receiveAck wait ack tv).seqNum = server.seqNum := by
  unfold Server.receiveAck Server.ackTimeout Server.ackDone
  dsimp only
  split_ifs <;> rfl

/-- A burst which follows an acknowledgement has not sent anything. -/
theorem Server.receiveAck_sending
    {server : Server} {wait : AckWait} {ack : Ack} {tv : Timeval}
    {packetCount : ℕ} {cwnd window : ℤ}
    (hpoint : (server.receiveAck wait ack tv).point =
      .sending packetCount cwnd window) :
    packetCount = 0 := by
  unfold Server.receiveAck Server.ackTimeout Server.ackDone
    Server.startBurst at hpoint
  dsimp only at hpoint
  split_ifs at hpoint <;> simp_all

theorem Link.InStep.work_acknowledge
    {link : Link rwnd} (hin : link.InStep words) {wait : AckWait}
    (hwait : link.server.point = .waiting wait) {ack : Ack}
    {acks : List Ack} (hqueue : link.acks = ack :: acks) (tv : Timeval) :
    (link.acknowledged (link.server.receiveAck wait ack tv) acks).work
      words + 1 ≤ link.work words := by
  obtain ⟨after, first, hafter, hpoint⟩ := hin.acknowledge hwait hqueue tv
  obtain ⟨next, _, htracks, _⟩ := hin
  have hsame := link.server.receiveAck_seqNum wait ack tv
  have hnext := htracks.server.seqNum
  have hseqNum : (link.server.receiveAck wait ack tv).seqNum = after - 1 :=
    hafter.server.seqNum
  obtain rfl : after = next := by omega
  have hunsent : (link.acknowledged (link.server.receiveAck wait ack tv)
      acks).unsent words ≤ link.unsent words := by
    by_cases hle : after ≤ words.length
    · rw [Link.unsent_of_ahead hafter.server hle,
        Link.unsent_of_ahead htracks.server hle]
    · rw [Link.unsent_of_done hafter.server (by omega)]
      · exact Nat.zero_le _
      · intro hsends
        cases hat : (link.server.receiveAck wait ack tv).point with
        | sending packetCount cwnd window =>
            have hstart := Server.receiveAck_sending hat
            rw [Link.acknowledged, hat] at hpoint
            rcases hpoint with ⟨hclosing, _⟩ | ⟨told, hburst⟩
            · exact hclosing
            · have htold := hburst.told_le
              have hnone := hburst.started hstart
              omega
        | _ =>
            rw [Link.acknowledged, hat] at hsends
            cases hsends
  have hlength := congrArg List.length hqueue
  have hsending := Bool.toNat_le
    (link.server.receiveAck wait ack tv).point.isSending
  rw [List.length_cons] at hlength
  rw [Link.work, Link.work]
  change _ + 3 * link.datagrams.length + 2 * acks.length +
    (link.server.receiveAck wait ack tv).point.isSending.toNat + 1 ≤ _
  omega

theorem Link.InStep.work_step
    {link next : Link rwnd} (hin : link.InStep words) {event : LinkEvent}
    (hstep : link.step words event = some next) :
    next.work words + event.isTransfer.toNat + 3 * link.pings ≤
      link.work words + 3 * next.pings := by
  rcases Link.step_cases hstep with
    ⟨tvTs, tvInit, sent, rfl, hsend, rfl⟩ |
    ⟨datagram, datagrams, rfl, hqueue, hrunning, rfl⟩ |
    ⟨tv, wait, ack, acks, rfl, hwait, hqueue, rfl⟩ | ⟨rfl, rfl⟩
  · have hwork := hin.work_send hsend
    rw [Link.pings_withSent]
    change _ + 1 + _ ≤ _
    omega
  · have hanswer : (link.client.receive datagram).2.toList.length ≤ 1 :=
      Option.length_toList_le
    have hacks : (link.delivered datagram datagrams).acks.length ≤
        link.acks.length + 1 := by
      simp only [Link.delivered, List.length_append]
      omega
    have hunsent : (link.delivered datagram datagrams).unsent words =
        link.unsent words := rfl
    have hqueue := congrArg List.length hqueue
    rw [List.length_cons] at hqueue
    simp only [Link.work, hunsent]
    change 4 * _ + 3 * datagrams.length + _ + _ + 1 + 3 * link.pings ≤ _ +
      3 * link.pings
    change 4 * _ + _ + _ + link.server.point.isSending.toNat + 1 + _ ≤ _
    omega
  · have hwork := hin.work_acknowledge hwait hqueue tv
    exact Nat.add_le_add_right hwork _
  · rfl

/-! ## Runs -/

section Runs

variable {current : Logged (Link rwnd) LinkEvent}

theorem Link.Reachable.inStep
    (hpos : 0 < rwnd) (hwords : words.length < intMax)
    (hreach : Link.Reachable words current) :
    current.state.InStep words := by
  refine Transition.Reachable.invariant hreach.of_logged
    (fun link => link.InStep words) (fun link hinit => hinit.inStep hpos) ?_
  intro link event next hin _ hstep
  exact hin.step hpos hwords hstep

theorem Link.Initial.work_eq
    {link : Link rwnd} (hinit : link.Initial) :
    link.work words = 4 * (words.length + 1 + rwnd) + 1 := by
  obtain ⟨config, qObj, servRwnd, _, _, hserver⟩ := hinit.server
  have hseqNum : link.server.seqNum = -1 := by rw [hserver]; rfl
  have hpoint : link.server.point.isSending = true := by rw [hserver]; rfl
  rw [Link.work, Link.unsent, hseqNum, if_pos (by omega), hpoint,
    hinit.datagrams, hinit.acks]
  simp only [List.length_nil, Bool.toNat_true]
  omega

/-- A client with one slot, whose reader is slow. -/
def freshLink : Link 1 :=
  ⟨freshServer 1, Client.fresh 1, [], [], []⟩

theorem freshLink_initial :
    Logged.Initial Link.Initial (⟨freshLink, []⟩ :
      Logged (Link 1) LinkEvent) :=
  ⟨⟨⟨_, _, 1, rfl, by decide, rfl⟩, Client.fresh_initial 1, rfl, rfl, rfl⟩,
    rfl⟩

/-- One word fills the slot, and the server sends a ping. -/
def fullSlot : List LinkEvent :=
  [.send midnight midnight, .send midnight midnight, .deliver,
    .acknowledge midnight, .send midnight midnight]

theorem Link.Reachable.work_le
    (hpos : 0 < rwnd) (hwords : words.length < intMax)
    (hreach : Link.Reachable words current) :
    current.log.countP LinkEvent.isTransfer + current.state.work words ≤
      4 * (words.length + 1 + rwnd) + 1 + 3 * current.state.pings := by
  have hall := Transition.Reachable.invariant hreach
    (fun current => current.state.InStep words ∧
      current.log.countP LinkEvent.isTransfer + current.state.work words ≤
        4 * (words.length + 1 + rwnd) + 1 + 3 * current.state.pings)
    ?_ ?_
  · exact hall.2
  · rintro ⟨link, log⟩ ⟨hinit, rfl⟩
    refine ⟨hinit.inStep hpos, ?_⟩
    rw [hinit.work_eq]
    exact (Nat.zero_add _).le.trans (Nat.le_add_right _ _)
  · rintro ⟨link, log⟩ event ⟨next, log'⟩ ⟨hin, hle⟩ _ hstep
    obtain ⟨hstep, rfl⟩ := logged_eq_some_iff.mp hstep
    have hwork := hin.work_step hstep
    refine ⟨hin.step hpos hwords hstep, ?_⟩
    have hcount : (event :: log).countP LinkEvent.isTransfer =
        log.countP LinkEvent.isTransfer + event.isTransfer.toNat := by
      cases hevent : event.isTransfer <;> simp [hevent]
    simp only at hle hwork ⊢
    omega

end Runs

end NetworkProgramming.Transfer
