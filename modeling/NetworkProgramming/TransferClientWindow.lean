import NetworkProgramming.TransferClientBuffer

/-!
# The window which the client advertises, and its last output

The free slots are those behind the window of stored numbers, so the right
edge of an acknowledgement is the first stored number plus the number of
slots.  It never moves back, and whatever lies before it is accepted when it
arrives in order.

The loop at the end of `main` is one pass of the reader.  It prints the rest
of the window unless the window goes around the end of the array.
-/

namespace NetworkProgramming.Transfer

variable {rwnd : ℕ}

/-! ## The right edge -/

theorem Client.WindowFrom.getWindowSize_add
    {client : Client rwnd} {first : ℕ}
    (hwindow : client.WindowFrom first) :
    getWindowSize client.textBuffer + (client.payloads.length - first) =
      rwnd := by
  have hcount := hwindow.represents.countP_none
  have hsame : (List.finRange rwnd).countP
      (fun i => !(client.textBuffer i).isFilled) =
      (List.finRange rwnd).countP
        (fun i => (ringOf client.textBuffer i).isNone) := by
    apply List.countP_congr
    intro i _
    cases hfilled : (client.textBuffer i).isFilled <;>
      simp [ringOf, Buffer.entry, hfilled]
  rw [getWindowSize, hsame]
  exact hcount

theorem Client.WindowFrom.rightEdge
    {client : Client rwnd} {first : ℕ}
    (hwindow : client.WindowFrom first) {datagram : Datagram} {ack : Ack}
    (hack : (client.receive datagram).2 = some ack) :
    ack.seq = (client.receive datagram).1.expectedSeqNum ∧
      ack.seq + ack.rwnd = first + rwnd := by
  have hafter := hwindow.receive datagram
  have hsize := hafter.getWindowSize_add
  have hexpected := hafter.expected
  have hfirst := hafter.represents.first_le
  have hseq := Client.receive_ack_seq hack
  have hrwnd : ack.rwnd =
      getWindowSize (client.receive datagram).1.textBuffer := by
    cases hhandle : client.handleDatagram datagram with
    | none => simp [Client.receive, hhandle] at hack
    | some pushed =>
        simp only [Client.receive, hhandle, Option.some.injEq] at hack ⊢
        subst hack
        rfl
  exact ⟨hseq, by omega⟩

/-- The window of a client which runs on starts no earlier. -/
theorem Client.WindowFrom.run
    (hpos : 0 < rwnd) {client later : Client rwnd} {first : ℕ}
    (hwindow : client.WindowFrom first)
    (hbound : client.expectedSeqNum ≤ intMax)
    (hrun : Transition.Run Client.step SeqBelowIntMax client later) :
    ∃ start, first ≤ start ∧ later.WindowFrom start := by
  have hall : (∃ start, first ≤ start ∧ later.WindowFrom start) ∧
      later.expectedSeqNum ≤ intMax := by
    refine hrun.invariant (fun state =>
      (∃ start, first ≤ start ∧ state.WindowFrom start) ∧
        state.expectedSeqNum ≤ intMax)
      ⟨⟨first, le_rfl, hwindow⟩, hbound⟩ ?_
    rintro state event next ⟨⟨start, hle, hstart⟩, hlimit⟩ hseq hstep
    rcases hstart.step hpos hlimit hseq hstep with
      ⟨⟨moved, hmoved, hnext⟩, hnextLimit⟩
    exact ⟨⟨moved, hle.trans hmoved, hnext⟩, hnextLimit⟩
  exact hall.1

/-! ## Arrival in order -/

def ClientEvent.arrival : ClientEvent → Option Datagram
  | .receive datagram => some datagram
  | .readerPass => none

/-- The datagrams among the events are data and carry the numbers from `n`
on, in order; reader passes may come in between. -/
structure InOrder (n : ℕ) (events : List ClientEvent) : Prop where
  data : ∀ datagram ∈ events.filterMap ClientEvent.arrival,
    datagram.config.type = .data
  numbers : (events.filterMap ClientEvent.arrival).map
      (fun datagram => datagram.config.seq) =
    List.range' n (events.filterMap ClientEvent.arrival).length

theorem InOrder.of_readerPass
    {n : ℕ} {events : List ClientEvent}
    (horder : InOrder n (.readerPass :: events)) :
    InOrder n events :=
  ⟨horder.data, horder.numbers⟩

theorem InOrder.of_receive
    {n : ℕ} {datagram : Datagram} {events : List ClientEvent}
    (horder : InOrder n (.receive datagram :: events)) :
    datagram.config.type = .data ∧ datagram.config.seq = n ∧
      InOrder (n + 1) events := by
  have hdata := horder.data
  have hnumbers := horder.numbers
  have hhead : (ClientEvent.receive datagram :: events).filterMap
      ClientEvent.arrival =
      datagram :: events.filterMap ClientEvent.arrival := rfl
  rw [hhead] at hdata hnumbers
  simp only [List.map_cons, List.length_cons, List.range'_succ,
    List.cons.injEq] at hnumbers
  exact ⟨hdata datagram List.mem_cons_self, hnumbers.1,
    fun other hother => hdata other (List.mem_cons_of_mem _ hother),
    hnumbers.2⟩

theorem Client.WindowFrom.next_unfilled
    {client : Client rwnd} {first : ℕ}
    (hwindow : client.WindowFrom first)
    (hroom : client.expectedSeqNum < first + rwnd) {i : Fin rwnd}
    (hi : client.expectedSeqNum % rwnd = i.val) :
    (client.textBuffer i).isFilled = false := by
  rw [hwindow.expected] at hroom hi
  exact (Buffer.entry_eq_none_iff _).mp
    (hwindow.represents.next_none hroom hi)

/-- A data datagram with the expected number is stored when the window has
room, and the client goes on. -/
theorem Client.WindowFrom.receive_next
    (hpos : 0 < rwnd) {client : Client rwnd} {first : ℕ}
    (hwindow : client.WindowFrom first)
    (hroom : client.expectedSeqNum < first + rwnd)
    {datagram : Datagram} (htype : datagram.config.type = .data)
    (hseq : datagram.config.seq = client.expectedSeqNum) :
    (client.receive datagram).1.status = .receiving ∧
      (client.receive datagram).1.expectedSeqNum =
        client.expectedSeqNum + 1 ∧
      (client.receive datagram).1.accepted = client.accepted ++
        [⟨.data, datagram.buf, datagram.config.seq⟩] := by
  have hunfilled := hwindow.next_unfilled hroom
    (i := ⟨client.expectedSeqNum % rwnd, Nat.mod_lt _ hpos⟩) rfl
  have hhandle : client.handleDatagram datagram =
      some (client.store ⟨client.expectedSeqNum % rwnd,
        Nat.mod_lt _ hpos⟩ .data datagram.buf client.expectedSeqNum) := by
    simp [Client.handleDatagram, htype, Client.pushDataToBuffer, hpos, hseq,
      hunfilled]
  have hexpected := hwindow.numbered.expected_store
    ⟨client.expectedSeqNum % rwnd, Nat.mod_lt _ hpos⟩ .data datagram.buf
  simp only [Client.receive, hhandle, htype]
  refine ⟨rfl, hexpected, ?_⟩
  rw [hseq]
  rfl

theorem Client.WindowFrom.accepts_inOrder
    (hpos : 0 < rwnd) {client : Client rwnd} {first : ℕ}
    (hwindow : client.WindowFrom first)
    (hrunning : client.status = .receiving) {events : List ClientEvent}
    (horder : InOrder client.expectedSeqNum events)
    (hroom : client.expectedSeqNum +
      (events.filterMap ClientEvent.arrival).length ≤ first + rwnd)
    (hbound : client.expectedSeqNum +
      (events.filterMap ClientEvent.arrival).length ≤ intMax) :
    ∃ final,
      Transition.replay Client.step SeqBelowIntMax client events =
        some final ∧
      final.accepted = client.accepted ++
        (events.filterMap ClientEvent.arrival).map fun datagram =>
          ⟨.data, datagram.buf, datagram.config.seq⟩ := by
  induction events generalizing client first with
  | nil => exact ⟨client, rfl, by simp⟩
  | cons event events ih =>
      cases event with
      | readerPass =>
          have hread : client.readerPass.WindowFrom _ :=
            hwindow.readerPass hpos (by omega)
          have hcut := RingWindow.first_le_cut (n := rwnd)
            hwindow.represents.first_le
          have hlength : ((ClientEvent.readerPass :: events).filterMap
              ClientEvent.arrival).length =
              (events.filterMap ClientEvent.arrival).length := rfl
          have hsame : client.readerPass.expectedSeqNum =
              client.expectedSeqNum := rfl
          rcases ih hread hrunning horder.of_readerPass (by omega)
            (by omega) with ⟨final, hfinal, haccepted⟩
          refine ⟨final, ?_, haccepted⟩
          have hallowed : SeqBelowIntMax client .readerPass := trivial
          have hstep : client.step .readerPass = some client.readerPass :=
            if_pos hrunning
          rw [Transition.replay_cons hallowed hstep]
          exact hfinal
      | receive datagram =>
          rcases horder.of_receive with ⟨htype, hseq, hrest⟩
          have hlength : ((ClientEvent.receive datagram :: events).filterMap
              ClientEvent.arrival).length =
              (events.filterMap ClientEvent.arrival).length + 1 := rfl
          rcases hwindow.receive_next hpos (by omega) htype hseq with
            ⟨hstatus, hexpected, hstored⟩
          rw [← hexpected] at hrest
          rcases ih (hwindow.receive datagram) hstatus hrest (by omega)
            (by omega) with ⟨final, hfinal, haccepted⟩
          refine ⟨final, ?_, ?_⟩
          · have hallowed : SeqBelowIntMax client (.receive datagram) := by
              simp only [SeqBelowIntMax]
              omega
            have hstep : client.step (.receive datagram) =
                some (client.receive datagram).1 := if_pos hrunning
            rw [Transition.replay_cons hallowed hstep]
            exact hfinal
          · rw [haccepted, hstored, List.append_assoc]
            rfl

/-- The window of an acknowledgement is honest: no later acknowledgement has
an earlier right edge, and all numbers of the window are accepted when they
arrive in order. -/
theorem advertisedWindow_honest
    (hrwnd : 1 ≤ rwnd) {client : Client rwnd}
    (hreach : Transition.Reachable Client.step SeqBelowIntMax
      Client.Initial client)
    {datagram : Datagram} (hseq : datagram.config.seq < intMax)
    {ack : Ack} (hack : (client.receive datagram).2 = some ack) :
    (∀ later, Transition.Run Client.step SeqBelowIntMax
        (client.receive datagram).1 later →
      ∀ datagram' ack', (later.receive datagram').2 = some ack' →
        ack.seq + ack.rwnd ≤ ack'.seq + ack'.rwnd) ∧
    ∀ events, (client.receive datagram).1.status = .receiving →
      InOrder ack.seq events →
      (events.filterMap ClientEvent.arrival).length ≤ ack.rwnd →
      ack.seq + (events.filterMap ClientEvent.arrival).length ≤ intMax →
      ∃ final,
        Transition.replay Client.step SeqBelowIntMax
          (client.receive datagram).1 events = some final ∧
        final.accepted = (client.receive datagram).1.accepted ++
          (events.filterMap ClientEvent.arrival).map fun arrived =>
            ⟨.data, arrived.buf, arrived.config.seq⟩ := by
  rcases Client.windowFrom_of_reachable hrwnd hreach with
    ⟨⟨first, hwindow⟩, hbound⟩
  have hafter := hwindow.receive datagram
  have hlimit := Client.expected_receive_le hwindow.numbered hbound hseq
  rcases hwindow.rightEdge hack with ⟨hnumber, hedge⟩
  constructor
  · intro later hrun datagram' ack' hack'
    rcases hafter.run hrwnd hlimit hrun with ⟨start, hle, hlater⟩
    have hedge' := (hlater.rightEdge hack').2
    omega
  · intro events hrunning horder hsize hmax
    rw [hnumber] at horder
    exact hafter.accepts_inOrder hrwnd hrunning horder (by omega)
      (by omega)

def dataPacket (seq : ℕ) : Datagram :=
  ⟨⟨seq, 0, 0, .data⟩, "w"⟩

/-- Two slots, one of them full: the acknowledgement for the first datagram
has room for one more, which is accepted after a pass of the reader. -/
theorem advertisedWindow_honest_twoSlots :
    ∃ (client : Client 2) (ack : Ack),
      (client.receive (dataPacket 0)).2 = some ack ∧
      ack.seq = 1 ∧ ack.rwnd = 1 ∧
      ∃ final, Transition.replay Client.step SeqBelowIntMax
          (client.receive (dataPacket 0)).1
          [.readerPass, .receive (dataPacket 1)] = some final ∧
        final.accepted = (client.receive (dataPacket 0)).1.accepted ++
          [⟨.data, "w", 1⟩] := by
  have hreach : Transition.Reachable Client.step SeqBelowIntMax
      Client.Initial (Client.fresh 2) :=
    .start (Client.fresh_initial 2)
  have hack : ((Client.fresh 2).receive (dataPacket 0)).2 =
      some ⟨1, 0, 1⟩ := by decide +kernel
  have hhonest := (advertisedWindow_honest (by decide) hreach
    (by decide) hack).2 [.readerPass, .receive (dataPacket 1)]
    (by decide +kernel) ⟨by decide, rfl⟩ (by decide) (by decide)
  exact ⟨Client.fresh 2, ⟨1, 0, 1⟩, hack, rfl, rfl, hhonest⟩

/-! ## The last output -/

/-- The loop at the end of `main`, which has the text of one pass of the
reader. -/
def Client.finalDrain (client : Client rwnd) : Client rwnd :=
  client.readerPass

/-- The payloads with their numbers, as they are printed. -/
def Client.lines (client : Client rwnd) : List (String × ℕ) :=
  client.accepted.map fun entry => (entry.data, entry.seq)

theorem Client.Numbered.lines_eq
    {client : Client rwnd} (hnumbered : client.Numbered) :
    client.lines = client.payloads.zipIdx := by
  have hnumbers := hnumbered.numbers
  have hlength := hnumbered.length
  apply List.ext_getElem
  · simp [Client.lines, Client.payloads]
  · intro k hk hk'
    have hseq : client.accepted[k]?.map Accepted.seq = some k := by
      rw [← List.getElem?_map, hnumbers]
      simp only [Client.lines, List.length_map] at hk
      simp only [Client.payloads, List.length_map] at hlength
      simp only [List.getElem?_range (show k < client.expectedSeqNum by
        omega)]
    simp only [Client.lines, List.length_map] at hk
    simp only [List.getElem?_eq_getElem hk, Option.map_some,
      Option.some.injEq] at hseq
    simp [Client.lines, Client.payloads, hseq]

theorem Client.receive_finished
    {client : Client rwnd} {datagram : Datagram}
    (hend : (client.receive datagram).1.status = .finished) :
    datagram.config.type = .eof ∧
      datagram.config.seq + 1 =
        (client.receive datagram).1.expectedSeqNum := by
  cases hhandle : client.handleDatagram datagram with
  | none => simp [Client.receive, hhandle] at hend
  | some pushed =>
      simp only [Client.receive, hhandle] at hend ⊢
      by_cases hlast : datagram.config.type = .eof ∧
          datagram.config.seq + 1 = pushed.advanceExpected.expectedSeqNum
      · exact hlast
      · rw [if_neg hlast] at hend
        cases hend

/-- The last pass prints the rest of the window exactly when the window ends
before the end of the array. -/
theorem Client.WindowFrom.finalDrain_iff
    (hpos : 0 < rwnd) {client : Client rwnd} {first : ℕ}
    (hwindow : client.WindowFrom first)
    (hbound : client.expectedSeqNum ≤ intMax) :
    client.finalDrain.printed = client.lines ↔
      client.expectedSeqNum ≤ first + (rwnd - first % rwnd) := by
  have hprinted := (hwindow.readerPass hpos hbound).printed
  have hpayloads : client.readerPass.payloads = client.payloads := rfl
  have hmod := Nat.mod_lt first hpos
  rw [hpayloads] at hprinted
  rw [Client.finalDrain, hprinted, hwindow.numbered.lines_eq,
    hwindow.expected, List.take_eq_self_iff, List.length_zipIdx,
    RingWindow.cut]
  omega

theorem Client.WindowFrom.unfilled_of_empty
    {client : Client rwnd} {first : ℕ}
    (hwindow : client.WindowFrom first)
    (hempty : first = client.payloads.length) (i : Fin rwnd) :
    (client.textBuffer i).isFilled = false := by
  subst hempty
  exact (Buffer.entry_eq_none_iff _).mp
    (hwindow.represents.slot_none_of_full_range i)

theorem Client.WindowFrom.exists_filled
    (hpos : 0 < rwnd) {client : Client rwnd} {first : ℕ}
    (hwindow : client.WindowFrom first)
    (hnonempty : first < client.payloads.length) :
    ∃ i, (client.textBuffer i).isFilled = true := by
  refine ⟨⟨first % rwnd, Nat.mod_lt first hpos⟩, ?_⟩
  have hsome := (hwindow.represents.isSome_iff
    ⟨first % rwnd, Nat.mod_lt first hpos⟩).mpr
    ⟨first, le_rfl, hnonempty, rfl⟩
  by_contra hunfilled
  have hnone := (Buffer.entry_eq_none_iff _).mpr
    (Bool.eq_false_of_not_eq_true hunfilled)
  rw [ringOf, hnone] at hsome
  cases hsome

/-- When an eof datagram ends the client, exactly the numbers up to its own
were accepted, and all of them have been printed after the last pass if and
only if before that datagram the buffer was empty or its oldest entry stood
no further back in the array than the slot of the datagram. -/
theorem finalDrain_prints_accepted_iff
    (hrwnd : 1 ≤ rwnd) {client : Client rwnd}
    (hreach : Transition.Reachable Client.step SeqBelowIntMax
      Client.Initial client)
    {datagram : Datagram} (hseq : datagram.config.seq < intMax)
    (hend : (client.receive datagram).1.status = .finished) :
    (client.receive datagram).1.accepted.map Accepted.seq =
        List.range (datagram.config.seq + 1) ∧
      ((client.receive datagram).1.finalDrain.printed =
          (client.receive datagram).1.lines ↔
        (∀ i, (client.textBuffer i).isFilled = false) ∨
          minSeqNum client.textBuffer ≤ datagram.config.seq % rwnd) := by
  rcases Client.windowFrom_of_reachable hrwnd hreach with
    ⟨⟨first, hwindow⟩, hbound⟩
  have hafter := hwindow.receive datagram
  have hlimit := Client.expected_receive_le hwindow.numbered hbound hseq
  have hlast := (Client.receive_finished hend).2
  have hlength := hwindow.expected
  have hlengthAfter := hafter.expected
  have hfirst := hwindow.represents.first_le
  have hsize := hafter.represents.size_le
  have hmod : first % rwnd < rwnd := Nat.mod_lt first hrwnd
  refine ⟨?_, ?_⟩
  · rw [hlast]
    exact hafter.numbered.numbers
  · rw [hafter.finalDrain_iff hrwnd hlimit, ← hlast]
    have hgrows : client.expectedSeqNum ≤
          (client.receive datagram).1.expectedSeqNum ∧
        (client.receive datagram).1.expectedSeqNum ≤
          client.expectedSeqNum + 1 := by
      rcases hwindow.numbered.receive_cases datagram with
        hsame | ⟨_, _, _, _, hnext⟩ <;> omega
    rcases Nat.lt_or_ge first client.payloads.length with hlt | hge
    · have hmin := hwindow.minSeqNum_eq hrwnd hbound hlt
      have hwrap : first % rwnd ≤ datagram.config.seq % rwnd ↔
          datagram.config.seq < first + (rwnd - first % rwnd) :=
        RingWindow.mod_le_mod_iff (by omega) (by omega)
      rw [hmin, hwrap]
      constructor
      · intro hfits
        exact .inr (by omega)
      · intro hcond
        rcases hcond with hempty | hbefore
        · rcases hwindow.exists_filled hrwnd hlt with ⟨i, hfilled⟩
          rw [hempty i] at hfilled
          cases hfilled
        · omega
    · have hempty : first = client.payloads.length := by omega
      constructor
      · intro _
        exact .inl (hwindow.unfilled_of_empty hempty)
      · intro _
        omega

def eofPacket (seq : ℕ) : Datagram :=
  ⟨⟨seq, 0, 0, .eof⟩, ""⟩

/-- Three slots: two words and the end of the file are still in the buffer,
and the last pass prints them. -/
theorem finalDrain_prints_accepted_threeSlots :
    ∃ client : Client 3,
      (client.receive (eofPacket 2)).1.status = .finished ∧
      (client.receive (eofPacket 2)).1.finalDrain.printed =
        [("w", 0), ("w", 1), ("End of File!", 2)] := by
  rcases Transition.exists_reachable_of_replay Client.step SeqBelowIntMax
    (Client.fresh_initial 3)
    [.receive (dataPacket 0), .receive (dataPacket 1)]
    (fun client =>
      decide ((client.receive (eofPacket 2)).1.status = .finished) &&
      decide (minSeqNum client.textBuffer ≤ 2) &&
      decide ((client.receive (eofPacket 2)).1.lines =
        [("w", 0), ("w", 1), ("End of File!", 2)]))
    (by decide +kernel) with ⟨client, hreach, hclient⟩
  simp only [Bool.and_eq_true, decide_eq_true_eq] at hclient
  rcases hclient with ⟨⟨hend, hmin⟩, hlines⟩
  have hprinted := (finalDrain_prints_accepted_iff (by decide) hreach
    (by decide) hend).2.mpr (.inr hmin)
  exact ⟨client, hend, hprinted.trans hlines⟩

/-- Two slots: the first word is printed by the reader, the second one and
the end of the file stand in the slots 1 and 0.  The last pass starts at
slot 1, stops at the end of the array and never prints slot 0. -/
theorem finalDrain_misses_wrapped :
    ∃ client : Client 2,
      Transition.Reachable Client.step SeqBelowIntMax
        Client.Initial client ∧
      (client.receive (eofPacket 2)).1.status = .finished ∧
      (client.receive (eofPacket 2)).1.lines =
        [("w", 0), ("w", 1), ("End of File!", 2)] ∧
      (client.receive (eofPacket 2)).1.finalDrain.printed =
        [("w", 0), ("w", 1)] := by
  rcases Transition.exists_reachable_of_replay Client.step SeqBelowIntMax
    (Client.fresh_initial 2)
    [.receive (dataPacket 0), .readerPass, .receive (dataPacket 1)]
    (fun client =>
      decide ((client.receive (eofPacket 2)).1.status = .finished) &&
      decide ((client.receive (eofPacket 2)).1.lines =
        [("w", 0), ("w", 1), ("End of File!", 2)]) &&
      decide ((client.receive (eofPacket 2)).1.finalDrain.printed =
        [("w", 0), ("w", 1)]))
    (by decide +kernel) with ⟨client, hreach, hclient⟩
  simp only [Bool.and_eq_true, decide_eq_true_eq] at hclient
  exact ⟨client, hreach, hclient.1.1, hclient.1.2, hclient.2⟩

end NetworkProgramming.Transfer
