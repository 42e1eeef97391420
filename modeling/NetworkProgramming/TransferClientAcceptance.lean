import NetworkProgramming.TransferClient
import Mathlib.Data.Fintype.Card

/-!
# Accepted numbers

A payload is stored only under the expected number, and the expected number
then moves by exactly one: no stored number is beyond it.  So the `k`-th
accepted payload is the one which arrived with number `k`.  This part of the
client does not depend on how the reader empties the slots.
-/

namespace NetworkProgramming.Transfer

variable {rwnd : ℕ}

theorem ispresent_eq_true_iff
    (textBuffer : TextBuffer rwnd) (seqNum : ℕ) :
    ispresent textBuffer seqNum = true ↔
      ∃ i, (textBuffer i).isFilled = true ∧ (textBuffer i).seq = seqNum := by
  simp [ispresent]

theorem updateExpected_of_not_present
    {textBuffer : TextBuffer rwnd} {expected : ℕ}
    (habsent : ispresent textBuffer expected = false) (fuel : ℕ) :
    updateExpected textBuffer fuel expected = expected := by
  cases fuel with
  | zero => rfl
  | succ fuel => simp [updateExpected, habsent]

theorem updateExpected_of_present
    {textBuffer : TextBuffer rwnd} {fuel expected : ℕ} (hfuel : 0 < fuel)
    (hpresent : ispresent textBuffer expected = true)
    (hbeyond : ispresent textBuffer (expected + 1) = false) :
    updateExpected textBuffer fuel expected = expected + 1 := by
  cases fuel with
  | zero => contradiction
  | succ fuel =>
      simp only [updateExpected, if_pos hpresent]
      exact updateExpected_of_not_present hbeyond fuel

theorem present_before_updateExpected
    {textBuffer : TextBuffer rwnd} {fuel expected : ℕ}
    (hpresent : ispresent textBuffer
      (updateExpected textBuffer fuel expected) = true) :
    ∀ k ≤ fuel, ispresent textBuffer (expected + k) = true := by
  induction fuel generalizing expected with
  | zero =>
      intro k hk
      obtain rfl : k = 0 := by omega
      exact hpresent
  | succ fuel ih =>
      simp only [updateExpected] at hpresent
      split at hpresent
      next hfirst =>
        intro k hk
        cases k with
        | zero => exact hfirst
        | succ k =>
            have hrest := ih hpresent k (by omega)
            rwa [show expected + 1 + k = expected + (k + 1) by omega] at hrest
      next habsent => contradiction

/-- The loop of `update_expected_seq_num` stops by its own test: more numbers
than slots cannot be present. -/
theorem ispresent_updateExpected
    (textBuffer : TextBuffer rwnd) (expected : ℕ) :
    ispresent textBuffer (updateExpectedSeqNum textBuffer expected) =
      false := by
  by_contra hne
  have hall := present_before_updateExpected
    (Bool.eq_true_of_not_eq_false hne)
  have hslot : ∀ k : Fin (rwnd + 1),
      ∃ i, (textBuffer i).isFilled = true ∧
        (textBuffer i).seq = expected + k.val := by
    intro k
    exact (ispresent_eq_true_iff _ _).mp (hall k.val (by omega))
  choose slot hslot using hslot
  have hinjective : Function.Injective slot := by
    intro j k hjk
    have hj := (hslot j).2
    rw [hjk, (hslot k).2] at hj
    exact Fin.ext (by omega)
  have hcard := Fintype.card_le_of_injective slot hinjective
  simp only [Fintype.card_fin] at hcard
  omega

/-! ## Numbers and payloads -/

structure Client.Numbered (client : Client rwnd) : Prop where
  numbers :
    client.accepted.map Accepted.seq = List.range client.expectedSeqNum
  below : ∀ i, (client.textBuffer i).isFilled = true →
    (client.textBuffer i).seq < client.expectedSeqNum

theorem Client.Initial.numbered
    {client : Client rwnd} (hinit : client.Initial) :
    client.Numbered := by
  constructor
  · simp [hinit.accepted, hinit.expected]
  · intro i hfilled
    rw [hinit.unfilled i] at hfilled
    contradiction

theorem Client.Numbered.length
    {client : Client rwnd} (hnumbered : client.Numbered) :
    client.payloads.length = client.expectedSeqNum := by
  have hlength := congrArg List.length hnumbered.numbers
  simpa [Client.payloads] using hlength

theorem Client.payloads_store
    (client : Client rwnd) (i : Fin rwnd) (type : DataType)
    (sendBuf : String) (seqNum : ℕ) :
    (client.store i type sendBuf seqNum).payloads =
      client.payloads ++ [sendBuf] := by
  simp [Client.payloads, Client.store]

theorem Client.Numbered.advance_unchanged
    {client : Client rwnd} (hnumbered : client.Numbered) :
    client.advanceExpected = client := by
  have habsent : ispresent client.textBuffer client.expectedSeqNum =
      false := by
    rw [← Bool.not_eq_true, ispresent_eq_true_iff]
    intro hpresent
    rcases hpresent with ⟨i, hfilled, hseq⟩
    have hlt := hnumbered.below i hfilled
    omega
  have hsame : updateExpectedSeqNum client.textBuffer
      client.expectedSeqNum = client.expectedSeqNum :=
    updateExpected_of_not_present habsent _
  simp [Client.advanceExpected, hsame]

theorem Client.Numbered.expected_store
    {client : Client rwnd} (hnumbered : client.Numbered)
    (i : Fin rwnd) (type : DataType) (sendBuf : String) :
    (client.store i type sendBuf
      client.expectedSeqNum).advanceExpected.expectedSeqNum =
        client.expectedSeqNum + 1 := by
  have hpresent : ispresent
      (client.store i type sendBuf client.expectedSeqNum).textBuffer
      client.expectedSeqNum = true := by
    rw [ispresent_eq_true_iff]
    exact ⟨i, by simp [Client.store], by simp [Client.store]⟩
  have hbeyond : ispresent
      (client.store i type sendBuf client.expectedSeqNum).textBuffer
      (client.expectedSeqNum + 1) = false := by
    rw [← Bool.not_eq_true, ispresent_eq_true_iff]
    intro hpresent
    rcases hpresent with ⟨j, hfilled, hseq⟩
    by_cases hj : j = i
    · subst j
      simp [Client.store] at hseq
    · simp only [Client.store, Function.update_of_ne hj] at hfilled hseq
      have hlt := hnumbered.below j hfilled
      omega
  exact updateExpected_of_present i.pos hpresent hbeyond

theorem Client.Numbered.store
    {client : Client rwnd} (hnumbered : client.Numbered)
    (i : Fin rwnd) (type : DataType) (sendBuf : String) :
    (client.store i type sendBuf
      client.expectedSeqNum).advanceExpected.Numbered := by
  have hexpected := hnumbered.expected_store i type sendBuf
  constructor
  · rw [hexpected, List.range_succ, ← hnumbered.numbers]
    simp [Client.advanceExpected, Client.store]
  · intro j hfilled
    rw [hexpected]
    by_cases hj : j = i
    · subst j
      simp [Client.advanceExpected, Client.store]
    · simp only [Client.advanceExpected, Client.store,
        Function.update_of_ne hj] at hfilled ⊢
      have hlt := hnumbered.below j hfilled
      omega

/-! ## One received datagram -/

/-- What the client would store for a datagram of each type. -/
def Datagram.entry? (datagram : Datagram) : Option (DataType × String) :=
  match datagram.config.type with
  | .data => some (.data, datagram.buf)
  | .eof => some (.eof, endOfFile)
  | .ping => none
  | .ack => none

theorem Client.pushDataToBuffer_cases
    {client pushed : Client rwnd} {type : DataType} {sendBuf : String}
    {seqNum : ℕ}
    (hpush : client.pushDataToBuffer type sendBuf seqNum = some pushed) :
    pushed = client ∨
      seqNum = client.expectedSeqNum ∧
        ∃ i : Fin rwnd, seqNum % rwnd = i.val ∧
          (client.textBuffer i).isFilled = false ∧
          pushed = client.store i type sendBuf seqNum := by
  unfold Client.pushDataToBuffer at hpush
  split at hpush
  next hpos =>
    dsimp only at hpush
    split_ifs at hpush with hfilled hseq
    · simp only [Option.some.injEq] at hpush
      exact .inl hpush.symm
    · simp only [Option.some.injEq] at hpush
      exact .inl hpush.symm
    · simp only [Option.some.injEq] at hpush
      refine .inr ⟨by simpa using hseq, _, rfl, ?_, hpush.symm⟩
      simpa using hfilled
  next => contradiction

/-- A datagram either leaves the buffer alone or is stored in a free slot
under the expected number. -/
theorem Client.handleDatagram_cases
    {client pushed : Client rwnd} {datagram : Datagram}
    (hhandle : client.handleDatagram datagram = some pushed) :
    pushed = client ∨
      ∃ (entry : DataType × String) (i : Fin rwnd),
        datagram.entry? = some entry ∧
        datagram.config.seq = client.expectedSeqNum ∧
        datagram.config.seq % rwnd = i.val ∧
        (client.textBuffer i).isFilled = false ∧
        pushed = client.store i entry.1 entry.2 datagram.config.seq := by
  unfold Client.handleDatagram at hhandle
  cases htype : datagram.config.type with
  | data =>
      simp only [htype] at hhandle
      rcases Client.pushDataToBuffer_cases hhandle with
        hsame | ⟨hseq, i, hi, hunfilled, hstored⟩
      · exact .inl hsame
      · exact .inr ⟨(.data, datagram.buf), i, by simp [Datagram.entry?, htype],
          hseq, hi, hunfilled, hstored⟩
  | eof =>
      simp only [htype] at hhandle
      rcases Client.pushDataToBuffer_cases hhandle with
        hsame | ⟨hseq, i, hi, hunfilled, hstored⟩
      · exact .inl hsame
      · exact .inr ⟨(.eof, endOfFile), i, by simp [Datagram.entry?, htype],
          hseq, hi, hunfilled, hstored⟩
  | ping =>
      simp only [htype, Option.some.injEq] at hhandle
      exact .inl hhandle.symm
  | ack =>
      simp only [htype, Option.some.injEq] at hhandle
      exact .inl hhandle.symm

theorem Client.Numbered.withStatus
    {client : Client rwnd} (hnumbered : client.Numbered)
    (status : ClientStatus) :
    ({ client with status := status } : Client rwnd).Numbered :=
  ⟨hnumbered.numbers, hnumbered.below⟩

theorem Client.Numbered.receive
    {client : Client rwnd} (hnumbered : client.Numbered)
    (datagram : Datagram) :
    (client.receive datagram).1.Numbered := by
  cases hhandle : client.handleDatagram datagram with
  | none =>
      simp only [Client.receive, hhandle]
      exact hnumbered.withStatus _
  | some pushed =>
      simp only [Client.receive, hhandle]
      apply Client.Numbered.withStatus
      rcases Client.handleDatagram_cases hhandle with
        hsame | ⟨entry, i, _, hseq, _, _, hstored⟩
      · subst hsame
        rw [hnumbered.advance_unchanged]
        exact hnumbered
      · subst hstored
        rw [hseq]
        exact hnumbered.store i entry.1 entry.2

theorem Client.Numbered.receive_cases
    {client : Client rwnd} (hnumbered : client.Numbered)
    (datagram : Datagram) :
    ((client.receive datagram).1.accepted = client.accepted ∧
        (client.receive datagram).1.expectedSeqNum =
          client.expectedSeqNum) ∨
      ∃ entry, datagram.entry? = some entry ∧
        datagram.config.seq = client.expectedSeqNum ∧
        (client.receive datagram).1.accepted =
          client.accepted ++
            [⟨entry.1, entry.2, client.expectedSeqNum⟩] ∧
        (client.receive datagram).1.expectedSeqNum =
          client.expectedSeqNum + 1 := by
  cases hhandle : client.handleDatagram datagram with
  | none => simp [Client.receive, hhandle]
  | some pushed =>
      simp only [Client.receive, hhandle]
      rcases Client.handleDatagram_cases hhandle with
        hsame | ⟨entry, i, hentry, hseq, _, _, hstored⟩
      · subst hsame
        rw [hnumbered.advance_unchanged]
        exact .inl ⟨rfl, rfl⟩
      · subst hstored
        rw [hseq]
        exact .inr ⟨entry, hentry, rfl, rfl,
          hnumbered.expected_store i entry.1 entry.2⟩

theorem Client.receive_ack_seq
    {client : Client rwnd} {datagram : Datagram} {ack : Ack}
    (hack : (client.receive datagram).2 = some ack) :
    ack.seq = (client.receive datagram).1.expectedSeqNum := by
  cases hhandle : client.handleDatagram datagram with
  | none => simp [Client.receive, hhandle] at hack
  | some pushed =>
      simp only [Client.receive, hhandle, Option.some.injEq] at hack ⊢
      subst hack
      rfl

/-! ## One pass of the reader -/

theorem drainStep_isFilled
    {state : TextBuffer rwnd × List (String × ℕ)} {slot i : Fin rwnd}
    (hfilled : ((drainStep state slot).1 i).isFilled = true) :
    (drainStep state slot).1 i = state.1 i := by
  unfold drainStep at hfilled ⊢
  dsimp only at hfilled ⊢
  split_ifs at hfilled ⊢ with hslot
  · by_cases hi : i = slot
    · subst i
      simp at hfilled
    · simp [hi]
  · rfl

theorem foldl_drainStep_isFilled
    (slots : List (Fin rwnd))
    {state : TextBuffer rwnd × List (String × ℕ)} {i : Fin rwnd}
    (hfilled : ((slots.foldl drainStep state).1 i).isFilled = true) :
    (slots.foldl drainStep state).1 i = state.1 i := by
  induction slots generalizing state with
  | nil => rfl
  | cons slot slots ih =>
      simp only [List.foldl_cons] at hfilled ⊢
      have htail := ih hfilled
      rw [htail] at hfilled
      rw [htail, drainStep_isFilled hfilled]

theorem Client.Numbered.readerPass
    {client : Client rwnd} (hnumbered : client.Numbered) :
    client.readerPass.Numbered := by
  constructor
  · exact hnumbered.numbers
  · intro i hfilled
    have hsame := foldl_drainStep_isFilled _ hfilled
    change (client.readerPass.textBuffer i).isFilled = true at hfilled
    change client.readerPass.textBuffer i = client.textBuffer i at hsame
    rw [hsame] at hfilled ⊢
    exact hnumbered.below i hfilled

end NetworkProgramming.Transfer
