import NetworkProgramming.TransferClientAcceptance
import NetworkProgramming.RingWindow
import NetworkProgramming.Transition

/-!
# The window kept by the client's buffer

The filled slots always form one window of the accepted payloads: everything
before the window has been printed, in order and once, and everything in it is
still stored.  The abstract statement is `RingWindow.Represents`; this module
shows that storing a payload extends the represented sequence and that a pass
of the reader shortens the window from the front.
-/

namespace NetworkProgramming.Transfer

variable {rwnd : ℕ}

/-- A slot as an optional numbered payload. -/
def Buffer.entry (slot : Buffer) : Option (String × ℕ) :=
  if slot.isFilled then some (slot.data, slot.seq) else none

/-- The buffer as a ring of numbered payloads. -/
def ringOf (textBuffer : TextBuffer rwnd) :
    Fin rwnd → Option (String × ℕ) :=
  fun i => (textBuffer i).entry

theorem Buffer.entry_eq_none_iff (slot : Buffer) :
    slot.entry = none ↔ slot.isFilled = false := by
  cases hfilled : slot.isFilled <;> simp [Buffer.entry, hfilled]

theorem Buffer.entry_eq_some_iff (slot : Buffer) (entry : String × ℕ) :
    slot.entry = some entry ↔
      slot.isFilled = true ∧ slot.data = entry.1 ∧ slot.seq = entry.2 := by
  rcases entry with ⟨data, seq⟩
  cases hfilled : slot.isFilled <;> simp [Buffer.entry, hfilled]

theorem ringOf_update
    (textBuffer : TextBuffer rwnd) (i : Fin rwnd) (slot : Buffer) :
    ringOf (Function.update textBuffer i slot) =
      Function.update (ringOf textBuffer) i slot.entry := by
  funext j
  by_cases hj : j = i
  · subst j
    simp [ringOf]
  · simp [ringOf, hj]

/-! ## The slot with the smallest number -/

theorem foldl_minSeqStep
    (textBuffer : TextBuffer rwnd) (slots : List (Fin rwnd))
    (best : ℕ × ℕ) :
    let result := slots.foldl (minSeqStep textBuffer) best
    (result = best ∨ ∃ i ∈ slots, (textBuffer i).isFilled = true ∧
        result = ((textBuffer i).seq, i.val)) ∧
      result.1 ≤ best.1 ∧
      ∀ i ∈ slots, (textBuffer i).isFilled = true →
        result.1 ≤ (textBuffer i).seq := by
  induction slots generalizing best with
  | nil => simp
  | cons slot slots ih =>
      simp only [List.foldl_cons]
      have htail := ih (minSeqStep textBuffer best slot)
      have hhead :
          (minSeqStep textBuffer best slot = best ∨
            (textBuffer slot).isFilled = true ∧
              minSeqStep textBuffer best slot =
                ((textBuffer slot).seq, slot.val)) ∧
          (minSeqStep textBuffer best slot).1 ≤ best.1 ∧
          ((textBuffer slot).isFilled = true →
            (minSeqStep textBuffer best slot).1 ≤ (textBuffer slot).seq) := by
        unfold minSeqStep
        by_cases hfilled : (textBuffer slot).isFilled = true
        · by_cases hlt : (textBuffer slot).seq < best.1
          · simp [hfilled, hlt, hlt.le]
          · simp [hfilled, not_lt.mp hlt]
        · simp [hfilled]
      rcases htail with ⟨hresult, hle, hall⟩
      refine ⟨?_, hle.trans hhead.2.1, ?_⟩
      · rcases hresult with hsame | ⟨i, hi, hfilled, heq⟩
        · rw [hsame]
          rcases hhead.1 with hkeep | ⟨hfilled, hnew⟩
          · exact .inl hkeep
          · exact .inr ⟨slot, by simp, hfilled, hnew⟩
        · exact .inr ⟨i, by simp [hi], hfilled, heq⟩
      · intro i hi hfilled
        rcases List.mem_cons.mp hi with rfl | hi
        · exact hle.trans (hhead.2.2 hfilled)
        · exact hall i hi hfilled

theorem minSeqNum_spec
    {textBuffer : TextBuffer rwnd}
    (hbelow : ∀ i, (textBuffer i).isFilled = true →
      (textBuffer i).seq < intMax)
    {j : Fin rwnd} (hj : (textBuffer j).isFilled = true) :
    ∃ i, minSeqNum textBuffer = i.val ∧
      (textBuffer i).isFilled = true ∧
      ∀ k, (textBuffer k).isFilled = true →
        (textBuffer i).seq ≤ (textBuffer k).seq := by
  obtain ⟨hresult, -, hall⟩ :=
    foldl_minSeqStep textBuffer (List.finRange rwnd) (intMax, 0)
  rcases hresult with hsame | ⟨i, -, hfilled, heq⟩
  · have hle := hall j (List.mem_finRange j) hj
    rw [hsame] at hle
    have hlt := hbelow j hj
    simp only at hle
    omega
  · refine ⟨i, by simp [minSeqNum, heq], hfilled, ?_⟩
    intro k hk
    have hle := hall k (List.mem_finRange k) hk
    rwa [heq] at hle

/-! ## One pass of the reader -/

theorem foldl_drainStep
    {slots : List (Fin rwnd)} (hslots : slots.Nodup)
    (state : TextBuffer rwnd × List (String × ℕ)) :
    (∀ i, ((slots.foldl drainStep state).1 i).entry =
        if i ∈ slots then none else (state.1 i).entry) ∧
      (slots.foldl drainStep state).2 =
        state.2 ++ slots.filterMap (ringOf state.1) := by
  induction slots generalizing state with
  | nil => simp
  | cons slot slots ih =>
      rw [List.nodup_cons] at hslots
      obtain ⟨hbuffer, hprinted⟩ := ih hslots.2 (drainStep state slot)
      simp only [List.foldl_cons]
      have hother : ∀ i, i ≠ slot →
          (drainStep state slot).1 i = state.1 i := by
        intro i hi
        unfold drainStep
        dsimp only
        split_ifs
        · simp [hi]
        · rfl
      have hself : ((drainStep state slot).1 slot).entry = none := by
        unfold drainStep
        dsimp only
        split_ifs with hfilled
        · simp [Buffer.entry]
        · simpa [Buffer.entry_eq_none_iff] using hfilled
      have hhead : (drainStep state slot).2 =
          state.2 ++ ((state.1 slot).entry).toList := by
        unfold drainStep
        dsimp only
        split_ifs with hfilled <;> simp [Buffer.entry, hfilled]
      constructor
      · intro i
        rw [hbuffer i]
        by_cases hi : i = slot
        · subst i
          simp [hself]
        · simp [hi, hother i hi]
      · have htail : slots.filterMap (ringOf (drainStep state slot).1) =
            slots.filterMap (ringOf state.1) := by
          apply List.filterMap_congr
          intro i hi
          have hne : i ≠ slot := by
            rintro rfl
            exact hslots.1 hi
          simp [ringOf, hother i hne]
        rw [hprinted, hhead, htail, List.filterMap_cons]
        unfold ringOf
        cases (state.1 slot).entry <;> simp

/-! ## The window invariant -/

/-- The buffer holds the accepted payloads from number `first` on, and the
earlier ones have been printed. -/
structure Client.WindowFrom (client : Client rwnd) (first : ℕ) : Prop where
  represents :
    RingWindow.Represents (ringOf client.textBuffer) client.payloads first
  numbered : client.Numbered
  printed : client.printed = client.payloads.zipIdx.take first

theorem Client.Initial.windowFrom
    {client : Client rwnd} (hinit : client.Initial) :
    client.WindowFrom 0 := by
  have hpayloads : client.payloads = [] := by
    simp [Client.payloads, hinit.accepted]
  constructor
  · rw [hpayloads]
    apply RingWindow.represents_empty
    intro i
    exact (Buffer.entry_eq_none_iff _).mpr (hinit.unfilled i)
  · exact hinit.numbered
  · simp [hinit.printed]

theorem Client.WindowFrom.expected
    {client : Client rwnd} {first : ℕ}
    (hwindow : client.WindowFrom first) :
    client.expectedSeqNum = client.payloads.length :=
  hwindow.numbered.length.symm

theorem Client.WindowFrom.withStatus
    {client : Client rwnd} {first : ℕ}
    (hwindow : client.WindowFrom first) (status : ClientStatus) :
    ({ client with status := status } : Client rwnd).WindowFrom first :=
  ⟨hwindow.represents, hwindow.numbered.withStatus status, hwindow.printed⟩

theorem Client.WindowFrom.store
    {client : Client rwnd} {first : ℕ}
    (hwindow : client.WindowFrom first) {i : Fin rwnd}
    (hi : client.expectedSeqNum % rwnd = i.val)
    (hunfilled : (client.textBuffer i).isFilled = false)
    (type : DataType) (sendBuf : String) :
    (client.store i type sendBuf
      client.expectedSeqNum).advanceExpected.WindowFrom first := by
  have hnumber := hwindow.expected
  have hfirst := hwindow.represents.first_le
  have hpayloads :
      (client.store i type sendBuf
        client.expectedSeqNum).advanceExpected.payloads =
          client.payloads ++ [sendBuf] :=
    client.payloads_store i type sendBuf client.expectedSeqNum
  constructor
  · rw [hpayloads]
    have hnone : ringOf client.textBuffer i = none :=
      (Buffer.entry_eq_none_iff _).mpr hunfilled
    have hnext := hwindow.represents.push (by rwa [← hnumber])
      hnone sendBuf
    simp only [Client.advanceExpected, Client.store]
    rw [ringOf_update]
    simpa [Buffer.entry, hnumber] using hnext
  · exact hwindow.numbered.store i type sendBuf
  · rw [hpayloads, List.zipIdx_append, List.take_append_of_le_length]
    · exact hwindow.printed
    · simpa using hfirst

theorem Client.WindowFrom.receive
    {client : Client rwnd} {first : ℕ}
    (hwindow : client.WindowFrom first) (datagram : Datagram) :
    (client.receive datagram).1.WindowFrom first := by
  cases hhandle : client.handleDatagram datagram with
  | none =>
      simp only [Client.receive, hhandle]
      exact hwindow.withStatus _
  | some pushed =>
      simp only [Client.receive, hhandle]
      apply Client.WindowFrom.withStatus
      rcases Client.handleDatagram_cases hhandle with
        hsame | ⟨entry, i, _, hseq, hi, hunfilled, hstored⟩
      · subst hsame
        rw [hwindow.numbered.advance_unchanged]
        exact hwindow
      · subst hstored
        rw [hseq] at hi ⊢
        exact hwindow.store hi hunfilled entry.1 entry.2

/-! ## The reader shortens the window -/

theorem Client.WindowFrom.seq_lt
    {client : Client rwnd} {first : ℕ}
    (hwindow : client.WindowFrom first) {i : Fin rwnd}
    (hfilled : (client.textBuffer i).isFilled = true) :
    first ≤ (client.textBuffer i).seq ∧
      (client.textBuffer i).seq < client.payloads.length ∧
      (client.textBuffer i).seq % rwnd = i.val := by
  have hentry : ringOf client.textBuffer i =
      some ((client.textBuffer i).data, (client.textBuffer i).seq) := by
    simp [ringOf, Buffer.entry, hfilled]
  obtain ⟨hfirst, hmod, hlog⟩ := (hwindow.represents.slot_iff _ _).mp hentry
  exact ⟨hfirst, (List.getElem?_eq_some_iff.mp hlog).1, hmod⟩

theorem Client.WindowFrom.minSeqNum_eq
    {client : Client rwnd} {first : ℕ} (hpos : 0 < rwnd)
    (hwindow : client.WindowFrom first)
    (hbound : client.expectedSeqNum ≤ intMax)
    (hnonempty : first < client.payloads.length) :
    minSeqNum client.textBuffer = first % rwnd := by
  let j : Fin rwnd := ⟨first % rwnd, Nat.mod_lt first hpos⟩
  have hj : ringOf client.textBuffer j =
      some (client.payloads[first], first) := by
    rw [hwindow.represents.slot_iff]
    exact ⟨le_rfl, rfl, List.getElem?_eq_getElem hnonempty⟩
  obtain ⟨hfilled, -, hseq⟩ := (Buffer.entry_eq_some_iff _ _).mp hj
  have hbelow : ∀ i, (client.textBuffer i).isFilled = true →
      (client.textBuffer i).seq < intMax := by
    intro i hi
    have hlt := (hwindow.seq_lt hi).2.1
    rw [hwindow.expected] at hbound
    omega
  obtain ⟨i, hmin, hi, hleast⟩ := minSeqNum_spec hbelow hfilled
  have hle := hleast j hfilled
  have hparts := hwindow.seq_lt hi
  have heq : (client.textBuffer i).seq = first := by
    simp only at hseq
    omega
  rw [hmin, ← hparts.2.2, heq]

/-- The reader empties the slots from the smallest number on, and prints
their lines. -/
theorem Client.readerPass_drains (client : Client rwnd) :
    (∀ i, ringOf client.readerPass.textBuffer i =
      if i ∈ (List.finRange rwnd).drop (minSeqNum client.textBuffer)
        then none else ringOf client.textBuffer i) ∧
    client.readerPass.printed = client.printed ++
      ((List.finRange rwnd).drop
        (minSeqNum client.textBuffer)).filterMap
          (ringOf client.textBuffer) :=
  foldl_drainStep ((List.nodup_finRange rwnd).sublist
    (List.drop_sublist _ _)) (client.textBuffer, client.printed)

theorem Client.WindowFrom.readerPass
    {client : Client rwnd} {first : ℕ} (hpos : 0 < rwnd)
    (hwindow : client.WindowFrom first)
    (hbound : client.expectedSeqNum ≤ intMax) :
    client.readerPass.WindowFrom
      (RingWindow.cut rwnd client.payloads first) := by
  have hfirst := hwindow.represents.first_le
  obtain ⟨hbuffer, hprinted⟩ := client.readerPass_drains
  rcases Nat.lt_or_ge first client.payloads.length with hlt | hge
  · have hmin := hwindow.minSeqNum_eq hpos hbound hlt
    rw [hmin] at hbuffer hprinted
    have hring : ringOf client.readerPass.textBuffer = fun i =>
        if first % rwnd ≤ i.val then none else ringOf client.textBuffer i := by
      funext i
      have hentry := hbuffer i
      simp only [RingWindow.mem_finRange_drop
        (Nat.mod_lt first hpos).le] at hentry
      exact hentry
    constructor
    · rw [hring]
      exact hwindow.represents.clear
    · exact hwindow.numbered.readerPass
    · change (_ : List (String × ℕ)) = client.payloads.zipIdx.take _
      rw [hprinted, hwindow.printed, hwindow.represents.filterMap_drop hpos,
        ← List.take_add]
      congr 1
      have hcut := RingWindow.first_le_cut (n := rwnd) hfirst
      omega
  · have hfull : first = client.payloads.length := by omega
    subst hfull
    have hnone := hwindow.represents.slot_none_of_full_range
    have hcut : RingWindow.cut rwnd client.payloads
        client.payloads.length = client.payloads.length := by
      unfold RingWindow.cut
      omega
    have hring : ringOf client.readerPass.textBuffer =
        ringOf client.textBuffer := by
      funext i
      rw [hbuffer i, hnone i, ite_self]
    have hlines : client.readerPass.printed = client.printed := by
      rw [hprinted]
      simp [hnone]
    rw [hcut]
    constructor
    · rw [hring]
      exact hwindow.represents
    · exact hwindow.numbered.readerPass
    · rw [hlines]
      exact hwindow.printed

/-! ## Every interleaving of datagrams and reader passes -/

/-- Received numbers stay below `INT_MAX`, the starting value of the search
for the smallest one. -/
def SeqBelowIntMax : Client rwnd → ClientEvent → Prop
  | _, .receive datagram => datagram.config.seq < intMax
  | _, .readerPass => True

instance (client : Client rwnd) (event : ClientEvent) :
    Decidable (SeqBelowIntMax client event) :=
  match event with
  | .receive datagram => inferInstanceAs (Decidable (datagram.config.seq < _))
  | .readerPass => inferInstanceAs (Decidable True)

theorem Client.expected_receive_le
    {client : Client rwnd} (hnumbered : client.Numbered)
    (hbound : client.expectedSeqNum ≤ intMax) {datagram : Datagram}
    (hseq : datagram.config.seq < intMax) :
    (client.receive datagram).1.expectedSeqNum ≤ intMax := by
  rcases hnumbered.receive_cases datagram with
    hsame | ⟨entry, _, hexpected, _, hnext⟩
  · rw [hsame.2]
    exact hbound
  · rw [hnext]
    omega

theorem Client.WindowFrom.step
    (hpos : 0 < rwnd) {client next : Client rwnd} {event : ClientEvent}
    {first : ℕ} (hwindow : client.WindowFrom first)
    (hbound : client.expectedSeqNum ≤ intMax)
    (hseq : SeqBelowIntMax client event)
    (hstep : Client.step client event = some next) :
    (∃ start, first ≤ start ∧ next.WindowFrom start) ∧
      next.expectedSeqNum ≤ intMax := by
  cases event with
  | receive datagram =>
      simp only [Client.step, Option.ite_none_right_eq_some,
        Option.some.injEq] at hstep
      rcases hstep with ⟨_, rfl⟩
      exact ⟨⟨first, le_rfl, hwindow.receive datagram⟩,
        Client.expected_receive_le hwindow.numbered hbound hseq⟩
  | readerPass =>
      simp only [Client.step, Option.ite_none_right_eq_some,
        Option.some.injEq] at hstep
      rcases hstep with ⟨_, rfl⟩
      have hcut := RingWindow.first_le_cut (n := rwnd)
        hwindow.represents.first_le
      exact ⟨⟨_, hcut, hwindow.readerPass hpos hbound⟩, hbound⟩

theorem Client.windowFrom_of_reachable
    (hpos : 0 < rwnd) {client : Client rwnd}
    (hreach : Transition.Reachable Client.step SeqBelowIntMax
      Client.Initial client) :
    (∃ first, client.WindowFrom first) ∧
      client.expectedSeqNum ≤ intMax := by
  refine hreach.invariant
    (fun client => (∃ first, client.WindowFrom first) ∧
      client.expectedSeqNum ≤ intMax) ?_ ?_
  · intro start hinit
    exact ⟨⟨0, hinit.windowFrom⟩, by simp [hinit.expected]⟩
  · rintro client event next ⟨⟨first, hwindow⟩, hbound⟩ hseq hstep
    rcases hwindow.step hpos hbound hseq hstep with
      ⟨⟨start, _, hstart⟩, hlimit⟩
    exact ⟨⟨start, hstart⟩, hlimit⟩

/-- What the buffer and the output look like when the window starts at
`first`: the filled slots hold exactly the numbers from `first` to the
expected one, each in its own slot and with its own payload, and the output is
the list of the earlier payloads. -/
structure Client.HoldsWindow (client : Client rwnd) (first : ℕ) :
    Prop where
  first_le : first ≤ client.expectedSeqNum
  size_le : client.expectedSeqNum - first ≤ rwnd
  accepted_seq :
    client.accepted.map Accepted.seq = List.range client.expectedSeqNum
  filled_iff : ∀ i, (client.textBuffer i).isFilled = true ↔
    ∃ s, first ≤ s ∧ s < client.expectedSeqNum ∧ s % rwnd = i.val
  stored : ∀ s i, first ≤ s → s < client.expectedSeqNum →
    s % rwnd = i.val →
      (client.textBuffer i).seq = s ∧
        client.payloads[s]? = some (client.textBuffer i).data
  printed : client.printed = client.payloads.zipIdx.take first

theorem Client.WindowFrom.holdsWindow
    {client : Client rwnd} {first : ℕ}
    (hwindow : client.WindowFrom first) :
    client.HoldsWindow first := by
  have hexpected := hwindow.expected
  have hentry : ∀ s i, first ≤ s → s < client.expectedSeqNum →
      s % rwnd = i.val → (client.textBuffer i).isFilled = true ∧
        (client.textBuffer i).seq = s ∧
        client.payloads[s]? = some (client.textBuffer i).data := by
    intro s i hfirst hlt hmod
    rw [hexpected] at hlt
    have hslot : ringOf client.textBuffer i =
        some (client.payloads[s], s) := by
      rw [hwindow.represents.slot_iff]
      exact ⟨hfirst, hmod, List.getElem?_eq_getElem hlt⟩
    obtain ⟨hfilled, hdata, hseq⟩ := (Buffer.entry_eq_some_iff _ _).mp hslot
    exact ⟨hfilled, hseq, by rw [hdata]; exact List.getElem?_eq_getElem hlt⟩
  constructor
  · rw [hexpected]
    exact hwindow.represents.first_le
  · rw [hexpected]
    exact hwindow.represents.size_le
  · exact hwindow.numbered.numbers
  · intro i
    constructor
    · intro hfilled
      have hparts := hwindow.seq_lt hfilled
      exact ⟨_, hparts.1, by rw [hexpected]; exact hparts.2.1, hparts.2.2⟩
    · rintro ⟨s, hfirst, hlt, hmod⟩
      exact (hentry s i hfirst hlt hmod).1
  · intro s i hfirst hlt hmod
    exact (hentry s i hfirst hlt hmod).2
  · exact hwindow.printed

/-- In every interleaving of received datagrams and reader passes the buffer
holds one window of the accepted payloads and the output is everything before
it, in order. -/
theorem clientBuffer_holdsWindow
    (hrwnd : 1 ≤ rwnd) {client : Client rwnd}
    (hreach : Transition.Reachable Client.step SeqBelowIntMax
      Client.Initial client) :
    ∃ first, client.HoldsWindow first := by
  obtain ⟨⟨first, hwindow⟩, -⟩ := Client.windowFrom_of_reachable hrwnd hreach
  exact ⟨first, hwindow.holdsWindow⟩

/-- Three slots and five payloads: the second pass of the reader stops at the
end of the array and leaves the wrapped part of the window in the buffer. -/
theorem clientBuffer_holdsWindow_wrapped :
    ∃ client : Client 3,
      (client.expectedSeqNum = 5 ∧
        client.printed = [("a", 0), ("b", 1), ("c", 2)] ∧
        client.payloads = ["a", "b", "c", "d", "e"]) ∧
      ∃ first, client.HoldsWindow first := by
  let packet (buf : String) (seq : ℕ) : ClientEvent :=
    .receive ⟨⟨seq, 0, 0, .data⟩, buf⟩
  obtain ⟨client, hreach, htest⟩ := Transition.exists_reachable_of_replay
    Client.step SeqBelowIntMax (Client.fresh_initial 3)
    [packet "a" 0, packet "b" 1, .readerPass, packet "c" 2,
      packet "d" 3, packet "x" 3, packet "e" 4, .readerPass]
    (fun client =>
      decide (client.expectedSeqNum = 5) &&
        decide (client.printed = [("a", 0), ("b", 1), ("c", 2)]) &&
        decide (client.payloads = ["a", "b", "c", "d", "e"]))
    (by decide +kernel)
  simp only [Bool.and_eq_true, decide_eq_true_eq] at htest
  exact ⟨client, ⟨htest.1.1, htest.1.2, htest.2⟩,
    clientBuffer_holdsWindow (by decide) hreach⟩

end NetworkProgramming.Transfer
