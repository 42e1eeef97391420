import NetworkProgramming.TransferClientWindow
import NetworkProgramming.TransferCongestion
import NetworkProgramming.TransferServerCursor

/-!
# Server and client over a link which loses nothing

The link keeps datagrams and acknowledgements in order and delivers each of
them once, and every acknowledgement comes before the alarm.  Then the server
and the client stay in step: what is on the way are the numbers from the
expected one to the last one sent, and the acknowledgements count up without
a gap.  When the client has no free slot, a ping and its answer are all that
is on the way.
-/

namespace NetworkProgramming.Transfer

/-- The two queues have their oldest element first; `sent` is history. -/
structure Link (rwnd : ℕ) where
  server : Server
  client : Client rwnd
  datagrams : List Datagram
  acks : List Ack
  sent : List Datagram

inductive LinkEvent where
  | send (tvTs tvInit : Timeval)
  | deliver
  | acknowledge (tv : Timeval)
  | readerPass
  deriving DecidableEq, Repr

variable {rwnd : ℕ} {words : List String}

def Link.withSent (link : Link rwnd) (server : Server)
    (datagrams : List Datagram) : Link rwnd :=
  { link with
    server := server
    datagrams := link.datagrams ++ datagrams
    sent := link.sent ++ datagrams }

def Link.delivered (link : Link rwnd) (datagram : Datagram)
    (datagrams : List Datagram) : Link rwnd :=
  { link with
    client := (link.client.receive datagram).1
    datagrams := datagrams
    acks := link.acks ++ (link.client.receive datagram).2.toList }

def Link.acknowledged (link : Link rwnd) (server : Server)
    (acks : List Ack) : Link rwnd :=
  { link with server := server, acks := acks }

def Link.step (words : List String) (link : Link rwnd) :
    LinkEvent → Option (Link rwnd)
  | .send tvTs tvInit =>
      (link.server.send words tvTs tvInit).map fun sent =>
        link.withSent sent.1 sent.2.toList
  | .deliver =>
      match link.datagrams with
      | [] => none
      | datagram :: datagrams =>
          if link.client.status = .receiving then
            some (link.delivered datagram datagrams)
          else none
  | .acknowledge tv =>
      match link.server.point, link.acks with
      | .waiting wait, ack :: acks =>
          some (link.acknowledged (link.server.receiveAck wait ack tv) acks)
      | _, _ => none
  | .readerPass =>
      if link.client.status = .receiving then
        some { link with client := link.client.readerPass }
      else none

/-- An acknowledgement keeps `cwnd` in the range of an `int`. -/
def Link.Allowed (link : Link rwnd) : LinkEvent → Prop
  | .send _ _ => True
  | .deliver => True
  | .acknowledge _ => growCwnd link.server.config ≤ intMax
  | .readerPass => True

instance (link : Link rwnd) (event : LinkEvent) :
    Decidable (link.Allowed event) :=
  match event with
  | .send _ _ => inferInstanceAs (Decidable True)
  | .deliver => inferInstanceAs (Decidable True)
  | .acknowledge _ =>
      inferInstanceAs (Decidable (growCwnd link.server.config ≤ intMax))
  | .readerPass => inferInstanceAs (Decidable True)

/-- The window of `server.in` is not negative; it may be larger than that of
the client. -/
structure Link.Initial (link : Link rwnd) : Prop where
  server : ∃ config qObj servRwnd, config.isEOF = 0 ∧ 0 ≤ servRwnd ∧
    link.server = Server.start config qObj servRwnd
  client : link.client.Initial
  datagrams : link.datagrams = []
  acks : link.acks = []
  sent : link.sent = []

/-! ## The packets of a file -/

/-- What the client is to store. -/
def fileEntries (words : List String) : List (DataType × String) :=
  words.map (fun word => (.data, word)) ++ [(.eof, endOfFile)]

theorem fileEntries_word
    {i : ℕ} (hi : i < words.length) :
    (fileEntries words)[i]? = words[i]?.map fun word => (.data, word) := by
  rw [fileEntries, List.getElem?_append_left (by simpa using hi),
    List.getElem?_map]

theorem fileEntries_end :
    (fileEntries words)[words.length]? = some (.eof, endOfFile) := by
  simp [fileEntries]

theorem exists_fileEntry
    {i : ℕ} (hi : i ≤ words.length) :
    ∃ entry, (fileEntries words)[i]? = some entry ∧
      (entry.1 = .eof ↔ i = words.length) := by
  rcases hi.lt_or_eq with hlt | heq
  · refine ⟨(.data, words[i]), ?_, ?_⟩
    · rw [fileEntries_word hlt, List.getElem?_eq_getElem hlt]
      rfl
    · simp [hlt.ne]
  · subst heq
    exact ⟨_, fileEntries_end, by simp⟩

/-- The datagram is the packet with the number. -/
structure Datagram.Carries (words : List String) (datagram : Datagram)
    (seq : ℕ) : Prop where
  seq_eq : datagram.config.seq = seq
  entry : datagram.entry? = (fileEntries words)[seq]?

def Datagram.isPing (datagram : Datagram) : Bool :=
  decide (datagram.config.type = .ping)

theorem Datagram.Carries.not_ping
    {datagram : Datagram} {seq : ℕ} (hcarries : datagram.Carries words seq)
    (hle : seq ≤ words.length) :
    datagram.isPing = false := by
  obtain ⟨entry, hentry, _⟩ := exists_fileEntry hle
  have hsome := hcarries.entry.trans hentry
  rw [Datagram.isPing, decide_eq_false_iff_not]
  intro hping
  simp [Datagram.entry?, hping] at hsome

/-- The datagrams are the packets from `start` up to `next`; behind the end
marker there may be copies of it. -/
def Packets (words : List String) (datagrams : List Datagram)
    (start next : ℕ) : Prop :=
  ∃ extra, (extra ≠ 0 → next = words.length + 1) ∧
    List.Forall₂ (Datagram.Carries words) datagrams
      (List.range' start (next - start) ++
        List.replicate extra words.length)

section Packets

variable {datagrams : List Datagram} {start next : ℕ}

theorem packets_nil (words : List String) (start : ℕ) :
    Packets words [] start start :=
  ⟨0, fun hne => absurd rfl hne, by simp⟩

theorem Packets.concat
    (hpackets : Packets words datagrams start next)
    (hstart : start ≤ next) (hle : next ≤ words.length + 1)
    {datagram : Datagram}
    (hcarries : datagram.Carries words (min next words.length)) :
    Packets words (datagrams ++ [datagram]) start
      (min (next + 1) (words.length + 1)) := by
  obtain ⟨extra, hextra, hall⟩ := hpackets
  have hmore := List.rel_append hall (.cons hcarries .nil)
  by_cases hend : next ≤ words.length
  · have hnone : extra = 0 := by
      by_contra hsome
      have := hextra hsome
      omega
    have hnext : start + (next - start) = next := by omega
    refine ⟨0, fun hne => absurd rfl hne, ?_⟩
    rw [hnone, min_eq_left hend] at hmore
    rw [min_eq_left (by omega), Nat.sub_add_comm hstart,
      List.range'_1_concat, hnext]
    simpa using hmore
  · refine ⟨extra + 1, fun _ => by omega, ?_⟩
    have hsame : min (next + 1) (words.length + 1) = next := by omega
    rw [min_eq_right (by omega)] at hmore
    rw [hsame, List.replicate_succ', ← List.append_assoc]
    exact hmore

/-- The oldest of the datagrams. -/
theorem Packets.head
    (hpackets : Packets words datagrams start next) (hlt : start < next) :
    ∃ datagram rest, datagrams = datagram :: rest ∧
      datagram.Carries words start ∧
      Packets words rest (start + 1) next := by
  obtain ⟨extra, hextra, hall⟩ := hpackets
  have hcons : next - start = next - (start + 1) + 1 := by omega
  rw [hcons, List.range'_succ, List.cons_append,
    List.forall₂_cons_right_iff] at hall
  obtain ⟨datagram, rest, hcarries, hrest, heq⟩ := hall
  exact ⟨datagram, rest, heq, hcarries, extra, hextra, hrest⟩

theorem Packets.eq_nil
    (hpackets : Packets words datagrams next next)
    (hle : next ≤ words.length) : datagrams = [] := by
  obtain ⟨extra, hextra, hall⟩ := hpackets
  have hnone : extra = 0 := by
    by_contra hsome
    have := hextra hsome
    omega
  simpa [hnone] using hall

end Packets

/-! ## The server -/

/-- The server goes through the file in order, and `next` packets of it have
been sent. -/
structure Server.Ahead (words : List String) (server : Server)
    (next : ℕ) : Prop where
  seqNum : server.seqNum = next - 1
  le : next ≤ words.length + 1
  fp : server.fp = min next words.length
  unacked : server.config.lastUnackedSeq = -1
  last : server.config.lastPackSeqNo =
    if next ≤ words.length then (-1 : ℤ) else words.length
  cwnd : 1 ≤ server.config.cwnd

section Server

variable {server : Server} {next : ℕ}

theorem Server.Ahead.congr
    (hahead : server.Ahead words next) {other : Server}
    (hseqNum : other.seqNum = server.seqNum) (hfp : other.fp = server.fp)
    (hunacked : other.config.lastUnackedSeq = -1)
    (hlast : other.config.lastPackSeqNo = server.config.lastPackSeqNo)
    (hcwnd : 1 ≤ other.config.cwnd) :
    other.Ahead words next :=
  ⟨hseqNum.trans hahead.seqNum, hahead.le, hfp.trans hahead.fp, hunacked,
    hlast.trans hahead.last, hcwnd⟩

theorem Server.Ahead.ackPastLast_iff
    (hahead : server.Ahead words next) (seq : ℕ) :
    server.config.AckPastLast seq ↔
      next = words.length + 1 ∧ words.length < seq := by
  have hle := hahead.le
  have hlast := hahead.last
  rw [ThConfig.ackPastLast_iff (by split at hlast <;> omega),
    ThConfig.PastLast, hlast]
  split <;> omega

theorem Server.Ahead.load_eq
    (hahead : server.Ahead words next) (tv : Timeval) :
    server.load words tv = server.loadNext words tv := by
  rw [Server.load, if_neg (not_not.mpr hahead.unacked)]

theorem Server.Ahead.load_last
    (hahead : server.Ahead words next) (tv : Timeval) :
    (server.load words tv).config.lastPackSeqNo =
      if next < words.length then (-1 : ℤ) else words.length := by
  have hle := hahead.le
  have heof := propext (fscanf_eof words server.fp "")
  have hload : (server.loadNext words tv).config.lastPackSeqNo =
      if (fscanf words server.fp "").2.2 ∧
        server.config.lastPackSeqNo = -1 then server.seqNum + 1
      else server.config.lastPackSeqNo := by
    simp only [Server.loadNext]
    split <;> rfl
  have hfp := hahead.fp
  have hseqNum := hahead.seqNum
  have hlast := hahead.last
  simp only [hahead.load_eq, hload, heof]
  split_ifs at hlast ⊢ <;> omega

theorem Server.Ahead.load_seqNum
    (hahead : server.Ahead words next) (tv : Timeval) :
    (server.load words tv).seqNum = next := by
  rw [hahead.load_eq]
  simp only [Server.loadNext, hahead.seqNum]
  omega

theorem Server.Ahead.load_fp
    (hahead : server.Ahead words next) (tv : Timeval) :
    (server.load words tv).fp = min (next + 1) words.length := by
  have hposition := fscanf_position words server.fp ""
  have hle := hahead.le
  rw [hahead.load_eq]
  simp only [Server.loadNext, hahead.fp] at hposition ⊢
  rw [hposition]
  split <;> omega

theorem Server.Ahead.sentSeq_eq
    (hahead : server.Ahead words next) (tv : Timeval) :
    (server.load words tv).sentSeq = min next words.length := by
  have hle := hahead.le
  rw [Loaded.sentSeq, hahead.load_last, hahead.load_seqNum]
  split_ifs <;> omega

theorem Server.Ahead.endBurst
    (hahead : server.Ahead words next) :
    server.endBurst.1.Ahead words next := by
  have hfp : server.endBurst.1.fp = server.fp := by
    unfold Server.endBurst
    split
    · rfl
    · split <;> rfl
  refine hahead.congr server.endBurst_seqNum hfp ?_ ?_ ?_ <;>
    rw [Server.endBurst_config]
  · exact hahead.unacked
  · exact hahead.cwnd

variable (packetCount : ℕ) (cwnd window : ℤ) (tvTs tvInit : Timeval)

theorem Server.Ahead.sendPacket
    (hahead : server.Ahead words next) :
    (server.sendPacket words packetCount cwnd window tvTs tvInit).1.Ahead
      words (min (next + 1) (words.length + 1)) := by
  have hle := hahead.le
  have hconfig := server.sendPacket_config words packetCount cwnd window
    tvTs tvInit
  have hlast := hahead.load_last tvTs
  constructor
  case seqNum =>
    change (server.load words tvTs).sentSeq = _
    rw [hahead.sentSeq_eq]
    omega
  case le => omega
  case fp =>
    change (server.load words tvTs).fp = _
    rw [hahead.load_fp]
    omega
  case unacked => rw [hconfig]
  case last =>
    rw [hconfig]
    change (server.load words tvTs).config.lastPackSeqNo = _
    rw [hlast]
    split_ifs <;> omega
  case cwnd =>
    rw [hconfig]
    exact hahead.cwnd

theorem Server.Ahead.sendPacket_carries
    (hahead : server.Ahead words next) :
    (server.sendPacket words packetCount cwnd window tvTs tvInit).2.Carries
      words (min next words.length) := by
  have hle := hahead.le
  have htype := server.sendPacket_type words packetCount cwnd window tvTs
    tvInit
  rw [hahead.load_last, hahead.load_seqNum] at htype
  constructor
  case seq_eq =>
    have hseq : 0 ≤ (server.load words tvTs).sentSeq := by
      rw [hahead.sentSeq_eq]
      omega
    have hnat := toUint32_of_nonneg hseq
    rw [hahead.sentSeq_eq] at hnat
    change toUint32 (server.load words tvTs).sentSeq = _
    rw [hahead.sentSeq_eq]
    exact_mod_cast hnat
  case entry =>
    by_cases hword : next < words.length
    · rw [if_pos hword, if_neg (by omega)] at htype
      have hbuf := fscanf_word hword ""
      have hfp : server.fp = next := by
        rw [hahead.fp]
        omega
      rw [min_eq_left hword.le, fileEntries_word hword, hbuf]
      simp only [Datagram.entry?, htype]
      change some (DataType.data, (server.load words tvTs).buf) = _
      rw [hahead.load_eq, Server.loadNext, hfp]
      rfl
    · rw [if_neg hword, if_pos (by omega)] at htype
      rw [min_eq_right (by omega), fileEntries_end]
      simp only [Datagram.entry?, htype]

end Server

/-! ## The client -/

/-- A packet with the expected number is stored when there is room. -/
theorem Client.WindowFrom.receive_carries
    (hpos : 0 < rwnd) {client : Client rwnd} {first : ℕ}
    (hwindow : client.WindowFrom first)
    (hroom : client.expectedSeqNum < first + rwnd)
    {datagram : Datagram}
    (hcarries : datagram.Carries words client.expectedSeqNum)
    {entry : DataType × String}
    (hentry : (fileEntries words)[client.expectedSeqNum]? = some entry) :
    (client.receive datagram).1.accepted = client.accepted ++
        [⟨entry.1, entry.2, client.expectedSeqNum⟩] ∧
      (client.receive datagram).1.expectedSeqNum =
        client.expectedSeqNum + 1 ∧
      (client.receive datagram).1.status =
        (if entry.1 = .eof then .finished else .receiving) ∧
      ∃ ack, (client.receive datagram).2 = some ack := by
  have hunfilled := hwindow.next_unfilled hroom
    (i := ⟨client.expectedSeqNum % rwnd, Nat.mod_lt _ hpos⟩) rfl
  have hseq := hcarries.seq_eq
  have hsome := hcarries.entry.trans hentry
  have hhandle : client.handleDatagram datagram =
      some (client.store ⟨client.expectedSeqNum % rwnd,
        Nat.mod_lt _ hpos⟩ entry.1 entry.2 client.expectedSeqNum) ∧
      (entry.1 = .eof ↔ datagram.config.type = .eof) := by
    unfold Datagram.entry? at hsome
    cases htype : datagram.config.type <;>
      simp only [htype, Option.some.injEq, reduceCtorEq] at hsome <;>
      subst hsome <;>
      simp [Client.handleDatagram, htype, Client.pushDataToBuffer, hpos,
        hseq, hunfilled]
  have hexpected := hwindow.numbered.expected_store
    ⟨client.expectedSeqNum % rwnd, Nat.mod_lt _ hpos⟩ entry.1 entry.2
  simp only [Client.receive, hhandle.1, hseq, hexpected, hhandle.2]
  exact ⟨rfl, trivial, by simp, _, rfl⟩

theorem Client.Numbered.receive_ping
    {client : Client rwnd} (hnumbered : client.Numbered)
    (hrunning : client.status = .receiving) {datagram : Datagram}
    (hping : datagram.config.type = .ping) :
    (client.receive datagram).1 = client ∧
      ∃ ack, (client.receive datagram).2 = some ack := by
  have hhandle : client.handleDatagram datagram = some client := by
    simp [Client.handleDatagram, hping]
  simp only [Client.receive, hhandle, hnumbered.advance_unchanged]
  refine ⟨?_, _, rfl⟩
  simp [hping, ← hrunning]

/-! ## The link -/

/-- What holds at every point of the transfer.  `first` is the first number
in the buffer of the client. -/
structure Link.Tracks (words : List String) (link : Link rwnd)
    (next first : ℕ) : Prop where
  server : link.server.Ahead words next
  window : link.client.WindowFrom first
  accepted : link.client.accepted.map (fun entry =>
    (entry.type, entry.data)) =
      (fileEntries words).take link.client.expectedSeqNum
  status : link.client.status =
    if link.client.expectedSeqNum ≤ words.length then .receiving
    else .finished
  expected_le : link.client.expectedSeqNum ≤ next
  next_le : next ≤ first + rwnd
  acks : ∀ ack ∈ link.acks, ack.seq + ack.rwnd ≤ first + rwnd ∧
    ack.rwnd ≤ rwnd
  sent : Packets words
    (link.sent.filter fun datagram => !datagram.isPing) 0 next

/-- The packets and the acknowledgements of a burst which are on the way;
the server has been told the number `told`. -/
structure Link.Flow (words : List String) (link : Link rwnd)
    (told next : ℕ) : Prop where
  told_le : told ≤ link.client.expectedSeqNum
  datagrams : Packets words link.datagrams link.client.expectedSeqNum next
  acks : link.acks.map Ack.seq =
    List.range' (told + 1) (link.client.expectedSeqNum - told)

/-- A ping, or its answer, is all that is on the way. -/
structure Link.Pinged (link : Link rwnd) (next : ℕ) : Prop where
  expected : link.client.expectedSeqNum = next
  onWay : (∃ ping, ping.config.type = .ping ∧ link.datagrams = [ping] ∧
      link.acks = []) ∨
    ∃ ack, ack.seq = next ∧ link.datagrams = [] ∧ link.acks = [ack]

structure Link.InBurst (words : List String) (link : Link rwnd)
    (told next first packetCount : ℕ) (cwnd window : ℤ) : Prop where
  flow : link.Flow words told next
  running : link.server.config.isEOF ≠ 1
  cwnd_eq : link.server.config.cwnd = cwnd
  rwnd_eq : link.server.config.rwnd = window
  count_le : packetCount ≤ min cwnd window
  told_le : told ≤ words.length
  next_le : next ≤ told + packetCount
  started : packetCount = 0 → next = told
  told_lt : packetCount ≠ 0 → told < next
  room : told + min cwnd window ≤ first + rwnd
  window_le : min cwnd window ≤ rwnd

structure Link.InWait (words : List String) (link : Link rwnd)
    (next : ℕ) (wait : AckWait) : Prop where
  running : link.server.config.isEOF ≠ 1
  expected : wait.expectedSeqNum = next
  unrepeated : wait.fastRetransmit = 0
  onWay : (∃ told, link.Flow words told next ∧ told < next ∧
      wait.prevSeqNum ≤ told) ∨
    link.Pinged next ∧ next ≤ words.length ∧ wait.prevSeqNum = -1

def Link.AtPoint (words : List String) (link : Link rwnd)
    (next first : ℕ) : ServerPoint → Prop
  | .sending packetCount cwnd window =>
      link.server.config.isEOF = 1 ∧
          words.length < link.client.expectedSeqNum ∨
        ∃ told, link.InBurst words told next first packetCount cwnd window
  | .waiting wait => link.InWait words next wait
  | .returned => words.length < link.client.expectedSeqNum
  | .gaveUp => False

def Link.InStep (words : List String) (link : Link rwnd) : Prop :=
  ∃ next first, link.Tracks words next first ∧
    link.AtPoint words next first link.server.point

section Steps

variable {link : Link rwnd} {next first : ℕ}

theorem Link.Tracks.receiving_iff
    (htracks : link.Tracks words next first) :
    link.client.status = .receiving ↔
      link.client.expectedSeqNum ≤ words.length := by
  rw [htracks.status]
  split <;> simp_all

/-- Nothing of the burst is on the way when the server has heard of all of
it. -/
theorem Link.Flow.empty
    (hflow : link.Flow words next next) (hle : next ≤ words.length)
    (hexpected : link.client.expectedSeqNum ≤ next) :
    link.client.expectedSeqNum = next ∧ link.datagrams = [] ∧
      link.acks = [] := by
  have hsame : link.client.expectedSeqNum = next :=
    Nat.le_antisymm hexpected hflow.told_le
  have hdatagrams := hflow.datagrams
  have hacks := hflow.acks
  rw [hsame] at hdatagrams hacks
  simp only [Nat.sub_self, List.range'_zero, List.map_eq_nil_iff] at hacks
  exact ⟨hsame, hdatagrams.eq_nil hle, hacks⟩

theorem link_flow_empty
    (hexpected : link.client.expectedSeqNum = next)
    (hdatagrams : link.datagrams = []) (hacks : link.acks = []) :
    link.Flow words next next := by
  refine ⟨hexpected.ge, ?_, ?_⟩
  · rw [hdatagrams, hexpected]
    exact packets_nil words next
  · simp [hacks, hexpected]

/-! ### Sending -/

theorem Link.Tracks.sendPacket
    (htracks : link.Tracks words next first) (packetCount : ℕ)
    (cwnd window : ℤ) (tvTs tvInit : Timeval)
    (hroom : min (next + 1) (words.length + 1) ≤ first + rwnd) :
    (link.withSent
      (link.server.sendPacket words packetCount cwnd window tvTs tvInit).1
      [(link.server.sendPacket words packetCount cwnd window tvTs
        tvInit).2]).Tracks words (min (next + 1) (words.length + 1))
      first := by
  have hle := htracks.server.le
  have hcarries := htracks.server.sendPacket_carries packetCount cwnd
    window tvTs tvInit
  have hexpected := htracks.expected_le
  refine ⟨htracks.server.sendPacket packetCount cwnd window tvTs tvInit,
    htracks.window, htracks.accepted, htracks.status, ?_, hroom,
    htracks.acks, ?_⟩
  · change link.client.expectedSeqNum ≤ _
    omega
  · have hping := hcarries.not_ping (by omega)
    have hmore := htracks.sent.concat (Nat.zero_le _) hle hcarries
    rw [Link.withSent, List.filter_append, List.filter_singleton, hping]
    exact hmore

theorem Link.InBurst.sendPacket
    {told packetCount : ℕ} {cwnd window : ℤ}
    (hburst : link.InBurst words told next first packetCount cwnd window)
    (htracks : link.Tracks words next first)
    (hcount : (packetCount : ℤ) < min cwnd window)
    (tvTs tvInit : Timeval) :
    (link.withSent
      (link.server.sendPacket words packetCount cwnd window tvTs tvInit).1
      [(link.server.sendPacket words packetCount cwnd window tvTs
        tvInit).2]).InBurst words told
      (min (next + 1) (words.length + 1)) first (packetCount + 1) cwnd
      window := by
  have hle := htracks.server.le
  have hnext := hburst.next_le
  have htold := hburst.told_le
  have hstarted := hburst.started
  have htold_lt := hburst.told_lt
  have hcarries := htracks.server.sendPacket_carries packetCount cwnd
    window tvTs tvInit
  have hconfig := link.server.sendPacket_config words packetCount cwnd
    window tvTs tvInit
  refine ⟨⟨hburst.flow.told_le, ?_, hburst.flow.acks⟩, ?_, ?_, ?_,
    by omega, htold, by omega, by omega, by omega, hburst.room,
    hburst.window_le⟩
  · exact hburst.flow.datagrams.concat htracks.expected_le hle hcarries
  · simpa only [Link.withSent, hconfig] using hburst.running
  · simpa only [Link.withSent, hconfig] using hburst.cwnd_eq
  · simpa only [Link.withSent, hconfig] using hburst.rwnd_eq

theorem Link.Tracks.endBurst
    (htracks : link.Tracks words next first) :
    (link.withSent link.server.endBurst.1
      link.server.endBurst.2.toList).Tracks words next first := by
  refine ⟨htracks.server.endBurst, htracks.window, htracks.accepted,
    htracks.status, htracks.expected_le, htracks.next_le, htracks.acks, ?_⟩
  have hpings : link.server.endBurst.2.toList.filter
      (fun datagram => !datagram.isPing) = [] := by
    unfold Server.endBurst
    split
    · rfl
    · split <;> rfl
  rw [Link.withSent, List.filter_append, hpings, List.append_nil]
  exact htracks.sent

/-- The burst has sent something, or the client has no free slot and gets a
ping. -/
theorem Link.InBurst.endBurst
    {told packetCount : ℕ} {cwnd window : ℤ}
    (hburst : link.InBurst words told next first packetCount cwnd window)
    (htracks : link.Tracks words next first)
    (hcount : ¬ (packetCount : ℤ) < min cwnd window) :
    (link.withSent link.server.endBurst.1
      link.server.endBurst.2.toList).InStep words := by
  have hcwnd := htracks.server.cwnd
  have hle := hburst.count_le
  have hrunning := hburst.running
  have hpoint := link.server.endBurst_point
  rw [if_neg hrunning] at hpoint
  refine ⟨next, first, htracks.endBurst, ?_⟩
  rw [Link.withSent, hpoint]
  refine ⟨?_, ?_, rfl, ?_⟩
  · rw [Server.endBurst_config]
    exact hrunning
  · change link.server.seqNum + 1 = next
    rw [htracks.server.seqNum]
    omega
  rw [hburst.cwnd_eq] at hcwnd
  by_cases hempty : window = 0
  · have hping : link.server.endBurst.2 = some link.server.pingDatagram := by
      rw [Server.endBurst, if_neg hrunning, if_pos]
      rw [hburst.rwnd_eq]
      exact hempty
    have htold := hburst.started (by omega)
    have hflow := hburst.flow
    rw [← htold] at hflow
    obtain ⟨hexpected, hdatagrams, hacks⟩ := hflow.empty
      (htold ▸ hburst.told_le) htracks.expected_le
    refine .inr ⟨⟨hexpected, .inl ⟨link.server.pingDatagram, rfl, ?_, hacks⟩⟩,
      htold ▸ hburst.told_le, rfl⟩
    rw [hdatagrams, hping]
    rfl
  · have hsome : link.server.endBurst.2 = none := by
      rw [Server.endBurst, if_neg hrunning, if_neg]
      rw [hburst.rwnd_eq]
      exact hempty
    have hlt := hburst.told_lt (by omega)
    refine .inl ⟨told, ⟨hburst.flow.told_le, ?_, hburst.flow.acks⟩, hlt, ?_⟩
    · simpa [hsome] using hburst.flow.datagrams
    · change (-1 : ℤ) ≤ told
      omega

/-! ### Delivering -/

theorem Link.Tracks.receive_carries
    (hpos : 0 < rwnd) (htracks : link.Tracks words next first)
    (hlt : link.client.expectedSeqNum < next) {datagram : Datagram}
    (hcarries : datagram.Carries words link.client.expectedSeqNum)
    (datagrams : List Datagram) :
    ∃ ack, (link.client.receive datagram).2 = some ack ∧
      ack.seq = link.client.expectedSeqNum + 1 ∧
      (link.client.receive datagram).1.expectedSeqNum =
        link.client.expectedSeqNum + 1 ∧
      (link.delivered datagram datagrams).Tracks words next first := by
  have hle := htracks.server.le
  have hroom := htracks.next_le
  have hnumber : link.client.expectedSeqNum ≤ words.length := by omega
  obtain ⟨entry, hentry, heof⟩ := exists_fileEntry hnumber
  obtain ⟨haccepted, hexpected, hstatus, ack, hack⟩ :=
    htracks.window.receive_carries hpos (by omega) hcarries hentry
  obtain ⟨hseq, hedge⟩ := htracks.window.rightEdge hack
  refine ⟨ack, hack, hseq.trans hexpected, hexpected, htracks.server,
    htracks.window.receive datagram, ?_, ?_, ?_, hroom, ?_, htracks.sent⟩
  · change (link.client.receive datagram).1.accepted.map _ =
      (fileEntries words).take
        (link.client.receive datagram).1.expectedSeqNum
    rw [haccepted, hexpected, List.map_append, htracks.accepted,
      List.take_add_one, hentry]
    rfl
  · change (link.client.receive datagram).1.status = if
      (link.client.receive datagram).1.expectedSeqNum ≤ words.length
      then _ else _
    simp only [hstatus, hexpected, heof]
    split_ifs <;> first | rfl | omega
  · change (link.client.receive datagram).1.expectedSeqNum ≤ next
    omega
  · intro other hother
    rw [Link.delivered, hack] at hother
    rcases List.mem_append.mp hother with hold | hnew
    · exact htracks.acks other hold
    · rw [List.mem_singleton.mp hnew]
      have hfirst := (htracks.window.receive datagram).represents.first_le
      rw [← (htracks.window.receive datagram).expected] at hfirst
      omega

theorem Link.Flow.deliver
    {told : ℕ} (hflow : link.Flow words told next) {datagram : Datagram}
    {datagrams : List Datagram}
    (hdatagrams : Packets words datagrams
      (link.client.expectedSeqNum + 1) next)
    (hexpected : (link.client.receive datagram).1.expectedSeqNum =
      link.client.expectedSeqNum + 1)
    {ack : Ack} (hack : (link.client.receive datagram).2 = some ack)
    (hseq : ack.seq = link.client.expectedSeqNum + 1) :
    (link.delivered datagram datagrams).Flow words told next := by
  have htold := hflow.told_le
  constructor
  case told_le =>
    change told ≤ (link.client.receive datagram).1.expectedSeqNum
    omega
  case datagrams =>
    change Packets words datagrams
      (link.client.receive datagram).1.expectedSeqNum next
    rw [hexpected]
    exact hdatagrams
  case acks =>
    have hcount : link.client.expectedSeqNum + 1 - told =
        link.client.expectedSeqNum - told + 1 := by omega
    have hlast : told + 1 + (link.client.expectedSeqNum - told) =
        link.client.expectedSeqNum + 1 := by omega
    change (link.acks ++ (link.client.receive datagram).2.toList).map
      Ack.seq = List.range' (told + 1)
        ((link.client.receive datagram).1.expectedSeqNum - told)
    rw [hexpected, hcount, List.range'_1_concat, hlast, List.map_append,
      hflow.acks, hack, ← hseq]
    rfl

/-- A packet which arrives in a burst is the expected one. -/
theorem Link.Flow.head
    {told : ℕ} (hflow : link.Flow words told next)
    (htracks : link.Tracks words next first)
    (hrunning : link.client.status = .receiving) {datagram : Datagram}
    {datagrams : List Datagram}
    (hqueue : link.datagrams = datagram :: datagrams) :
    link.client.expectedSeqNum < next ∧
      datagram.Carries words link.client.expectedSeqNum ∧
      Packets words datagrams (link.client.expectedSeqNum + 1) next := by
  have hreceiving := htracks.receiving_iff.mp hrunning
  have hpackets := hflow.datagrams
  have hlt : link.client.expectedSeqNum < next := by
    refine htracks.expected_le.lt_of_ne fun heq => ?_
    rw [heq] at hpackets hreceiving
    rw [hpackets.eq_nil hreceiving] at hqueue
    cases hqueue
  obtain ⟨oldest, rest, heq, hcarries, hrest⟩ := hpackets.head hlt
  rw [hqueue, List.cons.injEq] at heq
  rw [← heq.1] at hcarries
  rw [← heq.2] at hrest
  exact ⟨hlt, hcarries, hrest⟩

theorem Link.Flow.deliver_burst
    (hpos : 0 < rwnd) {told : ℕ} (hflow : link.Flow words told next)
    (htracks : link.Tracks words next first)
    (hrunning : link.client.status = .receiving) {datagram : Datagram}
    {datagrams : List Datagram}
    (hqueue : link.datagrams = datagram :: datagrams) :
    (link.delivered datagram datagrams).Tracks words next first ∧
      (link.delivered datagram datagrams).Flow words told next := by
  obtain ⟨hlt, hcarries, hrest⟩ := hflow.head htracks hrunning hqueue
  obtain ⟨ack, hack, hseq, hexpected, hnext⟩ :=
    htracks.receive_carries hpos hlt hcarries datagrams
  exact ⟨hnext, hflow.deliver hrest hexpected hack hseq⟩

theorem Link.Pinged.deliver
    (hpinged : link.Pinged next) (htracks : link.Tracks words next first)
    (hrunning : link.client.status = .receiving) {datagram : Datagram}
    {datagrams : List Datagram}
    (hqueue : link.datagrams = datagram :: datagrams) :
    (link.delivered datagram datagrams).Tracks words next first ∧
      (link.delivered datagram datagrams).Pinged next := by
  have hexpected := hpinged.expected
  rcases hpinged.onWay with
    ⟨ping, htype, hout, hacks⟩ | ⟨ack, _, hnone, _⟩
  · rw [hqueue, List.cons.injEq] at hout
    rw [← hout.1] at htype
    obtain ⟨hsame, ack, hack⟩ :=
      htracks.window.numbered.receive_ping hrunning htype
    obtain ⟨hseq, hedge⟩ := htracks.window.rightEdge hack
    have hfirst := htracks.window.represents.first_le
    rw [← htracks.window.expected] at hfirst
    rw [hsame] at hseq
    rw [Link.delivered, hack, hacks, hsame, hout.2]
    refine ⟨⟨htracks.server, htracks.window, htracks.accepted,
      htracks.status, htracks.expected_le, htracks.next_le, ?_,
      htracks.sent⟩, hexpected, .inr ⟨ack, hseq.trans hexpected, rfl, rfl⟩⟩
    intro other hother
    rw [List.mem_singleton.mp hother]
    omega
  · rw [hnone] at hqueue
    cases hqueue

theorem Link.InStep.deliver
    (hpos : 0 < rwnd) (hstep : link.InStep words)
    (hrunning : link.client.status = .receiving) {datagram : Datagram}
    {datagrams : List Datagram}
    (hqueue : link.datagrams = datagram :: datagrams) :
    (link.delivered datagram datagrams).InStep words := by
  obtain ⟨next, first, htracks, hpoint⟩ := hstep
  have hreceiving := htracks.receiving_iff.mp hrunning
  have hserver : (link.delivered datagram datagrams).server = link.server :=
    rfl
  cases hat : link.server.point with
  | sending packetCount cwnd window =>
      rw [hat] at hpoint
      rcases hpoint with ⟨_, hlt⟩ | ⟨told, hburst⟩
      · omega
      · obtain ⟨hnext, hflow⟩ := hburst.flow.deliver_burst hpos htracks
          hrunning hqueue
        refine ⟨next, first, hnext, ?_⟩
        rw [hserver, hat]
        exact .inr ⟨told, { hburst with flow := hflow }⟩
  | waiting wait =>
      rw [hat] at hpoint
      rcases hpoint.onWay with
        ⟨told, hflow, htold, hprev⟩ | ⟨hpinged, hle, hprev⟩
      · obtain ⟨hnext, hflow⟩ := hflow.deliver_burst hpos htracks hrunning
          hqueue
        refine ⟨next, first, hnext, ?_⟩
        rw [hserver, hat]
        exact { hpoint with onWay := .inl ⟨told, hflow, htold, hprev⟩ }
      · obtain ⟨hnext, hpinged⟩ := hpinged.deliver htracks hrunning hqueue
        refine ⟨next, first, hnext, ?_⟩
        rw [hserver, hat]
        exact { hpoint with onWay := .inr ⟨hpinged, hle, hprev⟩ }
  | returned =>
      rw [hat] at hpoint
      have hlt : words.length < link.client.expectedSeqNum := hpoint
      omega
  | gaveUp =>
      rw [hat] at hpoint
      exact hpoint.elim

/-! ### The reader -/

theorem Link.InStep.readerPass
    (hpos : 0 < rwnd) (hwords : words.length < intMax)
    (hstep : link.InStep words) :
    Link.InStep words { link with client := link.client.readerPass } := by
  obtain ⟨next, first, htracks, hpoint⟩ := hstep
  have hle := htracks.expected_le
  have hnext := htracks.server.le
  have hread := htracks.window.readerPass hpos (by omega)
  have hcut := RingWindow.first_le_cut (n := rwnd)
    htracks.window.represents.first_le
  refine ⟨next, _, ⟨htracks.server, hread, htracks.accepted,
    htracks.status, hle, ?_, ?_, htracks.sent⟩, ?_⟩
  · exact htracks.next_le.trans (Nat.add_le_add_right hcut _)
  · intro ack hack
    have hedge := htracks.acks ack hack
    omega
  · cases hat : link.server.point with
    | sending packetCount cwnd window =>
        rw [hat] at hpoint
        rcases hpoint with hclosing | ⟨told, hburst⟩
        · exact .inl hclosing
        · have hroom := hburst.room
          exact .inr ⟨told, { hburst with
            flow := ⟨hburst.flow.told_le, hburst.flow.datagrams,
              hburst.flow.acks⟩
            room := by omega }⟩
    | waiting wait =>
        rw [hat] at hpoint
        refine { hpoint with onWay := ?_ }
        rcases hpoint.onWay with
          ⟨told, hflow, hrest⟩ | ⟨hpinged, hrest⟩
        · exact .inl ⟨told,
            ⟨hflow.told_le, hflow.datagrams, hflow.acks⟩, hrest⟩
        · exact .inr ⟨⟨hpinged.expected, hpinged.onWay⟩, hrest⟩
    | returned =>
        rw [hat] at hpoint
        exact hpoint
    | gaveUp =>
        rw [hat] at hpoint
        exact hpoint.elim

/-! ### Acknowledging -/

theorem growCwnd_pos
    {config : ThConfig} (hcwnd : 1 ≤ config.cwnd) :
    1 ≤ growCwnd config := by
  unfold growCwnd
  split <;> omega

theorem Link.Tracks.acknowledged
    (htracks : link.Tracks words next first) {ack : Ack}
    {acks : List Ack} (hqueue : link.acks = ack :: acks) {server : Server}
    (hahead : server.Ahead words next) :
    (link.acknowledged server acks).Tracks words next first := by
  refine ⟨hahead, htracks.window, htracks.accepted, htracks.status,
    htracks.expected_le, htracks.next_le, ?_, htracks.sent⟩
  intro other hother
  refine htracks.acks other ?_
  rw [hqueue]
  exact List.mem_cons_of_mem _ hother

/-- The acknowledgement which ends the burst, or the answer to a ping. -/
theorem Link.Tracks.ackDone
    (htracks : link.Tracks words next first) {ack : Ack}
    (hqueue : link.acks = [ack]) (hseq : ack.seq = next)
    (hle : next ≤ words.length)
    (hexpected : link.client.expectedSeqNum = next)
    (hdatagrams : link.datagrams = [])
    (hrunning : link.server.config.isEOF ≠ 1) (tv : Timeval) :
    (link.acknowledged (Server.ackDone { link.server with
      config := link.server.config.heard ack } ack tv) []).InStep words := by
  have hcwnd := growCwnd_pos htracks.server.cwnd
  have hedge := htracks.acks ack (by simp [hqueue])
  refine ⟨next, first, htracks.acknowledged hqueue ?_, .inr ⟨next, ?_⟩⟩
  · exact htracks.server.congr rfl rfl rfl rfl hcwnd
  · have hwindow : min (growCwnd link.server.config) (ack.rwnd : ℤ) ≤
        ack.rwnd := min_le_right _ _
    refine ⟨link_flow_empty hexpected hdatagrams rfl, hrunning, rfl, rfl,
      ?_, hle, le_rfl, fun _ => rfl, fun hne => absurd rfl hne, ?_, ?_⟩
    · change ((0 : ℕ) : ℤ) ≤ min (growCwnd link.server.config) ack.rwnd
      omega
    · change (next : ℤ) + min (growCwnd link.server.config) ack.rwnd ≤ _
      omega
    · change min (growCwnd link.server.config) (ack.rwnd : ℤ) ≤ rwnd
      omega

theorem AckWait.count_new
    (wait : AckWait) {ack : Ack} (hnew : wait.prevSeqNum < ack.seq) :
    (wait.count ack).fastRetransmit = 0 := by
  rw [AckWait.count, if_neg hnew.ne]

section Flow

variable {told : ℕ} {ack : Ack} {acks : List Ack}

theorem Link.Flow.told_lt
    (hflow : link.Flow words told next)
    (hqueue : link.acks = ack :: acks) :
    told < link.client.expectedSeqNum := by
  have hlength := congrArg List.length hflow.acks
  simp only [hqueue, List.map_cons, List.length_cons, List.length_map,
    List.length_range'] at hlength
  omega

/-- The acknowledgements arrive in the order of their numbers. -/
theorem Link.Flow.ack_head
    (hflow : link.Flow words told next)
    (hqueue : link.acks = ack :: acks) :
    ack.seq = told + 1 ∧ acks.map Ack.seq =
      List.range' (told + 2) (link.client.expectedSeqNum - (told + 1)) := by
  have hlt := hflow.told_lt hqueue
  have hcount : link.client.expectedSeqNum - told =
      link.client.expectedSeqNum - (told + 1) + 1 := by omega
  have hacks := hflow.acks
  rw [hqueue, hcount, List.range'_succ, List.map_cons,
    List.cons.injEq] at hacks
  exact hacks

end Flow

theorem Link.InStep.acknowledge
    (hstep : link.InStep words) {wait : AckWait}
    (hwait : link.server.point = .waiting wait) {ack : Ack}
    {acks : List Ack} (hqueue : link.acks = ack :: acks) (tv : Timeval) :
    (link.acknowledged (link.server.receiveAck wait ack tv) acks).InStep
      words := by
  obtain ⟨next, first, htracks, hpoint⟩ := hstep
  rw [hwait] at hpoint
  have hpast := htracks.server.ackPastLast_iff ack.seq
  have hcwnd := growCwnd_pos htracks.server.cwnd
  rcases hpoint.onWay with
    ⟨told, hflow, htold, hprev⟩ | ⟨hpinged, hle, hprev⟩
  · obtain ⟨hseq, hrest⟩ := hflow.ack_head hqueue
    have hmore := hflow.told_lt hqueue
    have hexpected := htracks.expected_le
    have hbound := htracks.server.le
    rcases link.server.receiveAck_cases wait ack tv with
      ⟨hlast, hserver⟩ | ⟨hlast, hdone, hserver⟩ | ⟨_, _, hfast, _⟩ |
      ⟨_, hother, _, hserver⟩
    · rw [hserver]
      rw [hpast] at hlast
      refine ⟨next, first, htracks.acknowledged hqueue ?_, .inl ⟨rfl, ?_⟩⟩
      · exact htracks.server.congr rfl rfl rfl rfl hcwnd
      · change words.length < link.client.expectedSeqNum
        omega
    · rw [hpoint.expected] at hdone
      have hle : next ≤ words.length := by
        by_contra hgt
        exact hlast (hpast.mpr (by omega))
      have hall : link.client.expectedSeqNum = next := by omega
      have hdatagrams := hflow.datagrams
      rw [hall] at hdatagrams hrest
      have hempty : acks = [] := by
        rw [show next - (told + 1) = 0 by omega, List.range'_zero,
          List.map_eq_nil_iff] at hrest
        exact hrest
      rw [hempty] at hqueue
      rw [hserver, hempty]
      exact htracks.ackDone hqueue (by omega) hle hall
        (hdatagrams.eq_nil hle) hpoint.running tv
    · rw [wait.count_new (by omega)] at hfast
      cases hfast
    · rw [hpoint.expected] at hother
      rw [hserver]
      refine ⟨next, first, htracks.acknowledged hqueue ?_, ?_⟩
      · exact htracks.server.congr rfl rfl htracks.server.unacked rfl hcwnd
      · refine ⟨hpoint.running, ?_, wait.count_new (by omega),
          .inl ⟨told + 1, ⟨hmore, hflow.datagrams, hrest⟩, by omega, ?_⟩⟩
        · rw [AckWait.count_expectedSeqNum]
          exact hpoint.expected
        · rw [AckWait.count_prevSeqNum]
          omega
  · rcases hpinged.onWay with
      ⟨_, _, _, hnone⟩ | ⟨answer, hseq, hdatagrams, hacks⟩
    · rw [hnone] at hqueue
      cases hqueue
    · rw [hacks, List.cons.injEq] at hqueue
      obtain ⟨rfl, rfl⟩ := hqueue
      rcases link.server.receiveAck_cases wait answer tv with
        ⟨hlast, _⟩ | ⟨_, _, hserver⟩ | ⟨_, hother, _⟩ | ⟨_, hother, _⟩
      · rw [hpast] at hlast
        omega
      · rw [hserver]
        exact htracks.ackDone hacks hseq hle hpinged.expected hdatagrams
          hpoint.running tv
      · rw [hpoint.expected] at hother
        omega
      · rw [hpoint.expected] at hother
        omega

end Steps

/-! ## Runs -/

/-- What one event can do. -/
theorem Link.step_cases
    {link next : Link rwnd} {event : LinkEvent}
    (hstep : link.step words event = some next) :
    (∃ tvTs tvInit sent, event = .send tvTs tvInit ∧
        link.server.send words tvTs tvInit = some sent ∧
        next = link.withSent sent.1 sent.2.toList) ∨
      (∃ datagram datagrams, event = .deliver ∧
        link.datagrams = datagram :: datagrams ∧
        link.client.status = .receiving ∧
        next = link.delivered datagram datagrams) ∨
      (∃ tv wait ack acks, event = .acknowledge tv ∧
        link.server.point = .waiting wait ∧ link.acks = ack :: acks ∧
        next =
          link.acknowledged (link.server.receiveAck wait ack tv) acks) ∨
      (event = .readerPass ∧
        next = { link with client := link.client.readerPass }) := by
  cases event with
  | send tvTs tvInit =>
      simp only [Link.step, Option.map_eq_some_iff] at hstep
      obtain ⟨sent, hsent, hnext⟩ := hstep
      exact .inl ⟨tvTs, tvInit, sent, rfl, hsent, hnext.symm⟩
  | deliver =>
      simp only [Link.step] at hstep
      split at hstep
      next => contradiction
      next datagram datagrams hqueue =>
        split at hstep
        next hrunning =>
          simp only [Option.some.injEq] at hstep
          exact .inr (.inl ⟨datagram, datagrams, rfl, hqueue, hrunning,
            hstep.symm⟩)
        next => contradiction
  | acknowledge tv =>
      simp only [Link.step] at hstep
      split at hstep
      next wait ack acks hpoint hqueue =>
        simp only [Option.some.injEq] at hstep
        exact .inr (.inr (.inl ⟨tv, wait, ack, acks, rfl, hpoint, hqueue,
          hstep.symm⟩))
      next => contradiction
  | readerPass =>
      simp only [Link.step] at hstep
      split at hstep
      next =>
        simp only [Option.some.injEq] at hstep
        exact .inr (.inr (.inr ⟨rfl, hstep.symm⟩))
      next => contradiction

theorem Link.InStep.send
    {link : Link rwnd} (hin : link.InStep words) {tvTs tvInit : Timeval}
    {sent : Server × Option Datagram}
    (hsend : link.server.send words tvTs tvInit = some sent) :
    (link.withSent sent.1 sent.2.toList).InStep words := by
  obtain ⟨next, first, htracks, hpoint⟩ := hin
  cases hat : link.server.point with
  | sending packetCount cwnd window =>
      rw [hat] at hpoint
      simp only [Server.send, hat] at hsend
      rcases hpoint with ⟨hclosing, hlt⟩ | ⟨told, hburst⟩
      · rw [if_neg (fun hsends => hsends.2 hclosing),
          Option.some.injEq] at hsend
        subst hsend
        refine ⟨next, first, htracks.endBurst, ?_⟩
        rw [Link.withSent, Server.endBurst_point, if_pos hclosing]
        exact hlt
      · split at hsend
        next hsends =>
          simp only [Option.some.injEq] at hsend
          subst hsend
          have hnext := hburst.next_le
          have hroom := hburst.room
          exact ⟨_, first, htracks.sendPacket packetCount cwnd window tvTs
            tvInit (by omega),
            .inr ⟨told, hburst.sendPacket htracks hsends.1 tvTs tvInit⟩⟩
        next hends =>
          simp only [Option.some.injEq] at hsend
          subst hsend
          exact hburst.endBurst htracks
            (fun hcount => hends ⟨hcount, hburst.running⟩)
  | waiting wait => simp [Server.send, hat] at hsend
  | returned => simp [Server.send, hat] at hsend
  | gaveUp => simp [Server.send, hat] at hsend

theorem Link.InStep.step
    (hpos : 0 < rwnd) (hwords : words.length < intMax)
    {link next : Link rwnd} (hin : link.InStep words) {event : LinkEvent}
    (hstep : link.step words event = some next) :
    next.InStep words := by
  rcases Link.step_cases hstep with
    ⟨tvTs, tvInit, sent, _, hsend, rfl⟩ |
    ⟨datagram, datagrams, _, hqueue, hrunning, rfl⟩ |
    ⟨tv, wait, ack, acks, _, hwait, hqueue, rfl⟩ | ⟨_, rfl⟩
  · exact hin.send hsend
  · exact hin.deliver hpos hrunning hqueue
  · exact hin.acknowledge hwait hqueue tv
  · exact hin.readerPass hpos hwords

theorem Link.Initial.inStep
    (hpos : 0 < rwnd) {link : Link rwnd} (hinit : link.Initial) :
    link.InStep words := by
  obtain ⟨config, qObj, servRwnd, heof, hnonneg, hserver⟩ := hinit.server
  have hexpected := hinit.client.expected
  refine ⟨0, 0, ⟨?_, hinit.client.windowFrom, ?_, ?_, ?_, ?_, ?_, ?_⟩, ?_⟩
  · rw [hserver]
    exact ⟨rfl, by omega, by simp [Server.start], rfl, by simp [Server.start],
      le_rfl⟩
  · simp [hinit.client.accepted, hexpected]
  · simp [hinit.client.status, hexpected]
  · omega
  · omega
  · simp [hinit.acks]
  · rw [hinit.sent]
    exact packets_nil words 0
  · have hone : min 1 servRwnd ≤ 1 := min_le_left _ _
    rw [hserver]
    refine .inr ⟨0, link_flow_empty hexpected hinit.datagrams hinit.acks,
      ?_, ?_, ?_, ?_, ?_, ?_, ?_, ?_, ?_, ?_⟩
    all_goals simp [hserver, Server.start, heof]
    all_goals omega

end NetworkProgramming.Transfer
