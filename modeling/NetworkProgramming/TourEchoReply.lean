import NetworkProgramming.TourEcho

/-!
# A request comes back

The kernel of a pinged host answers an echo request with the message it
received: the type and the checksum are new, and everything behind them is
sent back as it came, also the 8 bytes which no one wrote.  Such an answer is
reported with the number of the request and the time since it was sent,
whatever `output` held before.
-/

namespace NetworkProgramming.Tour

open MemoryImage

/-- An answer of the address to the echo request in a frame. -/
structure EchoAnswer (frame : List UInt8) (destIp : InAddr)
    (packet : List UInt8) : Prop where
  length_eq : packet.length = 20 + (receivedMessage frame).length
  header : headerLength packet = 20
  sender : senderAddress packet = destIp.toList
  type_eq : byteAt packet 20 = 0
  copied : packet.drop 24 = (receivedMessage frame).drop 4

instance (frame : List UInt8) (destIp : InAddr) (packet : List UInt8) :
    Decidable (EchoAnswer frame destIp packet) :=
  decidable_of_iff
    (packet.length = 20 + (receivedMessage frame).length ∧
      headerLength packet = 20 ∧ senderAddress packet = destIp.toList ∧
      byteAt packet 20 = 0 ∧
      packet.drop 24 = (receivedMessage frame).drop 4)
    ⟨fun h => ⟨h.1, h.2.1, h.2.2.1, h.2.2.2.1, h.2.2.2.2⟩,
      fun h => ⟨h.length_eq, h.header, h.sender, h.type_eq, h.copied⟩⟩

/-- Both numbers of a time fit 64 bits. -/
def TimeVal.InRange (time : TimeVal) : Prop :=
  (-2 ^ 63 ≤ time.tvSec ∧ time.tvSec < 2 ^ 63) ∧
    -2 ^ 63 ≤ time.tvUsec ∧ time.tvUsec < 2 ^ 63

instance (time : TimeVal) : Decidable time.InRange :=
  inferInstanceAs (Decidable ((_ ∧ _) ∧ _ ∧ _))

/-! ## The message of a request -/

section Message

variable (pid : ℕ) (seq : ℤ) (sent : TimeVal) (dstMac srcMac : Mac)
variable (srcIp destIp : InAddr) (ifIndex : ℤ)
variable (buffer : List.Vector UInt8 1514)

theorem length_receivedMessage :
    (receivedMessage (sendPingRequest pid seq sent dstMac srcMac srcIp
      destIp ifIndex buffer).bytes).length = 36 := by
  have hstray : ((buffer.toList.drop 62).take 8).length = 8 := by
    rw [List.length_take, List.length_drop, List.Vector.toList_length]
    rfl
  rw [receivedMessage_sendPingRequest, List.length_append,
    length_setIcmp, hstray]

/-- What a request carries behind its checksum. -/
theorem receivedMessage_fields :
    ∃ rest, (receivedMessage (sendPingRequest pid seq sent dstMac srcMac
        srcIp destIp ifIndex buffer).bytes).drop 4 =
      word 2 pid ++ (signedWord 2 (seq + 1) ++
        (signedWord 8 sent.tvSec ++ (signedWord 8 sent.tvUsec ++ rest))) := by
  obtain ⟨cksum, hicmp, _⟩ := setIcmp_eq pid seq sent
  refine ⟨[0, 0, 0, 0] ++ (buffer.toList.drop 62).take 8, ?_⟩
  have hfront : ([8, 0] ++ word 2 cksum).length = 4 := by
    rw [List.length_append, length_word]
    rfl
  rw [receivedMessage_sendPingRequest, hicmp, echoCovered, TimeVal.image]
  simp only [List.append_assoc]
  rw [← List.append_assoc [8, 0], List.drop_left' hfront]

end Message

/-! ## The answer in the buffer -/

theorem timeAt_of_drop
    {memory rest : List UInt8} {offset : ℕ} {time : TimeVal}
    (hfits : time.InRange)
    (hmemory : memory.drop offset =
      signedWord 8 time.tvSec ++ (signedWord 8 time.tvUsec ++ rest)) :
    timeAt memory offset = time := by
  have husec : memory.drop (offset + 8) =
      signedWord 8 time.tvUsec ++ rest := by
    rw [← List.drop_drop, hmemory, List.drop_left' (length_signedWord 8 _)]
  obtain ⟨hsecs, husecs⟩ := hfits
  rw [timeAt, hmemory, husec, List.take_left' (length_signedWord 8 _),
    List.take_left' (length_signedWord 8 _),
    ofSignedWord_signedWord_of_le (by omega) (by omega),
    ofSignedWord_signedWord_of_le (by omega) (by omega)]

section Answer

variable {pid : ℕ} {seq : ℤ} {sent : TimeVal} {dstMac srcMac : Mac}
variable {srcIp destIp : InAddr} {ifIndex : ℤ}
variable {buffer : List.Vector UInt8 1514} {packet : List UInt8}

theorem receivePacket_of_short
    (output : List UInt8) (hshort : packet.length ≤ 4096) :
    receivePacket output packet = packet ++ output.drop packet.length := by
  rw [receivePacket, List.take_of_length_le hshort, copyTo, List.take_zero,
    List.nil_append, Nat.zero_add]

/-- The answer to the request with number `seq + 1` is reported with that
number, modulo the width of its field, and with the time since the request
was sent, if the name of the address is known and fits. -/
theorem pgfdBranch_answer
    (hpid : pid < 65536) (hsent : sent.InRange)
    (hanswer : EchoAnswer (sendPingRequest pid seq sent dstMac srcMac srcIp
      destIp ifIndex buffer).bytes destIp packet)
    (resolver : Resolver) (output : List UInt8) (now : TimeVal) :
    pgfdBranch resolver pid output packet now =
      if resolver.fitsHost destIp.toList then
        match resolver.gethostbyaddr destIp.toList with
        | none => .nullPointer
        | some name =>
            match resolver.hostServ name with
            | none => .unresolved
            | some (canonname, host) =>
                .reported
                  { icmplen := 36
                    canonname := canonname
                    host := host
                    seq := ((seq + 1) % 65536).toNat
                    ttl := (byteAt packet 8).toNat
                    rtt := tvSub now sent }
      else .overrun := by
  have hlength : packet.length = 56 := by
    rw [hanswer.length_eq, length_receivedMessage]
  have hmemory := receivePacket_of_short output
    (by omega : packet.length ≤ 4096)
  have hbyte : ∀ offset < 56,
      byteAt (receivePacket output packet) offset = byteAt packet offset :=
    fun offset hoffset => byteAt_receivePacket (by omega) (by omega)
  have hheader : headerLength (receivePacket output packet) = 20 := by
    rw [headerLength, hbyte 0 (by omega)]
    exact hanswer.header
  have hsender : senderAddress (receivePacket output packet) =
      destIp.toList := by
    rw [← hanswer.sender, senderAddress, senderAddress, hmemory,
      List.drop_append_of_le_length (by omega),
      List.take_append_of_le_length (by rw [List.length_drop]; omega)]
  -- the fields of the request, one behind the other from offset 24 on
  obtain ⟨fields, hfields⟩ := receivedMessage_fields pid seq sent dstMac
    srcMac srcIp destIp ifIndex buffer
  have hid : (receivePacket output packet).drop 24 =
      word 2 pid ++ (signedWord 2 (seq + 1) ++
        (signedWord 8 sent.tvSec ++ (signedWord 8 sent.tvUsec ++
          (fields ++ output.drop packet.length)))) := by
    rw [hmemory, List.drop_append_of_le_length (by omega), hanswer.copied,
      hfields]
    simp only [List.append_assoc]
  have hseq := congrArg (List.drop 2) hid
  rw [List.drop_drop, List.drop_left' (length_word 2 pid)] at hseq
  have htime := congrArg (List.drop 2) hseq
  rw [List.drop_drop, List.drop_left' (length_signedWord 2 _)] at htime
  have hidAt : halfwordAt (receivePacket output packet) 24 = pid := by
    rw [halfwordAt_of_drop (length_word 2 pid) hid]
    exact ofWord_word_of_lt hpid
  have hseqAt : halfwordAt (receivePacket output packet) 26 =
      ((seq + 1) % 65536).toNat := by
    rw [halfwordAt_of_drop (length_signedWord 2 _) hseq]
    exact ofWord_signedWord 2 (seq + 1)
  have htimeAt : timeAt (receivePacket output packet) 28 = sent :=
    timeAt_of_drop hsent htime
  have htype : byteAt (receivePacket output packet) 20 = 0 := by
    rw [hbyte 20 (by omega)]
    exact hanswer.type_eq
  have hlen : (packet.take 4096).length = 56 := by
    rw [List.length_take, hlength]
    rfl
  unfold pgfdBranch procV4 printReply
  simp only [hidAt, hsender, hheader, hlen, htype, hseqAt, htimeAt,
    hbyte 8 (by omega), if_true, ne_eq, not_true_eq_false, if_false]
  rfl

end Answer

end NetworkProgramming.Tour
