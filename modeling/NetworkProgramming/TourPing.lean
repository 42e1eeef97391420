import NetworkProgramming.Addresses
import NetworkProgramming.InternetChecksum

/-!
# The frames of echo requests

`send_ping_request` of `hw4/tour.c` builds an IP packet with an echo request
in a frame which `malloc` returned, and sends the whole frame.  The checksum
of the request covers its header and the time stamp, 24 bytes; 28 bytes are
copied to the frame; and the length in the IP header is twice the size of the
request, as if it had 36 bytes.  A receiver takes the last 8 of them from
memory which nobody wrote.
-/

namespace NetworkProgramming.Tour

open MemoryImage InternetChecksum

structure TimeVal where
  tvSec : ℤ
  tvUsec : ℤ
  deriving DecidableEq

def TimeVal.image (time : TimeVal) : List UInt8 :=
  signedWord 8 time.tvSec ++ signedWord 8 time.tvUsec

/-- What `inet_addr` makes of an address, in network order. -/
abbrev InAddr := List.Vector UInt8 4

def htons (n : ℕ) : List UInt8 :=
  (word 2 n).reverse

/-- The first 24 bytes of the `struct icmp` with the fields which `set_icmp`
writes.  The pattern `0xa5` is covered by the time stamp. -/
def echoCovered (pid : ℕ) (icmpSeq : ℤ) (now : TimeVal) (cksum : ℕ) :
    List UInt8 :=
  [8, 0] ++ (word 2 cksum ++
    (word 2 pid ++ signedWord 2 icmpSeq ++ now.image))

def echoRequest (pid : ℕ) (icmpSeq : ℤ) (now : TimeVal) (cksum : ℕ) :
    List UInt8 :=
  -- the union in the struct is 4 bytes longer than the time stamp
  echoCovered pid icmpSeq now cksum ++ [0, 0, 0, 0]

/-- `set_icmp`: the struct and the new `seq`. -/
def setIcmp (pid : ℕ) (seq : ℤ) (now : TimeVal) : List UInt8 × ℤ :=
  let unsigned := echoRequest pid (seq + 1) now 0
  let len := 8 + now.image.length
  (echoRequest pid (seq + 1) now (inCksum (unsigned.take len)), seq + 1)

def ipHeader (ipSrc ipDst : InAddr) (ipSum : ℕ) : List UInt8 :=
  -- version and length, tos, total length, id, fragment, ttl and protocol
  [0x45, 0] ++ htons (28 + 28) ++ htons 0 ++ [0, 0] ++ [255, 1] ++
    (word 2 ipSum ++ (ipSrc.toList ++ ipDst.toList))

/-- What is given to `Sendto`, and the new `seq`. -/
structure PingFrame where
  sllIfindex : ℤ
  sllAddr : Mac
  bytes : List UInt8
  seq : ℤ

/-- `send_ping_request`; `buffer` is what `malloc(ETH_FRAME_LEN)`
returned. -/
def sendPingRequest (pid : ℕ) (seq : ℤ) (now : TimeVal)
    (dstMac srcMac : Mac) (srcIp destIp : InAddr) (ifIndex : ℤ)
    (buffer : List.Vector UInt8 1514) : PingFrame :=
  let (icmp, seq) := setIcmp pid seq now
  let ipSum := inCksum (ipHeader srcIp destIp 0)
  let addressed :=
    copyTo 12 (htons 0x0800)
      (copyTo 6 srcMac.toList (copyTo 0 dstMac.toList buffer.toList))
  { sllIfindex := ifIndex
    sllAddr := dstMac
    bytes := copyTo 34 icmp (copyTo 14 (ipHeader srcIp destIp ipSum)
      addressed)
    seq := seq }

/-! ## What a receiver takes from a frame -/

def receivedHeader (frame : List UInt8) : List UInt8 :=
  (frame.drop 14).take 20

def receivedLength (frame : List UInt8) : ℕ :=
  ofWord ((receivedHeader frame).drop 2 |>.take 2).reverse

def receivedMessage (frame : List UInt8) : List UInt8 :=
  (frame.drop 34).take (receivedLength frame - 20)

/-! ## The layout -/

section Layout

variable (pid : ℕ) (seq : ℤ) (now : TimeVal) (dstMac srcMac : Mac)
variable (srcIp destIp : InAddr) (ifIndex : ℤ)
variable (buffer : List.Vector UInt8 1514)

theorem length_ipHeader (ipSum : ℕ) :
    (ipHeader srcIp destIp ipSum).length = 20 := by
  simp [ipHeader, htons]

theorem length_echoCovered (cksum : ℕ) :
    (echoCovered pid seq now cksum).length = 24 := by
  simp [echoCovered, TimeVal.image]

theorem length_setIcmp : (setIcmp pid seq now).1.length = 28 := by
  simp only [setIcmp, echoRequest, List.length_append, length_echoCovered]
  rfl

/-- The copies lie one behind the other; the rest of the buffer stays. -/
theorem sendPingRequest_bytes :
    ∃ ethernet : List UInt8, ethernet.length = 14 ∧
      (sendPingRequest pid seq now dstMac srcMac srcIp destIp ifIndex
        buffer).bytes =
      ethernet ++ (ipHeader srcIp destIp
          (inCksum (ipHeader srcIp destIp 0)) ++
        ((setIcmp pid seq now).1 ++ buffer.toList.drop 62)) := by
  have hmac : ∀ mac : Mac, mac.toList.length = 6 :=
    List.Vector.toList_length
  have hproto : (htons 0x0800).length = 2 := rfl
  have hheader := length_ipHeader srcIp destIp
    (inCksum (ipHeader srcIp destIp 0))
  have hicmp := length_setIcmp pid seq now
  refine ⟨dstMac.toList ++ srcMac.toList ++ htons 0x0800, ?_, ?_⟩
  · simp only [List.length_append, hmac, hproto]
  · have hstart : copyTo 0 dstMac.toList buffer.toList =
        dstMac.toList ++ buffer.toList.drop 6 := by
      have hcopy := copyTo_append (rfl : ([] : List UInt8).length = 0)
        dstMac.toList buffer.toList
      rwa [hmac] at hcopy
    simp only [sendPingRequest]
    rw [hstart, copyTo_append (hmac dstMac),
      copyTo_append (by simp only [List.length_append, hmac]),
      copyTo_append (by simp only [List.length_append, hmac, hproto]),
      copyTo_append (by
        simp only [List.length_append, hmac, hproto, hheader])]
    simp only [hmac, hproto, hheader, hicmp, List.drop_drop,
      List.append_assoc]

end Layout

/-! ## The checksums -/

section Checksums

variable (pid : ℕ) (seq : ℤ) (now : TimeVal) (dstMac srcMac : Mac)
variable (srcIp destIp : InAddr) (ifIndex : ℤ)
variable (buffer : List.Vector UInt8 1514)

theorem ipHeader_verifies :
    Verifies (ipHeader srcIp destIp (inCksum (ipHeader srcIp destIp 0))) := by
  unfold ipHeader
  apply verifies_place
  · decide
  · simp [htons]

theorem setIcmp_eq :
    ∃ cksum, (setIcmp pid seq now).1 =
        echoCovered pid (seq + 1) now cksum ++ [0, 0, 0, 0] ∧
      Verifies (echoCovered pid (seq + 1) now cksum) := by
  have hlen : (echoCovered pid (seq + 1) now 0).length =
      8 + now.image.length := by
    rw [length_echoCovered]
    simp [TimeVal.image]
  refine ⟨inCksum (echoCovered pid (seq + 1) now 0), ?_, ?_⟩
  · simp only [setIcmp, echoRequest]
    rw [List.take_left' hlen]
  · unfold echoCovered
    apply verifies_place
    · decide
    · simp [TimeVal.image]

theorem receivedLength_eq {ethernet rest : List UInt8}
    (hethernet : ethernet.length = 14) (ipSum : ℕ) :
    receivedLength (ethernet ++ (ipHeader srcIp destIp ipSum ++ rest)) =
      56 := by
  rw [receivedLength, receivedHeader, List.drop_left' hethernet,
    List.take_left' (length_ipHeader srcIp destIp ipSum)]
  rfl

theorem receivedMessage_sendPingRequest :
    receivedMessage (sendPingRequest pid seq now dstMac srcMac srcIp destIp
        ifIndex buffer).bytes =
      (setIcmp pid seq now).1 ++ (buffer.toList.drop 62).take 8 := by
  obtain ⟨ethernet, hethernet, hbytes⟩ := sendPingRequest_bytes pid seq now
    dstMac srcMac srcIp destIp ifIndex buffer
  have hheader := length_ipHeader srcIp destIp
    (inCksum (ipHeader srcIp destIp 0))
  have hicmp := length_setIcmp pid seq now
  rw [hbytes, receivedMessage, receivedLength_eq srcIp destIp hethernet,
    ← List.append_assoc, List.drop_left' (by
      rw [List.length_append, hethernet, hheader]),
    List.take_append, List.take_of_length_le (by omega), hicmp]

theorem receivedHeader_sendPingRequest :
    receivedHeader (sendPingRequest pid seq now dstMac srcMac srcIp destIp
        ifIndex buffer).bytes =
      ipHeader srcIp destIp (inCksum (ipHeader srcIp destIp 0)) := by
  obtain ⟨ethernet, hethernet, hbytes⟩ := sendPingRequest_bytes pid seq now
    dstMac srcMac srcIp destIp ifIndex buffer
  rw [hbytes, receivedHeader, List.drop_left' hethernet,
    List.take_left' (length_ipHeader _ _ _)]

theorem receivedMessage_verifies_iff :
    Verifies (receivedMessage (sendPingRequest pid seq now dstMac srcMac
        srcIp destIp ifIndex buffer).bytes) ↔
      65535 ∣ wordSum ((buffer.toList.drop 62).take 8) := by
  obtain ⟨cksum, hicmp, hverifies⟩ := setIcmp_eq pid seq now
  have hcovered : 2 ∣ (echoCovered pid (seq + 1) now cksum).length := by
    rw [length_echoCovered]
    decide
  have hzeros : ∀ rest, wordSum ([0, 0, 0, 0] ++ rest) = wordSum rest := by
    intro rest
    rw [wordSum_append (by decide)]
    simp [wordSum]
  rw [verifies_iff] at hverifies
  rw [verifies_iff, receivedMessage_sendPingRequest, hicmp,
    List.append_assoc, wordSum_append hcovered, hzeros]
  obtain ⟨hpos, hdvd⟩ := hverifies
  rw [Nat.dvd_add_right hdvd]
  exact and_iff_right (by omega)

/-- The IP header of a frame is always accepted.  The echo request is exactly
when the 8 bytes of the buffer behind it, as four words, sum up to a multiple
of 65535. -/
theorem pingFrame_verifies_iff :
    Verifies (receivedHeader (sendPingRequest pid seq now dstMac srcMac
        srcIp destIp ifIndex buffer).bytes) ∧
      (Verifies (receivedHeader (sendPingRequest pid seq now dstMac srcMac
          srcIp destIp ifIndex buffer).bytes) ∧
        Verifies (receivedMessage (sendPingRequest pid seq now dstMac
          srcMac srcIp destIp ifIndex buffer).bytes) ↔
        65535 ∣ wordSum ((buffer.toList.drop 62).take 8)) := by
  have hheader : Verifies (receivedHeader (sendPingRequest pid seq now
      dstMac srcMac srcIp destIp ifIndex buffer).bytes) := by
    rw [receivedHeader_sendPingRequest]
    exact ipHeader_verifies srcIp destIp
  rw [receivedMessage_verifies_iff]
  exact ⟨hheader, and_iff_right hheader⟩

end Checksums

theorem pingFrame_rejected :
    ¬ Verifies (receivedMessage (sendPingRequest 4711 0 ⟨0, 0⟩ zeroMac
      broadcastMac (List.Vector.replicate 4 10) (List.Vector.replicate 4 9)
      2 (List.Vector.replicate 1514 1)).bytes) := by
  rw [receivedMessage_verifies_iff]
  have hleft : (List.Vector.replicate 1514 (1 : UInt8)).toList =
      List.replicate 1514 1 := rfl
  rw [hleft, List.drop_replicate, List.take_replicate]
  decide

end NetworkProgramming.Tour
