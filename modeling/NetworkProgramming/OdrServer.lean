import NetworkProgramming.CText
import NetworkProgramming.MemoryImage

/-!
# Requests to the time server

The router asks the server of its own host with a datagram whose text is the
broadcast id in decimal notation, a `#` and the name of the source.  The
server copies the text to a buffer, overwrites the first `#` with a zero byte
and takes the two strings in front of it and behind it.

Buffers are lists of bytes; what a buffer held before is an argument, since
`respond` keeps its buffer from one request to the next.
-/

namespace NetworkProgramming.Odr

open CText MemoryImage

def zeros (size : ℕ) : List UInt8 :=
  List.replicate size 0

/-! ## The datagram -/

/-- `msg_send`: the bytes of its `peer_info`, which is packed.  `hostname` is
what `gethostname` wrote. -/
def msgSend (hostname destIp destPort srcIp srcPort msg : List UInt8)
    (flag : ℤ) : List UInt8 :=
  [strcpy (zeros 100) destPort, strncpy 16 destIp,
    strcpy (zeros 100) srcPort, strcpy (zeros 16) srcIp,
    strcpy (zeros 50) msg, strncpy 10 hostname,
    signedWord 4 flag].flatten

structure MsgBuffers where
  msg : List UInt8
  srcIp : List UInt8
  srcPort : List UInt8

/-- `msg_recv`.  `peer_info` has 296 bytes, with `src_port` at offset 116,
`src_ip` at 216 and `msg` at 232. -/
def msgRecv (datagram : List UInt8) (old : MsgBuffers) : MsgBuffers :=
  let received := datagram.take 296
  let recvline := received ++ zeros (4096 - received.length)
  let pinfo := recvline.take 296
  { msg := strcpy old.msg (pinfo.drop 232)
    srcIp := strcpy old.srcIp (pinfo.drop 216)
    srcPort := strcpy old.srcPort (pinfo.drop 116) }

/-- The buffer of `get_data_from_server` before the call of `msg_send`. -/
def requestText (bcId : ℤ) (sourceVm : List UInt8) : List UInt8 :=
  let printed := strcpy (zeros 50) (decimal bcId)
  strcat (strcat printed (literal "#")) sourceVm

def getDataFromServer (hostname : List UInt8) (bcId : ℤ)
    (sourceVm : List UInt8) : List UInt8 :=
  msgSend hostname (literal "dst_ip") (literal "dst_port")
    (literal "srcip") (literal "srcport") (requestText bcId sourceVm) 0

/-! ## The server -/

/-- The variables of `respond` which last: `recvline` and the static
`bc_id`. -/
structure Server where
  hostname : List UInt8
  thisIp : List UInt8
  recvline : List UInt8
  bcId : ℤ

structure Request where
  bid : ℤ
  srcVm : List UInt8
  clientIp : List UInt8
  clientPort : List UInt8
  deriving DecidableEq

/-- The loop over `k` in `respond`: the index of the first `#`, or of the
terminator. -/
def separator (recvline : List UInt8) : ℕ :=
  (text recvline).findIdx fun b => decide (b = 35)

/-- `respond` from `msg_recv` to `src_vm`.  `client_ip` and `client_port` are
not initialised. -/
def Server.decode (server : Server) (clientIp clientPort : List UInt8)
    (datagram : List UInt8) : Server × Request :=
  let received := msgRecv datagram ⟨server.recvline, clientIp, clientPort⟩
  let k := separator received.msg
  let recvline := received.msg.set k 0
  ({ server with recvline := recvline },
    { bid := atoi (text recvline)
      srcVm := text (recvline.drop (k + 1))
      clientIp := received.srcIp
      clientPort := received.srcPort })

/-- One round of `respond`: the request if it is reported, and the datagram
of the answer.  `buff` is the text of the time. -/
def Server.respond (server : Server) (clientIp clientPort : List UInt8)
    (datagram buff : List UInt8) :
    Server × Option Request × List UInt8 :=
  let (decoded, request) := server.decode clientIp clientPort datagram
  let answer := msgSend server.hostname request.clientIp request.clientPort
    server.thisIp (literal "/tmp/deva_kau") buff 0
  if server.bcId < request.bid then
    ({ decoded with bcId := request.bid }, some request, answer)
  else (decoded, none, answer)

/-! ## The round trip -/

theorem text_requestText (bcId : ℤ) (sourceVm : List UInt8) :
    text (requestText bcId sourceVm) =
      decimal bcId ++ 35 :: text sourceVm := by
  have hsharp : text (literal "#") = [35] := by decide +kernel
  rw [requestText, text_strcat, text_strcat, text_strcpy, text_decimal,
    hsharp, List.append_assoc, List.singleton_append]

theorem length_strcpy_zeros
    {size : ℕ} {src : List UInt8} (hfits : (text src).length < size) :
    (strcpy (zeros size) src).length = size := by
  have hzeros : (zeros size).length = size := List.length_replicate
  rw [length_strcpy (by rwa [hzeros]), hzeros]

section Datagram

variable {destPort srcIp srcPort msg : List UInt8}

/-- The message lies at its offset of the datagram, whose length is the one
of `peer_info`. -/
theorem msgSend_spec
    (hostname destIp : List UInt8)
    (hdestPort : (text destPort).length < 100)
    (hsrcPort : (text srcPort).length < 100)
    (hsrcIp : (text srcIp).length < 16) (hmsg : (text msg).length < 50)
    (flag : ℤ) :
    (msgSend hostname destIp destPort srcIp srcPort msg flag).length =
        296 ∧
      (msgSend hostname destIp destPort srcIp srcPort msg flag).drop 232 =
        strcpy (zeros 50) msg ++
          (strncpy 10 hostname ++ signedWord 4 flag) := by
  have hdestPort' := length_strcpy_zeros hdestPort
  have hsrcPort' := length_strcpy_zeros hsrcPort
  have hsrcIp' := length_strcpy_zeros hsrcIp
  have hmsg' := length_strcpy_zeros hmsg
  have hsplit : msgSend hostname destIp destPort srcIp srcPort msg flag =
      (strcpy (zeros 100) destPort ++ strncpy 16 destIp ++
        strcpy (zeros 100) srcPort ++ strcpy (zeros 16) srcIp) ++
      (strcpy (zeros 50) msg ++
        (strncpy 10 hostname ++ signedWord 4 flag)) := by
    simp only [msgSend, List.flatten_cons, List.flatten_nil,
      List.append_nil, List.append_assoc]
  have hfront : (strcpy (zeros 100) destPort ++ strncpy 16 destIp ++
      strcpy (zeros 100) srcPort ++
        strcpy (zeros 16) srcIp).length = 232 := by
    simp only [List.length_append, length_strncpy, hdestPort', hsrcPort',
      hsrcIp']
  constructor
  · rw [hsplit, List.length_append, hfront]
    simp only [List.length_append, length_strncpy, length_signedWord,
      hmsg']
  · rw [hsplit, List.drop_left' hfront]

end Datagram

theorem msgRecv_msg
    {datagram field msg rest : List UInt8} (hlength : datagram.length = 296)
    (hdrop : datagram.drop 232 = strcpy field msg ++ rest)
    (old : MsgBuffers) :
    (msgRecv datagram old).msg =
      text msg ++ 0 :: old.msg.drop ((text msg).length + 1) := by
  have hreceived : datagram.take 296 = datagram :=
    List.take_of_length_le hlength.le
  simp only [msgRecv, hreceived]
  rw [List.take_left' hlength, hdrop, strcpy, text_strcpy_append]

section Separator

variable {front vm rest : List UInt8}

theorem separator_eq
    (hsharp : ∀ b ∈ front, b ≠ 35) (hfront : ∀ b ∈ front, b ≠ 0)
    (hvm : ∀ b ∈ vm, b ≠ 0) :
    separator ((front ++ 35 :: vm) ++ 0 :: rest) = front.length := by
  have hnonzero : ∀ b ∈ front ++ 35 :: vm, b ≠ 0 := by
    intro b hb
    rcases List.mem_append.mp hb with hleft | hright
    · exact hfront b hleft
    · rcases List.mem_cons.mp hright with hhead | htail
      · rw [hhead]
        decide
      · exact hvm b htail
  have hmissing :
      front.findIdx (fun b => decide (b = 35)) = front.length := by
    rw [List.findIdx_eq_length]
    intro b hb
    exact decide_eq_false (hsharp b hb)
  rw [separator, text_append_zero hnonzero, List.findIdx_append, hmissing,
    if_neg (lt_irrefl _), List.findIdx_cons]
  simp

theorem Server.decode_of_msg
    {server : Server} {clientIp clientPort datagram : List UInt8}
    (hmsg : (msgRecv datagram ⟨server.recvline, clientIp, clientPort⟩).msg =
      (front ++ 35 :: vm) ++ 0 :: rest)
    (hsharp : ∀ b ∈ front, b ≠ 35) (hfront : ∀ b ∈ front, b ≠ 0)
    (hvm : ∀ b ∈ vm, b ≠ 0) :
    (server.decode clientIp clientPort datagram).2.bid = atoi front ∧
      (server.decode clientIp clientPort datagram).2.srcVm = vm := by
  have hset : ((front ++ 35 :: vm) ++ 0 :: rest).set front.length 0 =
      front ++ 0 :: (vm ++ 0 :: rest) := by
    rw [List.append_assoc, List.set_append_right _ _ (le_refl _),
      Nat.sub_self, List.cons_append, List.set_cons_zero]
  simp only [Server.decode, hmsg, separator_eq hsharp hfront hvm, hset]
  constructor
  · rw [text_append_zero hfront]
  · rw [List.drop_append, List.drop_of_length_le (Nat.le_succ _),
      Nat.add_sub_cancel_left, List.nil_append, List.drop_one,
      List.tail_cons, text_append_zero hvm]

end Separator

theorem getDataFromServer_msg
    {bcId : ℤ} {sourceVm : List UInt8}
    (hshort : (decimal bcId).length + 1 + (text sourceVm).length < 50)
    (hostname : List UInt8) (old : MsgBuffers) :
    ∃ rest, (msgRecv (getDataFromServer hostname bcId sourceVm) old).msg =
      (decimal bcId ++ 35 :: text sourceVm) ++ 0 :: rest := by
  have htext := text_requestText bcId sourceVm
  have hmsg : (text (requestText bcId sourceVm)).length < 50 := by
    rw [htext, List.length_append, List.length_cons]
    omega
  have hport : (text (literal "dst_port")).length < 100 := by
    decide +kernel
  have hsrcPort : (text (literal "srcport")).length < 100 := by
    decide +kernel
  have hsrcIp : (text (literal "srcip")).length < 16 := by
    decide +kernel
  obtain ⟨hlength, hdrop⟩ :=
    msgSend_spec hostname (literal "dst_ip") hport hsrcPort hsrcIp hmsg 0
  rw [← htext]
  exact ⟨_, msgRecv_msg hlength hdrop old⟩

/-- The server reads from the datagram of `get_data_from_server` the id and
the name of the source it was made from, whatever is left in its buffers and
whatever bytes the name has, as long as the text is shorter than
`MAX_MSG_LEN`. -/
theorem decode_getDataFromServer
    {bcId : ℤ} (hmin : -2 ^ 31 ≤ bcId) (hmax : bcId < 2 ^ 31)
    {sourceVm : List UInt8}
    (hshort : (decimal bcId).length + 1 + (text sourceVm).length < 50)
    (hostname : List UInt8) (server : Server)
    (clientIp clientPort : List UInt8) :
    (server.decode clientIp clientPort
        (getDataFromServer hostname bcId sourceVm)).2.bid = bcId ∧
      (server.decode clientIp clientPort
        (getDataFromServer hostname bcId sourceVm)).2.srcVm =
          text sourceVm := by
  have hsharp : ∀ b ∈ decimal bcId, b ≠ 35 :=
    decimal_ne (by decide) (by decide) bcId
  have hfront : ∀ b ∈ decimal bcId, b ≠ 0 :=
    decimal_ne (by decide) (by decide) bcId
  obtain ⟨rest, hmsg⟩ := getDataFromServer_msg hshort hostname
    ⟨server.recvline, clientIp, clientPort⟩
  obtain ⟨hbid, hvm⟩ :=
    Server.decode_of_msg hmsg hsharp hfront text_nonzero
  rw [atoi_decimal hmin hmax] at hbid
  exact ⟨hbid, hvm⟩

theorem decode_getDataFromServer_sharp :
    ∃ request : Request,
      (Server.decode
        ⟨literal "vm1", literal "10.0.0.1", List.replicate 1000 120, 0⟩
        [] [] (getDataFromServer (literal "vm1") (-120)
          (literal "vm#7"))).2 = request ∧
      request.bid = -120 ∧ request.srcVm = [118, 109, 35, 55] := by
  have hlength : (decimal (-120)).length + 1 +
      (text (literal "vm#7")).length < 50 := by
    decide +kernel
  have hname : text (literal "vm#7") = [118, 109, 35, 55] := by
    decide +kernel
  obtain ⟨hbid, hvm⟩ := decode_getDataFromServer (by decide) (by decide)
    hlength (literal "vm1")
    ⟨literal "vm1", literal "10.0.0.1", List.replicate 1000 120, 0⟩ [] []
  exact ⟨_, rfl, hbid, hvm.trans hname⟩

/-! ## Reports -/

/-- A datagram, the text of the time at its arrival and what the two buffers
on the stack hold then. -/
structure Arrival where
  datagram : List UInt8
  buff : List UInt8
  clientIp : List UInt8
  clientPort : List UInt8

def Server.reports (server : Server) : List Arrival → List Request
  | [] => []
  | arrival :: rest =>
      let (next, reported, _) := server.respond arrival.clientIp
        arrival.clientPort arrival.datagram arrival.buff
      reported.toList ++ next.reports rest

theorem Server.respond_cases
    (server : Server) (clientIp clientPort datagram buff : List UInt8) :
    (∃ next request answer,
      server.respond clientIp clientPort datagram buff =
        (next, some request, answer) ∧
      next.bcId = request.bid ∧ server.bcId < request.bid) ∨
    ∃ next answer,
      server.respond clientIp clientPort datagram buff =
        (next, none, answer) ∧
      next.bcId = server.bcId := by
  simp only [Server.respond]
  split
  next hnew => exact .inl ⟨_, _, _, rfl, rfl, hnew⟩
  next => exact .inr ⟨_, _, rfl, rfl⟩

/-- The ids which are reported grow, so none is reported twice. -/
theorem Server.reports_increasing
    (server : Server) (arrivals : List Arrival) :
    (∀ request ∈ server.reports arrivals, server.bcId < request.bid) ∧
      (server.reports arrivals).Pairwise
        fun earlier later => earlier.bid < later.bid := by
  induction arrivals generalizing server with
  | nil =>
      constructor
      · intro request hmem
        cases hmem
      · exact List.Pairwise.nil
  | cons arrival rest ih =>
      rcases server.respond_cases arrival.clientIp arrival.clientPort
          arrival.datagram arrival.buff with
        ⟨next, request, answer, hrespond, hnext, hnew⟩ |
        ⟨next, answer, hrespond, hnext⟩
      · obtain ⟨hlater, hpairwise⟩ := ih next
        simp only [Server.reports, hrespond, Option.toList_some,
          List.singleton_append]
        rw [hnext] at hlater
        constructor
        · rw [List.forall_mem_cons]
          exact ⟨hnew, fun other hmem => hnew.trans (hlater other hmem)⟩
        · exact List.pairwise_cons.mpr ⟨hlater, hpairwise⟩
      · obtain ⟨hlater, hpairwise⟩ := ih next
        simp only [Server.reports, hrespond, Option.toList_none,
          List.nil_append]
        rw [hnext] at hlater
        exact ⟨hlater, hpairwise⟩

end NetworkProgramming.Odr
