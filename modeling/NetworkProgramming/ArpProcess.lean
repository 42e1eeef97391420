import NetworkProgramming.Addresses
import NetworkProgramming.SlotTable
import NetworkProgramming.Transition

/-!
# The ARP process

One process of `hw4/arp.c`: its cache, the client connections it accepted and
the frames it sends.  Beside the globals of the program the state keeps what
the outside sees of it: the connections which are still open, with the IP
each client asked for, what was written to which descriptor, and the frames
handed to `Sendto`.  It also keeps the pairs of an IP and a hardware address
which were put in the cache at boot or from a received frame.

`insert_into_cache` uses the index at which its loop stops.  In a full cache
this index is `NUM_CACHE_ENTRIES`, and the program then writes past the end
of the array.  What happens after that is undefined, and the model ends the
run there with `overrun` set.
-/

namespace NetworkProgramming.Arp

open SlotTable

structure ArpCacheDetails where
  ip : IpText
  mac : Mac
  index : ℤ
  fd : ℤ
  filled : Bool
  deriving DecidableEq

/-- `NO_FD`, the descriptor of standard input. -/
def noFd : ℤ :=
  0

/-- An entry of the zeroed global array. -/
def unusedEntry : ArpCacheDetails :=
  ⟨emptyIp, zeroMac, 0, noFd, false⟩

instance : KeyedSlot ArpCacheDetails IpText where
  key := ArpCacheDetails.ip
  filled := ArpCacheDetails.filled
  empty := unusedEntry
  filled_empty := rfl

abbrev Cache := Fin 40 → ArpCacheDetails

/-- `arp_req_reply`. -/
structure ArpReqReply where
  ethDest : Mac
  ethSrc : Mac
  frameType : ℕ
  hardType : ℕ
  protType : ℕ
  hardSize : ℕ
  protSize : ℕ
  op : ℕ
  senderEth : Mac
  senderIp : IpText
  targetEth : Mac
  targetIp : IpText
  identification : CString 3
  deriving DecidableEq

/-- The text `dk`. -/
def identification : CString 3 :=
  ⟨[100, 107], by simp, by simp⟩

/-- The answer written to a client; `sll_addr` has eight bytes. -/
structure Hwaddr where
  sllIfindex : ℤ
  sllHatype : ℕ
  sllHalen : ℕ
  sllAddr : List UInt8
  deriving DecidableEq

/-- A call of `Sendto` with the addresses of the Ethernet header. -/
structure SentFrame where
  destMac : Mac
  srcMac : Mac
  ifIndex : ℤ
  body : ArpReqReply
  deriving DecidableEq

/-- A connection returned by `Accept` and not closed yet. -/
structure Connection where
  fd : ℤ
  ip : IpText
  deriving DecidableEq

/-- A call of `write`.  `asked` is the IP the client at the descriptor asked
for, and `none` when the descriptor is not an open connection. -/
structure Write where
  fd : ℤ
  asked : Option IpText
  hwaddr : Hwaddr
  deriving DecidableEq

structure Process where
  srcMac : Mac
  srcIp : IpText
  srcIfindex : ℤ
  protocol : ℕ
  cache : Cache
  connections : List Connection
  written : List Write
  sent : List SentFrame
  learned : List (IpText × Mac)
  overrun : Bool

/-- The entry found for an IP by the loops of `insert_into_cache` and
`send_reply`. -/
def Process.entry (process : Process) (ip : IpText) :
    Option ArpCacheDetails :=
  lookup process.cache ip

/-! ## The cache -/

def Process.updateCacheEntry (process : Process) (svd : ServerDetails)
    (i : Fin 40) (fd : ℤ) : Process :=
  { process with
    cache := Function.update process.cache i
      ⟨svd.ip, svd.mac, svd.index, fd, true⟩ }

/-- `none` is the write past the end of the array. -/
def Process.insertIntoCache (process : Process) (svd : ServerDetails)
    (fd : ℤ) : Option Process :=
  (scan process.cache svd.ip).map fun i =>
    process.updateCacheEntry svd i fd

def Process.orOverrun (process : Process) (result : Option Process) :
    Process :=
  result.getD { process with overrun := true }

def Process.learn (process : Process) (ip : IpText) (mac : Mac) : Process :=
  { process with learned := (ip, mac) :: process.learned }

/-- The globals before `boot`.  `protocol` is `htons` of the address of the
string literal `OUR_PF_PROTOCOL`. -/
def Process.zeroed (protocol : ℕ) : Process where
  srcMac := zeroMac
  srcIp := emptyIp
  srcIfindex := -1
  protocol := protocol
  cache := fun _ => unusedEntry
  connections := []
  written := []
  sent := []
  learned := []
  overrun := false

/-- The first interface names the host. -/
def Process.setSource (process : Process) (svd : ServerDetails) : Process :=
  if process.srcIfindex = -1 then
    { process with
      srcMac := svd.mac
      srcIfindex := svd.index
      srcIp := svd.ip }
  else process

def Process.bootEntry (process : Process) (svd : ServerDetails) : Process :=
  let named := process.setSource svd
  named.orOverrun ((named.insertIntoCache svd noFd).map fun inserted =>
    inserted.learn svd.ip svd.mac)

/-- `boot_cache` stops at the first interface without an IP. -/
def Process.bootCache (process : Process) (svd : List ServerDetails) :
    Process :=
  (svd.takeWhile fun sv => decide (sv.ip ≠ emptyIp)).foldl
    Process.bootEntry process

/-- `boot` has room for 20 interfaces. -/
def boot (protocol : ℕ) (svd : List ServerDetails) : Process :=
  (Process.zeroed protocol).bootCache (svd.take 20)

/-! ## Requests and replies -/

def Process.sendPacket (process : Process) (destMac : Mac)
    (body : ArpReqReply) : Process :=
  { process with
    sent :=
      ⟨destMac, process.srcMac, process.srcIfindex, body⟩ :: process.sent }

def Process.prepareArpReqReply (process : Process) (op : ℕ) :
    ArpReqReply where
  ethDest := zeroMac
  ethSrc := process.srcMac
  frameType := 0x0806
  hardType := 1
  protType := process.protocol
  hardSize := 6
  protSize := 2
  op := op
  senderEth := process.srcMac
  senderIp := process.srcIp
  targetEth := zeroMac
  targetIp := emptyIp
  identification := identification

def Process.sendReq (process : Process) (targetIp : IpText)
    (waitingFd : ℤ) : Process :=
  let arpReq := { process.prepareArpReqReply 1 with targetIp := targetIp }
  process.orOverrun
    ((process.insertIntoCache ⟨targetIp, zeroMac, 0⟩ waitingFd).map
      fun inserted => inserted.sendPacket broadcastMac arpReq)

/-- `strlen` of the `mac` field: the two bytes of padding behind the array
are zero, so it stops after six bytes at the latest. -/
def strlenMac (mac : Mac) : ℕ :=
  (mac.toList.takeWhile fun b => decide (b ≠ 0)).length

def ArpCacheDetails.hwaddr (entry : ArpCacheDetails) : Hwaddr where
  sllIfindex := entry.index
  sllHatype := 1
  sllHalen := strlenMac entry.mac
  sllAddr := entry.mac.toList ++ [0, 0]

/-- The IP asked for by the client at an open connection. -/
def Process.askedAt (process : Process) (fd : ℤ) : Option IpText :=
  (process.connections.find? fun c => decide (c.fd = fd)).map Connection.ip

def Process.write (process : Process) (fd : ℤ) (hwaddr : Hwaddr) :
    Process :=
  { process with
    written := ⟨fd, process.askedAt fd, hwaddr⟩ :: process.written }

def Process.close (process : Process) (fd : ℤ) : Process :=
  { process with
    connections := process.connections.filter fun c => decide (c.fd ≠ fd) }

/-- The entry after its answer, with nobody waiting. -/
def ArpCacheDetails.release (entry : ArpCacheDetails) :
    ArpCacheDetails where
  ip := entry.ip
  mac := entry.mac
  index := entry.index
  fd := noFd
  filled := entry.filled

/-- The part of `send_reply` after a match.  A descriptor of `-1` stands for
the one which waits in the entry. -/
def Process.replyFrom (process : Process) (i : Fin 40) (fd : ℤ) : Process :=
  let entry := process.cache i
  let fdToUse := if fd ≠ -1 then fd else entry.fd
  let answered := process.write fdToUse entry.hwaddr
  let closed := if 0 < entry.fd then answered.close entry.fd else answered
  { closed with cache := Function.update process.cache i entry.release }

/-- `none` is the result 0, no entry for the IP. -/
def Process.sendReply (process : Process) (ip : IpText) (fd : ℤ) :
    Option Process :=
  match scan process.cache ip with
  | some i =>
      if (process.cache i).filled then some (process.replyFrom i fd) else none
  | none => none

/-- The fields of an entry which `update_response_in_cache` sets. -/
def ArpCacheDetails.resolve (entry : ArpCacheDetails) (mac : Mac) :
    ArpCacheDetails where
  ip := entry.ip
  mac := mac
  index := 2
  fd := entry.fd
  filled := true

/-- Scans all entries; `none` is the result 0. -/
def Process.updateResponseInCache (process : Process) (frame : ArpReqReply) :
    Option Process :=
  (scanAll process.cache frame.senderIp).map fun i =>
    { process with
      cache := Function.update process.cache i
        ((process.cache i).resolve frame.senderEth) }.learn
          frame.senderIp frame.senderEth

def Process.handleResponse (process : Process) (frame : ArpReqReply) :
    Process :=
  let updated := (process.updateResponseInCache frame).getD process
  (updated.sendReply frame.senderIp (-1)).getD updated

/-- The request with `op` set, three pairs of fields swapped and two of them
overwritten. -/
def Process.replyTo (process : Process) (frame : ArpReqReply) :
    ArpReqReply :=
  { frame with
    op := 2
    ethDest := frame.ethSrc
    ethSrc := process.srcMac
    senderEth := process.srcMac
    targetEth := frame.senderEth
    senderIp := frame.targetIp
    targetIp := frame.senderIp }

def Process.handleRequest (process : Process) (frame : ArpReqReply) :
    Process :=
  if process.srcIp = frame.targetIp then
    let sv : ServerDetails := ⟨frame.senderIp, frame.senderEth, 0⟩
    process.orOverrun ((process.insertIntoCache sv noFd).map fun inserted =>
      (inserted.learn frame.senderIp frame.senderEth).sendPacket
        frame.senderEth (process.replyTo frame))
  else (process.updateResponseInCache frame).getD process

def Process.processFrame (process : Process) (frame : ArpReqReply) :
    Process :=
  if frame.identification ≠ identification then process
  else if frame.op = 1 then process.handleRequest frame
  else if frame.op = 2 then process.handleResponse frame
  else process

/-! ## The main loop -/

/-- `Accept` and `Read` of one client. -/
def Process.accept (process : Process) (connfd : ℤ) (ip : IpText) :
    Process :=
  { process with connections := ⟨connfd, ip⟩ :: process.connections }

def Process.serveClient (process : Process) (connfd : ℤ) (ip : IpText) :
    Process :=
  let accepted := process.accept connfd ip
  (accepted.sendReply ip connfd).getD (accepted.sendReq ip connfd)

inductive ArpEvent where
  | client (connfd : ℤ) (ip : IpText)
  | frame (frame : ArpReqReply)
  deriving DecidableEq

/-- `Accept` returns a descriptor which is not in use, so neither standard
input nor an open connection. -/
def Process.step (process : Process) : ArpEvent → Option Process
  | .client connfd ip =>
      if process.overrun = false ∧ 0 < connfd ∧
          connfd ∉ process.connections.map Connection.fd then
        some (process.serveClient connfd ip)
      else none
  | .frame frame =>
      if process.overrun = false then some (process.processFrame frame)
      else none

def Process.Initial (process : Process) : Prop :=
  ∃ protocol svd, process = boot protocol svd

end NetworkProgramming.Arp
