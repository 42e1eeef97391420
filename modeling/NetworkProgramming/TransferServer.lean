import NetworkProgramming.TransferCommon

/-!
# The sending server

`send_file_data` alternates between a burst of datagrams and a call of
`receive_ack`.  The model stops at every point at which the network can act:
before each datagram of a burst and at each wait for an acknowledgement.  A
file is the list of its words; `fp` counts the words read since the last
`fopen`.

`rwnd` is a `uint32_t` field which is read back into an `int` before every
use, so it is an integer here.
-/

namespace NetworkProgramming.Transfer

structure ThConfig where
  rwnd : ℤ
  lastUnackedSeq : ℤ
  rttinfo : RttInfo
  rttinit : ℤ
  cwnd : ℤ
  isEOF : ℤ
  lastPackSeqNo : ℤ
  ssthresh : ℤ
  deriving DecidableEq, Repr

/-- The locals of `receive_ack` while it waits. -/
structure AckWait where
  expectedSeqNum : ℤ
  prevSeqNum : ℤ
  fastRetransmit : ℕ
  alarmMiliSecs : ℤ
  deriving DecidableEq, Repr

/-- `sending` is the head of the burst loop with its counter and the two
windows copied at the start of the burst. -/
inductive ServerPoint where
  | sending (packetCount : ℕ) (cwnd rwnd : ℤ)
  | waiting (wait : AckWait)
  | returned
  | gaveUp
  deriving DecidableEq, Repr

structure Server where
  config : ThConfig
  seqNum : ℤ
  fp : ℕ
  qObj : Datagram
  point : ServerPoint
  deriving DecidableEq, Repr

/-! ## Reading the file -/

/-- `fscanf(fp, "%s", buf)`: the new position, the buffer, and whether the
call returned `EOF`. -/
def fscanf (words : List String) (fp : ℕ) (buf : String) :
    ℕ × String × Bool :=
  match words[fp]? with
  | some word => (fp + 1, word, false)
  | none => (fp, buf, true)

/-- The loop which skips `count` words after the file has been reopened. -/
def skipWords (words : List String) : ℕ → ℕ × String → ℕ × String
  | 0, state => state
  | count + 1, (fp, buf) =>
      let scanned := fscanf words fp buf
      skipWords words count (scanned.1, scanned.2.1)

/-- Reopens the file, skips to the word with number `seq` and reads it. -/
def rescan (words : List String) (seq : ℕ) : ℕ × String :=
  let skipped := skipWords words seq (0, "")
  let scanned := fscanf words skipped.1 skipped.2
  (scanned.1, scanned.2.1)

/-! ## One datagram of a burst -/

/-- The choice between the retransmission and the next word, up to the
comparison with the last packet: `seq_num`, `fp`, the text buffer, the
timestamp and the updated configuration. -/
structure Loaded where
  seqNum : ℤ
  fp : ℕ
  buf : String
  ts : ℕ
  config : ThConfig

def Server.loadRetransmit (words : List String) (server : Server) : Loaded :=
  let scanned := rescan words server.config.lastUnackedSeq.toNat
  { seqNum := server.config.lastUnackedSeq
    fp := scanned.1
    buf := scanned.2
    ts := 0
    config := { server.config with lastUnackedSeq := -1 } }

def Server.loadNext (words : List String) (server : Server)
    (tv : Timeval) : Loaded :=
  let scanned := fscanf words server.fp ""
  let seqNum := server.seqNum + 1
  { seqNum := seqNum
    fp := scanned.1
    buf := scanned.2.1
    ts := rttTs server.config.rttinfo tv
    config :=
      if scanned.2.2 ∧ server.config.lastPackSeqNo = -1 then
        { server.config with lastPackSeqNo := seqNum }
      else server.config }

def Server.load (words : List String) (server : Server) (tv : Timeval) :
    Loaded :=
  if server.config.lastUnackedSeq ≠ -1 then server.loadRetransmit words
  else server.loadNext words tv

/-- The end of the burst loop's body: the type of the datagram, the number
clamped to the last packet, and the timer. -/
def Loaded.finish (loaded : Loaded) (tv : Timeval) :
    ThConfig × ℤ × Datagram :=
  let last := loaded.config.lastPackSeqNo
  let atEnd := loaded.seqNum ≥ last ∧ last ≠ -1
  let seqNum := if atEnd then last else loaded.seqNum
  let started :=
    if loaded.config.rttinit = 0 then
      { loaded.config with
        rttinfo := rttInit loaded.config.rttinfo tv
        rttinit := 3 }
    else loaded.config
  ({ started with rttinfo := rttNewpack started.rttinfo },
    seqNum,
    { config :=
        { seq := toUint32 seqNum
          ts := loaded.ts
          rwnd := 0
          type := if atEnd then .eof else .data }
      buf := loaded.buf })

/-- One iteration of the burst loop which sends a datagram. -/
def Server.sendPacket (words : List String) (server : Server)
    (packetCount : ℕ) (cwnd rwnd : ℤ) (tvTs tvInit : Timeval) :
    Server × Datagram :=
  let loaded := server.load words tvTs
  let finished := loaded.finish tvInit
  ({ config := finished.1
     seqNum := finished.2.1
     fp := loaded.fp
     qObj := finished.2.2
     point := .sending (packetCount + 1) cwnd rwnd },
    finished.2.2)

/-! ## Around the burst -/

/-- The top of the `while` loop. -/
def Server.startBurst (server : Server) : Server :=
  { server with point := .sending 0 server.config.cwnd server.config.rwnd }

/-- The ping reuses the `query_obj` of the last packet. -/
def Server.pingDatagram (server : Server) : Datagram :=
  { server.qObj with
    config :=
      { server.qObj.config with
        type := .ping
        seq := toUint32 server.seqNum } }

def Server.enterReceiveAck (server : Server) : Server :=
  { server with
    point := .waiting
      { expectedSeqNum := server.seqNum + 1
        prevSeqNum := -1
        fastRetransmit := 0
        alarmMiliSecs := rttStart server.config.rttinfo } }

/-- What follows the burst loop. -/
def Server.endBurst (server : Server) : Server × Option Datagram :=
  if server.config.isEOF = 1 then ({ server with point := .returned }, none)
  else if server.config.rwnd = 0 then
    let ping := server.pingDatagram
    ({ server with qObj := ping }.enterReceiveAck, some ping)
  else (server.enterReceiveAck, none)

/-- The next action of `send_file_data` in the burst loop. -/
def Server.send (words : List String) (server : Server)
    (tvTs tvInit : Timeval) : Option (Server × Option Datagram) :=
  match server.point with
  | .sending packetCount cwnd rwnd =>
      if (packetCount : ℤ) < min cwnd rwnd ∧ server.config.isEOF ≠ 1 then
        let sent :=
          server.sendPacket words packetCount cwnd rwnd tvTs tvInit
        some (sent.1, some sent.2)
      else some server.endBurst
  | _ => none

/-! ## `receive_ack` -/

def growCwnd (config : ThConfig) : ℤ :=
  if config.ssthresh ≠ -1 ∧ config.cwnd ≥ config.ssthresh then
    config.cwnd + 1
  else config.cwnd * 2

/-- The branch taken after a timeout and after a fast retransmit. -/
def Server.ackTimeout (server : Server) (wait : AckWait) : Server :=
  if wait.prevSeqNum > server.config.lastPackSeqNo ∧
      server.config.lastPackSeqNo ≠ -1 then
    { server with config := { server.config with isEOF := 1 } }.startBurst
  else
    let timeout := rttTimeout server.config.rttinfo
    if timeout.2 then
      { server with
        config := { server.config with rttinfo := timeout.1, rttinit := 0 }
        point := .gaveUp }
    else
      { server with
        config :=
          { server.config with
            rttinfo := timeout.1
            ssthresh := server.config.cwnd.tdiv 2
            cwnd := 1
            lastUnackedSeq :=
              if wait.prevSeqNum ≠ -1 then wait.prevSeqNum
              else server.config.lastUnackedSeq
            rttinit := 0 } }.startBurst

/-- The code after the `do`-`while` loop of `receive_ack`. -/
def Server.ackDone (server : Server) (ack : Ack) (tv : Timeval) : Server :=
  let elapsed :=
    (((rttTs server.config.rttinfo tv : ℤ) - ack.ts) % 4294967296).toNat
  { server with
    config :=
      { server.config with
        rttinfo := rttStop server.config.rttinfo elapsed
        lastUnackedSeq := -1 } }.startBurst

/-- Saves the number the client wants and counts its repetitions. -/
def AckWait.count (wait : AckWait) (ack : Ack) : AckWait :=
  if wait.prevSeqNum = ack.seq then
    { wait with fastRetransmit := wait.fastRetransmit + 1 }
  else { wait with prevSeqNum := ack.seq, fastRetransmit := 0 }

@[simp]
theorem AckWait.count_prevSeqNum (wait : AckWait) (ack : Ack) :
    (wait.count ack).prevSeqNum = ack.seq := by
  unfold AckWait.count
  split
  next hsame => exact hsame
  next => rfl

@[simp]
theorem AckWait.count_expectedSeqNum (wait : AckWait) (ack : Ack) :
    (wait.count ack).expectedSeqNum = wait.expectedSeqNum := by
  unfold AckWait.count
  split <;> rfl

@[simp]
theorem AckWait.count_alarmMiliSecs (wait : AckWait) (ack : Ack) :
    (wait.count ack).alarmMiliSecs = wait.alarmMiliSecs := by
  unfold AckWait.count
  split <;> rfl

/-- One received acknowledgement.  Its number is a `uint32_t`, so the
comparison with the last packet is one of unsigned numbers. -/
def Server.receiveAck (server : Server) (wait : AckWait) (ack : Ack)
    (tv : Timeval) : Server :=
  let grown : Server :=
    { server with
      config := { server.config with cwnd := growCwnd server.config } }
  if ack.seq > toUint32 grown.config.lastPackSeqNo ∧
      grown.config.lastPackSeqNo ≠ -1 then
    { grown with config := { grown.config with isEOF := 1 } }.ackDone ack tv
  else
    let heard : Server :=
      { grown with config := { grown.config with rwnd := ack.rwnd } }
    let counted := wait.count ack
    if (ack.seq : ℤ) = wait.expectedSeqNum then heard.ackDone ack tv
    else if counted.fastRetransmit = 3 then heard.ackTimeout counted
    else { heard with point := .waiting counted }

/-- The assignments at the start of `send_file_data`, on a configuration whose
other fields are whatever they were. -/
def Server.start (config : ThConfig) (qObj : Datagram) (rwnd : ℤ) : Server :=
  { config :=
      { config with
        lastUnackedSeq := -1
        lastPackSeqNo := -1
        ssthresh := -1
        rwnd := rwnd
        cwnd := 1 }
    seqNum := -1
    fp := 0
    qObj := qObj
    point := .sending 0 1 rwnd }

end NetworkProgramming.Transfer
