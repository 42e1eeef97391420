import NetworkProgramming.TransferCommon
import Mathlib.Data.List.FinRange

/-!
# The receiving client

`client.c` keeps `rwnd` slots.  `create_new_connection` stores an incoming
payload when its slot is free and its number is the expected one, moves the
expected number forward and acknowledges; `buffer_reader_thread` prints and
empties the slots from the one with the smallest number to the end of the
array.  Both hold the mutex, so a step of the model is one received datagram
or one pass of the reader.  A simulated drop has no effect and is not a step.

`printed` and `accepted` are history: the lines printed so far and the
payloads stored so far.
-/

namespace NetworkProgramming.Transfer

/-- `struct buffer`.  The source writes only `-1` and `1` to `is_filled`. -/
structure Buffer where
  data : String
  isFilled : Bool
  seq : ℕ
  deriving DecidableEq, Repr

abbrev TextBuffer (rwnd : ℕ) := Fin rwnd → Buffer

def intMax : ℕ := 2147483647

def endOfFile : String := "End of File!"

variable {rwnd : ℕ}

def ispresent (textBuffer : TextBuffer rwnd) (seqNum : ℕ) : Bool :=
  (List.finRange rwnd).any fun i =>
    (textBuffer i).isFilled && (textBuffer i).seq == seqNum

/-- One iteration of `min_seq_num` on `(min_val, min_index)`. -/
def minSeqStep (textBuffer : TextBuffer rwnd) (best : ℕ × ℕ)
    (i : Fin rwnd) : ℕ × ℕ :=
  if (textBuffer i).isFilled then
    let val := min best.1 (textBuffer i).seq
    if best.1 > val then (val, i.val) else best
  else best

def minSeqNum (textBuffer : TextBuffer rwnd) : ℕ :=
  ((List.finRange rwnd).foldl (minSeqStep textBuffer) (intMax, 0)).2

/-- The loop of `update_expected_seq_num`.  Every iteration needs a slot of
its own, so `rwnd` iterations are enough (`ispresent_updateExpected`). -/
def updateExpected (textBuffer : TextBuffer rwnd) : ℕ → ℕ → ℕ
  | 0, expected => expected
  | fuel + 1, expected =>
      if ispresent textBuffer expected then
        updateExpected textBuffer fuel (expected + 1)
      else expected

def updateExpectedSeqNum (textBuffer : TextBuffer rwnd)
    (expected : ℕ) : ℕ :=
  updateExpected textBuffer rwnd expected

def getWindowSize (textBuffer : TextBuffer rwnd) : ℕ :=
  (List.finRange rwnd).countP fun i => !(textBuffer i).isFilled

inductive ClientStatus where
  | receiving
  | finished
  | crashed
  deriving DecidableEq, Repr

/-- A payload stored by `push_data_to_buffer`. -/
structure Accepted where
  type : DataType
  data : String
  seq : ℕ
  deriving DecidableEq, Repr

structure Client (rwnd : ℕ) where
  textBuffer : TextBuffer rwnd
  expectedSeqNum : ℕ
  status : ClientStatus
  printed : List (String × ℕ)
  accepted : List Accepted

def Client.payloads (client : Client rwnd) : List String :=
  client.accepted.map Accepted.data

/-- The assignments of `push_data_to_buffer` to slot `i`. -/
def Client.store (client : Client rwnd) (i : Fin rwnd) (type : DataType)
    (sendBuf : String) (seqNum : ℕ) : Client rwnd :=
  { client with
    textBuffer := Function.update client.textBuffer i ⟨sendBuf, true, seqNum⟩
    accepted := client.accepted ++ [⟨type, sendBuf, seqNum⟩] }

/-- `push_data_to_buffer`.  With an empty buffer `seq_num % cli_config.rwnd`
divides by zero, which ends the process. -/
def Client.pushDataToBuffer (client : Client rwnd) (type : DataType)
    (sendBuf : String) (seqNum : ℕ) : Option (Client rwnd) :=
  if hpos : 0 < rwnd then
    let i : Fin rwnd := ⟨seqNum % rwnd, Nat.mod_lt seqNum hpos⟩
    if (client.textBuffer i).isFilled then some client
    else if seqNum ≠ client.expectedSeqNum then some client
    else some (client.store i type sendBuf seqNum)
  else none

def Client.handleDatagram (client : Client rwnd) (datagram : Datagram) :
    Option (Client rwnd) :=
  match datagram.config.type with
  | .data =>
      client.pushDataToBuffer .data datagram.buf datagram.config.seq
  | .ping => some client
  | .eof =>
      client.pushDataToBuffer .eof endOfFile datagram.config.seq
  | .ack => some client

def Client.advanceExpected (client : Client rwnd) : Client rwnd :=
  { client with
    expectedSeqNum :=
      updateExpectedSeqNum client.textBuffer client.expectedSeqNum }

def Client.sendAckToServer (client : Client rwnd) (ts : ℕ) : Ack where
  seq := client.expectedSeqNum
  ts := ts
  rwnd := getWindowSize client.textBuffer

/-- The loop body of `create_new_connection` for a datagram which is not
dropped, with the acknowledgement it sends. -/
def Client.receive (client : Client rwnd) (datagram : Datagram) :
    Client rwnd × Option Ack :=
  match client.handleDatagram datagram with
  | none => ({ client with status := .crashed }, none)
  | some pushed =>
      let advanced := pushed.advanceExpected
      let status :=
        if datagram.config.type = .eof ∧
            datagram.config.seq + 1 = advanced.expectedSeqNum then
          ClientStatus.finished
        else .receiving
      ({ advanced with status := status },
        some (advanced.sendAckToServer datagram.config.ts))

def drainStep (state : TextBuffer rwnd × List (String × ℕ))
    (i : Fin rwnd) : TextBuffer rwnd × List (String × ℕ) :=
  let slot := state.1 i
  if slot.isFilled then
    (Function.update state.1 i { slot with data := "", isFilled := false },
      state.2 ++ [(slot.data, slot.seq)])
  else state

/-- One pass of `buffer_reader_thread` between locking and unlocking. -/
def Client.readerPass (client : Client rwnd) : Client rwnd :=
  let drained :=
    ((List.finRange rwnd).drop (minSeqNum client.textBuffer)).foldl drainStep
      (client.textBuffer, client.printed)
  { client with textBuffer := drained.1, printed := drained.2 }

inductive ClientEvent where
  | receive (datagram : Datagram)
  | readerPass
  deriving DecidableEq, Repr

/-- The main thread leaves its loop with the mutex locked, so the reader
stops together with it. -/
def Client.step (client : Client rwnd) : ClientEvent → Option (Client rwnd)
  | .receive datagram =>
      if client.status = .receiving then some (client.receive datagram).1
      else none
  | .readerPass =>
      if client.status = .receiving then some client.readerPass else none

/-- The client when `create_new_connection` starts: no slot is filled, and
the other contents of the allocated buffer are arbitrary. -/
structure Client.Initial (client : Client rwnd) : Prop where
  unfilled : ∀ i, (client.textBuffer i).isFilled = false
  expected : client.expectedSeqNum = 0
  status : client.status = .receiving
  printed : client.printed = []
  accepted : client.accepted = []

/-- A client which has just entered `create_new_connection`. -/
def Client.fresh (rwnd : ℕ) : Client rwnd where
  textBuffer := fun _ => ⟨"", false, 0⟩
  expectedSeqNum := 0
  status := .receiving
  printed := []
  accepted := []

theorem Client.fresh_initial (rwnd : ℕ) :
    (Client.fresh rwnd).Initial := by
  constructor <;> simp [Client.fresh]

end NetworkProgramming.Transfer
