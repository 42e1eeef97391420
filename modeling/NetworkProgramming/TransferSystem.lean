import NetworkProgramming.TransferServer
import NetworkProgramming.TransferClientAcceptance
import NetworkProgramming.Transition

/-!
# Server and client over an unreliable network

The network keeps every datagram and every acknowledgement which was ever
sent.  A delivery takes any of them at any time and leaves it in place, so
loss, delay, duplication and reordering are all included.  The empty message
with which `create_new_connection` opens the connection may be delivered
again, and then the server reads it as an acknowledgement.
-/

namespace NetworkProgramming.Transfer

structure System (rwnd : ℕ) where
  server : Server
  client : Client rwnd
  datagrams : List Datagram
  acks : List Ack

inductive SystemEvent where
  | send (tvTs tvInit : Timeval)
  | serverReceive (ack : Ack) (tv : Timeval)
  | timeout
  | clientReceive (datagram : Datagram)
  | readerPass
  deriving DecidableEq, Repr

variable {rwnd : ℕ}

def System.step (words : List String) (system : System rwnd) :
    SystemEvent → Option (System rwnd)
  | .send tvTs tvInit =>
      (system.server.send words tvTs tvInit).map fun sent =>
        { system with
          server := sent.1
          datagrams := sent.2.toList ++ system.datagrams }
  | .serverReceive ack tv =>
      match system.server.point with
      | .waiting wait =>
          if ack ∈ system.acks then
            some { system with
              server := system.server.receiveAck wait ack tv }
          else none
      | _ => none
  | .timeout =>
      match system.server.point with
      | .waiting wait =>
          some { system with server := system.server.ackTimeout wait }
      | _ => none
  | .clientReceive datagram =>
      if system.client.status = .receiving ∧
          datagram ∈ system.datagrams then
        let received := system.client.receive datagram
        some { system with
          client := received.1
          acks := received.2.toList ++ system.acks }
      else none
  | .readerPass =>
      if system.client.status = .receiving then
        some { system with client := system.client.readerPass }
      else none

/-- The zeroed `query_obj` sent by `create_new_connection`, as an
acknowledgement. -/
def openingMessage : Ack :=
  ⟨0, 0, 0⟩

/-- The fields which `send_file_data` does not set are arbitrary, except that
`isEOF` starts at zero. -/
structure System.Initial (system : System rwnd) : Prop where
  server : ∃ config qObj servRwnd, config.isEOF = 0 ∧
    system.server = Server.start config qObj servRwnd
  client : system.client.Initial
  datagrams : system.datagrams = []
  acks : system.acks = [openingMessage]

/-- A concrete initial state with zeroed memory. -/
def System.fresh (rwnd : ℕ) (servRwnd : ℤ) : System rwnd where
  server := Server.start ⟨0, 0, ⟨0, 0, 0, 0, 0, 0⟩, 0, 0, 0, 0, 0⟩
    zeroDatagram servRwnd
  client := Client.fresh rwnd
  datagrams := []
  acks := [openingMessage]

theorem System.fresh_initial (rwnd : ℕ) (servRwnd : ℤ) :
    (System.fresh rwnd servRwnd).Initial :=
  ⟨⟨_, _, servRwnd, rfl, rfl⟩, Client.fresh_initial rwnd, rfl, rfl⟩

/-- Every run over the unreliable network. -/
def System.Reachable (words : List String) (system : System rwnd) : Prop :=
  Transition.Reachable (System.step words) Transition.Unrestricted
    System.Initial system

/-! ## What one event can do -/

theorem System.step_cases
    {words : List String} {system next : System rwnd}
    {event : SystemEvent}
    (hstep : system.step words event = some next) :
    (∃ tvTs tvInit sent, event = .send tvTs tvInit ∧
        system.server.send words tvTs tvInit = some sent ∧
        next = { system with
          server := sent.1
          datagrams := sent.2.toList ++ system.datagrams }) ∨
      (∃ ack tv wait, event = .serverReceive ack tv ∧
        system.server.point = .waiting wait ∧ ack ∈ system.acks ∧
        next = { system with
          server := system.server.receiveAck wait ack tv }) ∨
      (∃ wait, event = .timeout ∧ system.server.point = .waiting wait ∧
        next = { system with server := system.server.ackTimeout wait }) ∨
      (∃ datagram, event = .clientReceive datagram ∧
        datagram ∈ system.datagrams ∧
        next = { system with
          client := (system.client.receive datagram).1
          acks :=
            (system.client.receive datagram).2.toList ++ system.acks }) ∨
      (event = .readerPass ∧
        next = { system with client := system.client.readerPass }) := by
  cases event with
  | send tvTs tvInit =>
      simp only [System.step, Option.map_eq_some_iff] at hstep
      rcases hstep with ⟨sent, hsent, hnext⟩
      exact .inl ⟨tvTs, tvInit, sent, rfl, hsent, hnext.symm⟩
  | serverReceive ack tv =>
      simp only [System.step] at hstep
      split at hstep
      next wait hpoint =>
        split at hstep
        next hack =>
          simp only [Option.some.injEq] at hstep
          exact .inr (.inl ⟨ack, tv, wait, rfl, hpoint, hack, hstep.symm⟩)
        next => contradiction
      next => contradiction
  | timeout =>
      simp only [System.step] at hstep
      split at hstep
      next wait hpoint =>
        simp only [Option.some.injEq] at hstep
        exact .inr (.inr (.inl ⟨wait, rfl, hpoint, hstep.symm⟩))
      next => contradiction
  | clientReceive datagram =>
      simp only [System.step] at hstep
      split at hstep
      next hdelivered =>
        simp only [Option.some.injEq] at hstep
        exact .inr (.inr (.inr (.inl
          ⟨datagram, rfl, hdelivered.2, hstep.symm⟩)))
      next => contradiction
  | readerPass =>
      simp only [System.step] at hstep
      split at hstep
      next =>
        simp only [Option.some.injEq] at hstep
        exact .inr (.inr (.inr (.inr ⟨rfl, hstep.symm⟩)))
      next => contradiction

theorem Server.send_cases
    {words : List String} {server : Server} {tvTs tvInit : Timeval}
    {sent : Server × Option Datagram}
    (hsend : server.send words tvTs tvInit = some sent) :
    (∃ packetCount cwnd rwnd,
        server.point = .sending packetCount cwnd rwnd ∧
        (packetCount : ℤ) < min cwnd rwnd ∧ server.config.isEOF ≠ 1 ∧
        sent = ((server.sendPacket words packetCount cwnd rwnd
            tvTs tvInit).1,
          some (server.sendPacket words packetCount cwnd rwnd
            tvTs tvInit).2)) ∨
      sent = server.endBurst := by
  unfold Server.send at hsend
  split at hsend
  next packetCount cwnd rwnd hpoint =>
    split at hsend
    next hsends =>
      simp only [Option.some.injEq] at hsend
      exact .inl ⟨packetCount, cwnd, rwnd, hpoint, hsends.1, hsends.2,
        hsend.symm⟩
    next =>
      simp only [Option.some.injEq] at hsend
      exact .inr hsend.symm
  next => contradiction

end NetworkProgramming.Transfer
