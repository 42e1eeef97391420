import NetworkProgramming.Addresses
import NetworkProgramming.CText
import NetworkProgramming.MemoryImage
import NetworkProgramming.TransferCommon
import NetworkProgramming.Transition
import Mathlib.Logic.Function.Basic

/-!
# How a client finds its child

`main` and `udp_reliable_transfer` of `hw2/server.c` and `main` of
`hw2/client.c` up to the transfer.  A client writes the name of a file to the
server; the server acknowledges it and forks a child, which opens a socket of
its own and sends the number of its port as text; the client opens a second
socket and sends an empty datagram to that port; and from then on the child
sends the file to wherever that datagram came from.

Any number of clients ask at the same time, and datagrams are lost, repeated
and reordered.
-/

namespace NetworkProgramming.Transfer

open MemoryImage CText

/-! ## Datagrams as bytes -/

def DataType.code : DataType → ℕ
  | .ack => 0
  | .ping => 1
  | .data => 2
  | .eof => 3

/-- The parts of a `query_obj` which are sent and received; `MAXLINE` is
4096. -/
structure QueryObj where
  buf : List UInt8
  seq : ℕ
  ts : ℕ
  rwnd : ℕ
  type : ℕ
  deriving DecidableEq

/-- `send_udp_data`: the text first, then the header. -/
def sendUdpData (obj : QueryObj) : List UInt8 :=
  obj.buf ++ (word 4 obj.seq ++ (word 4 obj.ts ++
    (word 4 obj.rwnd ++ word 4 obj.type)))

/-- `recv_udp_data` to a `query_obj` which was zeroed; a datagram may be
shorter than the object. -/
def recvUdpData (bytes : List UInt8) : QueryObj :=
  let memory := copyTo 0 (bytes.take 4112) (List.replicate 4112 0)
  { buf := memory.take 4096
    seq := ofWord ((memory.drop 4096).take 4)
    ts := ofWord ((memory.drop 4100).take 4)
    rwnd := ofWord ((memory.drop 4104).take 4)
    type := ofWord ((memory.drop 4108).take 4) }

def zeroObj : QueryObj :=
  ⟨List.replicate 4096 0, 0, 0, 0, 0⟩

def ackObj : QueryObj :=
  { zeroObj with type := DataType.ack.code }

/-- What a child sends for its port. -/
def portObj (port : ℕ) : QueryObj :=
  { zeroObj with
    buf := strcpy zeroObj.buf (decimal port)
    type := DataType.data.code }

/-- The client stores the `long` of `strtol` in an `int`. -/
def newPortNumber (obj : QueryObj) : ℤ :=
  atoi (text obj.buf)

/-- `htons(port_num)`. -/
def sinPort (port : ℤ) : ℕ :=
  (port % 65536).toNat

structure QueryObj.Fits (obj : QueryObj) : Prop where
  length_buf : obj.buf.length = 4096
  seq_lt : obj.seq < 256 ^ 4
  ts_lt : obj.ts < 256 ^ 4
  rwnd_lt : obj.rwnd < 256 ^ 4
  type_lt : obj.type < 256 ^ 4

theorem recvUdpData_sendUdpData
    {obj : QueryObj} (hfits : obj.Fits) :
    recvUdpData (sendUdpData obj) = obj := by
  obtain ⟨hbuf, hseq, hts, hrwnd, htype⟩ := hfits
  have hlength : (sendUdpData obj).length = 4112 := by
    simp only [sendUdpData, List.length_append, length_word, hbuf]
  have hmemory : copyTo 0 ((sendUdpData obj).take 4112)
      (List.replicate 4112 0) = sendUdpData obj := by
    rw [List.take_of_length_le hlength.le, copyTo, List.take_zero,
      List.nil_append, Nat.zero_add, hlength, List.drop_replicate,
      Nat.sub_self, List.replicate_zero, List.append_nil]
  have hafter : ∀ (n : ℕ) (field rest : List UInt8) (size : ℕ),
      (sendUdpData obj).drop n = field ++ rest → field.length = size →
        (sendUdpData obj).drop (n + size) = rest := by
    intro n field rest size hfield hsize
    rw [← List.drop_drop, hfield, List.drop_left' hsize]
  -- the fields, one behind the other
  have h0 : (sendUdpData obj).drop 0 = obj.buf ++ (word 4 obj.seq ++
      (word 4 obj.ts ++ (word 4 obj.rwnd ++ word 4 obj.type))) := rfl
  have h1 := hafter 0 _ _ 4096 h0 hbuf
  have h2 := hafter _ _ _ 4 h1 (length_word 4 _)
  have h3 := hafter _ _ _ 4 h2 (length_word 4 _)
  have h4 := hafter _ _ _ 4 h3 (length_word 4 _)
  simp only [Nat.zero_add, Nat.reduceAdd] at h1 h2 h3 h4
  have hlast : (word 4 obj.type).take 4 = word 4 obj.type :=
    List.take_of_length_le (length_word 4 _).le
  simp only [recvUdpData, hmemory, h1, h2, h3, h4, hlast,
    List.take_left' (length_word 4 _), ofWord_word_of_lt hseq,
    ofWord_word_of_lt hts, ofWord_word_of_lt hrwnd,
    ofWord_word_of_lt htype]
  rw [sendUdpData, List.take_left' hbuf]

/-- The name of a file arrives as the text of the object. -/
theorem text_recvUdpData_name (name : CString 4096) :
    text (recvUdpData name.bytes).buf = name.bytes := by
  have hshort := name.fits
  have hmemory : copyTo 0 (name.bytes.take 4112) (List.replicate 4112 0) =
      name.bytes ++ List.replicate (4112 - name.bytes.length) 0 := by
    rw [List.take_of_length_le (by omega), copyTo, List.take_zero,
      List.nil_append, Nat.zero_add, List.drop_replicate]
  have hrest : 4096 - name.bytes.length =
      (4095 - name.bytes.length) + 1 := by omega
  simp only [recvUdpData, hmemory]
  rw [List.take_append, List.take_of_length_le (by omega),
    List.take_replicate, Nat.min_eq_left (by omega), hrest,
    List.replicate_succ]
  exact text_append_zero name.nonzero _

theorem length_decimal_le {port : ℕ} (hport : port < 65536) :
    (decimal port).length ≤ 5 := by
  have hlength : (natDecimal port).length ≤ 5 := by
    rw [natDecimal]
    split
    next => decide
    next hpos =>
      rw [List.length_map, List.length_reverse]
      exact (Nat.digits_length_le_iff (by norm_num) port).mpr (by omega)
  have hsign : ¬ ((port : ℤ) < 0) := by omega
  rw [decimal, if_neg hsign]
  exact hlength

theorem zeroObj_fits : zeroObj.Fits := by
  constructor
  case length_buf => exact List.length_replicate
  all_goals decide

theorem portObj_fits {port : ℕ} (hport : port < 65536) :
    (portObj port).Fits := by
  have hshort := length_decimal_le hport
  constructor
  case length_buf =>
    have hroom : (text (decimal port)).length < zeroObj.buf.length := by
      rw [text_decimal, zeroObj_fits.length_buf]
      omega
    exact (length_strcpy hroom).trans zeroObj_fits.length_buf
  case seq_lt => exact zeroObj_fits.seq_lt
  case ts_lt => exact zeroObj_fits.ts_lt
  case rwnd_lt => exact zeroObj_fits.rwnd_lt
  case type_lt =>
    have htype : DataType.data.code < 256 ^ 4 := by decide
    exact htype

theorem type_ackObj :
    (recvUdpData (sendUdpData ackObj)).type = DataType.ack.code := by
  have hack : ackObj.Fits := zeroObj_fits
  rw [recvUdpData_sendUdpData hack]
  rfl

theorem type_portObj {port : ℕ} (hport : port < 65536) :
    (recvUdpData (sendUdpData (portObj port))).type =
      DataType.data.code := by
  rw [recvUdpData_sendUdpData (portObj_fits hport)]
  rfl

/-- The port of a child survives its way as text. -/
theorem newPortNumber_portObj {port : ℕ} (hport : port < 65536) :
    newPortNumber (recvUdpData (sendUdpData (portObj port))) = port := by
  rw [recvUdpData_sendUdpData (portObj_fits hport), newPortNumber, portObj]
  dsimp only
  rw [text_strcpy, text_decimal]
  exact atoi_decimal (by omega) (by omega)

theorem sinPort_natCast {port : ℕ} (hport : port < 65536) :
    sinPort port = port := by
  rw [sinPort]
  omega

/-! ## The parties -/

/-- The sockets: the first one of a client, which is connected to a socket of
the server; the second one, of its transfer; a socket on which the server
listens; and the socket of a child. -/
inductive Endpoint (Caller : Type*) where
  | main (caller : Caller)
  | transfer (caller : Caller)
  | listening (index : ℕ)
  | child (port : ℕ)
  deriving DecidableEq

structure Parcel (Caller : Type*) where
  src : Endpoint Caller
  dst : Endpoint Caller
  bytes : List UInt8
  deriving DecidableEq

/-- Where a client is: not started, in one of the two loops of `main` which
wait for the server, or in `create_new_connection`. -/
inductive CallerPhase where
  | idle
  | waitAck
  | waitPort
  | connected (port : ℤ)
  deriving DecidableEq

inductive ChildPhase where
  | forked
  | waiting (port : ℕ)
  | serving (port : ℕ)
  | exited (port : ℕ)
  deriving DecidableEq

def ChildPhase.port? : ChildPhase → Option ℕ
  | .forked => none
  | .waiting port | .serving port | .exited port => some port

/-- The port of a child which has heard of its client. -/
def ChildPhase.served? : ChildPhase → Option ℕ
  | .forked | .waiting _ => none
  | .serving port | .exited port => some port

/-- The port which is in use. -/
def ChildPhase.held? : ChildPhase → Option ℕ
  | .forked | .exited _ => none
  | .waiting port | .serving port => some port

/-- A child of the server.  `requester` is no variable of it: it tells from
where the request came for which the child was forked. -/
structure Child (Caller : Type*) where
  index : ℕ
  requester : Endpoint Caller
  fileName : List UInt8
  cliaddr : Endpoint Caller
  phase : ChildPhase

/-- What the clients read from `client.in`: the name of the file and the
address of the server, as the index of the socket bound to it. -/
structure Lobby (Caller : Type*) where
  fileName : Caller → CString 4096
  serverIndex : Caller → ℕ

structure Handshake (Caller : Type*) where
  callers : Caller → CallerPhase
  children : List (Child Caller)
  flight : List (Parcel Caller)

variable {Caller : Type*}

def Handshake.quiet : Handshake Caller :=
  ⟨fun _ => .idle, [], []⟩

def Handshake.Initial (state : Handshake Caller) : Prop :=
  state = Handshake.quiet

theorem Handshake.quiet_initial :
    (Handshake.quiet : Handshake Caller).Initial :=
  rfl

inductive HandshakeEvent (Caller : Type*) where
  | ask (caller : Caller)
  | deliver (position : ℕ)
  | duplicate (position : ℕ)
  | lose (position : ℕ)
  | bind (child port : ℕ)
  | exit (child : ℕ)

/-- The server takes a request: it acknowledges it and forks. -/
def Handshake.request (state : Handshake Caller) (index : ℕ)
    (src : Endpoint Caller) (bytes : List UInt8) : Handshake Caller :=
  let obj := recvUdpData bytes
  { state with
    children := state.children ++
      [⟨index, src, text obj.buf, src, .forked⟩]
    flight := state.flight ++ [⟨.listening index, src, sendUdpData ackObj⟩] }

/-- A child in `select` takes what comes first to its port. -/
def Child.hears (src : Endpoint Caller) (port : ℕ) (child : Child Caller) :
    Child Caller :=
  if child.phase = .waiting port then
    { child with cliaddr := src, phase := .serving port }
  else child

section Step

variable [DecidableEq Caller]

def Handshake.ask (lobby : Lobby Caller) (state : Handshake Caller)
    (caller : Caller) : Handshake Caller :=
  { state with
    callers := Function.update state.callers caller .waitAck
    flight := state.flight ++
      [⟨.main caller, .listening (lobby.serverIndex caller),
        (lobby.fileName caller).bytes⟩] }

/-- The two loops of the client. -/
def Handshake.answer (state : Handshake Caller) (caller : Caller)
    (bytes : List UInt8) : Handshake Caller :=
  let obj := recvUdpData bytes
  match state.callers caller with
  | .waitAck =>
      if obj.type = DataType.ack.code then
        { state with
          callers := Function.update state.callers caller .waitPort }
      else state
  | .waitPort =>
      if obj.type = DataType.data.code then
        let port := newPortNumber obj
        { state with
          callers := Function.update state.callers caller (.connected port)
          flight := state.flight ++
            [⟨.transfer caller, .child (sinPort port),
              sendUdpData zeroObj⟩] }
      else state
  | .idle | .connected _ => state

/-- What arrives at a client's second socket belongs to the transfer. -/
def Handshake.receive (lobby : Lobby Caller) (state : Handshake Caller)
    (parcel : Parcel Caller) : Handshake Caller :=
  match parcel.dst with
  | .listening index => state.request index parcel.src parcel.bytes
  | .main caller =>
      -- the socket is connected: it takes nothing from anybody else
      if parcel.src = .listening (lobby.serverIndex caller) then
        state.answer caller parcel.bytes
      else state
  | .child port =>
      { state with
        children := state.children.map (Child.hears parcel.src port) }
  | .transfer _ => state

/-- `udp_reliable_transfer` up to its `select`. -/
def Handshake.bind (state : Handshake Caller) (j port : ℕ)
    (child : Child Caller) : Handshake Caller :=
  { state with
    children := state.children.set j { child with phase := .waiting port }
    flight := state.flight ++
      [⟨.listening child.index, child.cliaddr,
        sendUdpData (portObj port)⟩] }

/-- One event.  The kernel gives a port which nobody holds. -/
def Handshake.step (lobby : Lobby Caller) (state : Handshake Caller) :
    HandshakeEvent Caller → Option (Handshake Caller)
  | .ask caller =>
      if state.callers caller = .idle then some (state.ask lobby caller)
      else none
  | .deliver position =>
      (state.flight[position]?).map fun parcel =>
        Handshake.receive lobby
          { state with flight := state.flight.eraseIdx position } parcel
  | .duplicate position =>
      (state.flight[position]?).map fun parcel =>
        { state with flight := state.flight ++ [parcel] }
  | .lose position =>
      (state.flight[position]?).map fun _ =>
        { state with flight := state.flight.eraseIdx position }
  | .bind j port =>
      (state.children[j]?).bind fun child =>
        if child.phase = .forked ∧ port < 65536 ∧
            ∀ other ∈ state.children, other.phase.held? ≠ some port then
          some (state.bind j port child)
        else none
  | .exit j =>
      (state.children[j]?).bind fun child =>
        match child.phase with
        | .serving port =>
            some { state with
              children := state.children.set j
                { child with phase := .exited port } }
        | .forked | .waiting _ | .exited _ => none

end Step

/-- The kernel does not give a port again which a child had before. -/
def Handshake.NoReuse (state : Handshake Caller) :
    HandshakeEvent Caller → Prop
  | .bind _ port => ∀ child ∈ state.children, child.phase.port? ≠ some port
  | .ask _ | .deliver _ | .duplicate _ | .lose _ | .exit _ => True

instance (state : Handshake Caller) (event : HandshakeEvent Caller) :
    Decidable (state.NoReuse event) :=
  match event with
  | .bind _ _ => inferInstanceAs (Decidable (∀ _ ∈ _, _))
  | .ask _ | .deliver _ | .duplicate _ | .lose _ | .exit _ =>
      inferInstanceAs (Decidable True)

/-! ## Where datagrams come from -/

/-- What a child keeps all its life. -/
structure Child.Grows (child after : Child Caller) : Prop where
  requester_eq : after.requester = child.requester
  fileName_eq : after.fileName = child.fileName
  port_eq : ∀ port, child.phase.port? = some port →
    after.phase.port? = some port

/-- Children stay, and a client which is connected stays connected. -/
structure Handshake.Extends (state next : Handshake Caller) : Prop where
  children : ∀ (j : ℕ) (child : Child Caller),
    state.children[j]? = some child →
      ∃ after, next.children[j]? = some after ∧ child.Grows after
  connected : ∀ caller port, state.callers caller = .connected port →
    next.callers caller = .connected port

/-- The datagrams which are sent. -/
inductive Lobby.Genuine (lobby : Lobby Caller) (state : Handshake Caller) :
    Parcel Caller → Prop
  | request (caller : Caller) :
      lobby.Genuine state ⟨.main caller,
        .listening (lobby.serverIndex caller),
        (lobby.fileName caller).bytes⟩
  | ack (index : ℕ) (caller : Caller) :
      lobby.Genuine state ⟨.listening index, .main caller,
        sendUdpData ackObj⟩
  | port {j : ℕ} {child : Child Caller} {caller : Caller} {port : ℕ}
      (index : ℕ) (hchild : state.children[j]? = some child)
      (hrequester : child.requester = .main caller)
      (hport : child.phase.port? = some port) :
      lobby.Genuine state ⟨.listening index, .main caller,
        sendUdpData (portObj port)⟩
  | hello {caller : Caller} {port : ℕ}
      (hconnected : state.callers caller = .connected port) :
      lobby.Genuine state ⟨.transfer caller, .child port,
        sendUdpData zeroObj⟩

/-- What is known of a child. -/
structure Lobby.Forked (lobby : Lobby Caller) (state : Handshake Caller)
    (child : Child Caller) (caller : Caller) : Prop where
  requester_eq : child.requester = .main caller
  fileName_eq : child.fileName = (lobby.fileName caller).bytes
  port_lt : ∀ port, child.phase.port? = some port → port < 65536
  unserved : child.phase.served? = none → child.cliaddr = .main caller
  served : ∀ port, child.phase.served? = some port →
    ∃ other, child.cliaddr = .transfer other ∧
      state.callers other = .connected port

/-- A child which was forked for the client has the port. -/
def Handshake.Offers (state : Handshake Caller) (caller : Caller)
    (port : ℤ) : Prop :=
  ∃ (j : ℕ) (child : Child Caller) (n : ℕ),
    state.children[j]? = some child ∧ child.requester = .main caller ∧
      child.phase.port? = some n ∧ port = n

structure Handshake.Sound (lobby : Lobby Caller)
    (state : Handshake Caller) : Prop where
  parcels : ∀ parcel ∈ state.flight, lobby.Genuine state parcel
  forked : ∀ child ∈ state.children, ∃ caller,
    lobby.Forked state child caller
  apart : ∀ (i j : ℕ) (child other : Child Caller) (port : ℕ),
    state.children[i]? = some child → state.children[j]? = some other →
    child.phase.port? = some port → other.phase.port? = some port → i = j
  connected : ∀ caller port, state.callers caller = .connected port →
    state.Offers caller port

section Sound

variable {lobby : Lobby Caller} {state next : Handshake Caller}

theorem Child.Grows.refl (child : Child Caller) : child.Grows child :=
  ⟨rfl, rfl, fun _ hport => hport⟩

theorem Lobby.Genuine.mono
    {parcel : Parcel Caller} (hgenuine : lobby.Genuine state parcel)
    (hextends : state.Extends next) :
    lobby.Genuine next parcel := by
  cases hgenuine with
  | request caller => exact .request caller
  | ack index caller => exact .ack index caller
  | port index hchild hrequester hport =>
      obtain ⟨after, hafter, hgrows⟩ := hextends.children _ _ hchild
      exact .port index hafter (hgrows.requester_eq.trans hrequester)
        (hgrows.port_eq _ hport)
  | hello hconnected => exact .hello (hextends.connected _ _ hconnected)

theorem Lobby.Forked.mono
    {child : Child Caller} {caller : Caller}
    (hforked : lobby.Forked state child caller)
    (hextends : state.Extends next) :
    lobby.Forked next child caller := by
  constructor
  case requester_eq => exact hforked.requester_eq
  case fileName_eq => exact hforked.fileName_eq
  case port_lt => exact hforked.port_lt
  case unserved => exact hforked.unserved
  case served =>
    intro port hserved
    obtain ⟨other, hcliaddr, hconnected⟩ := hforked.served port hserved
    exact ⟨other, hcliaddr, hextends.connected other port hconnected⟩

theorem Handshake.Offers.mono
    {caller : Caller} {port : ℤ} (hoffers : state.Offers caller port)
    (hextends : state.Extends next) :
    next.Offers caller port := by
  obtain ⟨j, child, n, hchild, hrequester, hport, heq⟩ := hoffers
  obtain ⟨after, hafter, hgrows⟩ := hextends.children j child hchild
  exact ⟨j, after, n, hafter, hgrows.requester_eq.trans hrequester,
    hgrows.port_eq n hport, heq⟩

/-- A client which is not connected moves on, and datagrams come and go. -/
theorem Handshake.Extends.of_callers
    (hchildren : next.children = state.children)
    (hconnected : ∀ caller port, state.callers caller = .connected port →
      next.callers caller = .connected port) :
    state.Extends next := by
  constructor
  case children =>
    intro j child hchild
    rw [hchildren]
    exact ⟨child, hchild, .refl child⟩
  case connected => exact hconnected

/-- The state after an event which leaves the children alone. -/
theorem Handshake.Sound.of_callers
    (hsound : state.Sound lobby)
    (hchildren : next.children = state.children)
    (hconnected : ∀ caller port, state.callers caller = .connected port →
      next.callers caller = .connected port)
    (hparcels : ∀ parcel ∈ next.flight, parcel ∈ state.flight ∨
      lobby.Genuine next parcel)
    (hnew : ∀ caller port, next.callers caller = .connected port →
      state.callers caller = .connected port ∨
      state.Offers caller port) :
    next.Sound lobby := by
  have hextends := Handshake.Extends.of_callers hchildren hconnected
  constructor
  case parcels =>
    intro parcel hparcel
    rcases hparcels parcel hparcel with hold | hgenuine
    · exact (hsound.parcels parcel hold).mono hextends
    · exact hgenuine
  case forked =>
    intro child hchild
    rw [hchildren] at hchild
    obtain ⟨caller, hforked⟩ := hsound.forked child hchild
    exact ⟨caller, hforked.mono hextends⟩
  case apart =>
    rw [hchildren]
    exact hsound.apart
  case connected =>
    intro caller port hport
    rcases hnew caller port hport with hold | hoffers
    · exact (hsound.connected caller port hold).mono hextends
    · exact hoffers.mono hextends

theorem Handshake.Sound.fewer
    (hsound : state.Sound lobby) {flight : List (Parcel Caller)}
    (hflight : ∀ parcel ∈ flight, parcel ∈ state.flight) :
    Handshake.Sound lobby { state with flight := flight } :=
  hsound.of_callers rfl (fun _ _ hport => hport)
    (fun parcel hparcel => .inl (hflight parcel hparcel))
    fun _ _ hport => .inl hport

/-! ## Steps -/

theorem Handshake.Sound.request
    (hsound : state.Sound lobby) (caller : Caller) (index : ℕ) :
    (state.request index (.main caller)
      (lobby.fileName caller).bytes).Sound lobby := by
  let child : Child Caller :=
    ⟨index, .main caller,
      text (recvUdpData (lobby.fileName caller).bytes).buf, .main caller,
      .forked⟩
  have hextends : state.Extends
      (state.request index (.main caller)
        (lobby.fileName caller).bytes) := by
    constructor
    case children =>
      intro j old hold
      have hlt := (List.getElem?_eq_some_iff.mp hold).1
      exact ⟨old, (List.getElem?_append_left hlt).trans hold, .refl old⟩
    case connected => exact fun _ _ hport => hport
  -- a child which was just forked has no port yet
  have hported : ∀ (j : ℕ) (other : Child Caller) (port : ℕ),
      (state.children ++ [child])[j]? = some other →
      other.phase.port? = some port → state.children[j]? = some other := by
    intro j other port hother hport
    by_cases hlt : j < state.children.length
    · rwa [List.getElem?_append_left hlt] at hother
    · rw [List.getElem?_append_right (by omega)] at hother
      obtain rfl := List.mem_singleton.mp (List.mem_of_getElem? hother)
      cases hport
  constructor
  case parcels =>
    intro parcel hparcel
    rcases List.mem_append.mp hparcel with hold | hlast
    · exact (hsound.parcels parcel hold).mono hextends
    · rw [List.mem_singleton.mp hlast]
      exact .ack index caller
  case forked =>
    intro other hother
    rcases List.mem_append.mp hother with hold | hlast
    · obtain ⟨owner, hforked⟩ := hsound.forked other hold
      exact ⟨owner, hforked.mono hextends⟩
    · rw [List.mem_singleton.mp hlast]
      refine ⟨caller, rfl, ?_, ?_, fun _ => rfl, ?_⟩
      · exact text_recvUdpData_name (lobby.fileName caller)
      · intro port hport
        cases hport
      · intro port hport
        cases hport
  case apart =>
    intro i j first second port hfirst hsecond hport hport'
    exact hsound.apart i j first second port
      (hported i first port hfirst hport)
      (hported j second port hsecond hport') hport hport'
  case connected =>
    intro other port hport
    exact (hsound.connected other port hport).mono hextends

variable [DecidableEq Caller]

/-- A client which is not connected moves on. -/
theorem Handshake.Sound.move
    (hsound : state.Sound lobby) {caller : Caller} {phase : CallerPhase}
    (hbefore : ∀ port, state.callers caller ≠ .connected port)
    (hchildren : next.children = state.children)
    (hcallers : next.callers = Function.update state.callers caller phase)
    (hparcels : ∀ parcel ∈ next.flight, parcel ∈ state.flight ∨
      lobby.Genuine next parcel)
    (hoffers : ∀ port, phase = .connected port →
      state.Offers caller port) :
    next.Sound lobby := by
  refine hsound.of_callers hchildren ?_ hparcels ?_
  · intro other port hport
    have hother : other ≠ caller := by
      rintro rfl
      exact hbefore port hport
    rw [hcallers, Function.update_of_ne hother]
    exact hport
  · intro other port hport
    rw [hcallers] at hport
    by_cases hother : other = caller
    · subst hother
      rw [Function.update_self] at hport
      exact .inr (hoffers port hport)
    · rw [Function.update_of_ne hother] at hport
      exact .inl hport

theorem Handshake.Sound.ask
    (hsound : state.Sound lobby) {caller : Caller}
    (hidle : state.callers caller = .idle) :
    (state.ask lobby caller).Sound lobby := by
  refine hsound.move (by simp [hidle]) rfl rfl ?_ (by simp)
  intro parcel hparcel
  rcases List.mem_append.mp hparcel with hold | hlast
  · exact .inl hold
  · rw [List.mem_singleton.mp hlast]
    exact .inr (.request caller)

/-- The client takes an acknowledgement, or goes on waiting for one. -/
theorem Handshake.Sound.answer_waitAck
    (hsound : state.Sound lobby) {caller : Caller}
    (hphase : state.callers caller = .waitAck) (bytes : List UInt8) :
    (state.answer caller bytes).Sound lobby := by
  unfold Handshake.answer
  simp only [hphase]
  split
  next =>
    exact hsound.move (by simp [hphase]) rfl rfl
      (fun _ hparcel => .inl hparcel) (by simp)
  next => exact hsound

/-- The client takes the port of one of its children. -/
theorem Handshake.Sound.answer_port
    (hsound : state.Sound lobby) {caller : Caller} {j n : ℕ}
    {child : Child Caller} (hchild : state.children[j]? = some child)
    (hrequester : child.requester = .main caller)
    (hport : child.phase.port? = some n) :
    (state.answer caller (sendUdpData (portObj n))).Sound lobby := by
  have hlt : n < 65536 := by
    obtain ⟨owner, hforked⟩ :=
      hsound.forked child (List.mem_of_getElem? hchild)
    exact hforked.port_lt n hport
  cases hphase : state.callers caller with
  | waitAck => exact hsound.answer_waitAck hphase _
  | idle =>
      simp only [Handshake.answer, hphase]
      exact hsound
  | connected port =>
      simp only [Handshake.answer, hphase]
      exact hsound
  | waitPort =>
      simp only [Handshake.answer, hphase, type_portObj hlt,
        newPortNumber_portObj hlt, sinPort_natCast hlt, if_true]
      refine hsound.move (by simp [hphase]) rfl rfl ?_ ?_
      · intro parcel hparcel
        rcases List.mem_append.mp hparcel with hold | hlast
        · exact .inl hold
        · rw [List.mem_singleton.mp hlast]
          exact .inr (.hello (Function.update_self _ _ _))
      · rintro _ ⟨⟩
        exact ⟨j, child, n, hchild, hrequester, hport, rfl⟩

theorem Handshake.Sound.answer_ack
    (hsound : state.Sound lobby) (caller : Caller) :
    (state.answer caller (sendUdpData ackObj)).Sound lobby := by
  cases hphase : state.callers caller with
  | waitAck => exact hsound.answer_waitAck hphase _
  | idle =>
      simp only [Handshake.answer, hphase]
      exact hsound
  | connected port =>
      simp only [Handshake.answer, hphase]
      exact hsound
  | waitPort =>
      -- a second acknowledgement is not what the client waits for
      have hother : ¬ DataType.ack.code = DataType.data.code := by decide
      simp only [Handshake.answer, hphase, type_ackObj, if_neg hother]
      exact hsound

end Sound

section Children

variable {lobby : Lobby Caller} {state next : Handshake Caller}

/-- What has become of a child. -/
structure Lobby.Becomes (lobby : Lobby Caller)
    (state next : Handshake Caller) (child after : Child Caller) :
    Prop where
  grows : child.Grows after
  forked : ∀ caller, lobby.Forked state child caller →
    lobby.Forked next after caller

theorem getElem?_of_length_eq
    {Item : Type*} {items others : List Item}
    (hlength : others.length = items.length) {j : ℕ} {item : Item}
    (hitem : items[j]? = some item) :
    ∃ other, others[j]? = some other := by
  have hlt := (List.getElem?_eq_some_iff.mp hitem).1
  rw [← hlength] at hlt
  exact ⟨others[j], List.getElem?_eq_getElem hlt⟩

/-- Every child is replaced by what has become of it. -/
theorem Handshake.Sound.replace
    (hsound : state.Sound lobby)
    (hcallers : next.callers = state.callers)
    (hlength : next.children.length = state.children.length)
    (hbecomes : ∀ (j : ℕ) (child after : Child Caller),
      state.children[j]? = some child → next.children[j]? = some after →
        lobby.Becomes state next child after)
    (hapart : ∀ (i j : ℕ) (child other : Child Caller) (port : ℕ),
      next.children[i]? = some child → next.children[j]? = some other →
      child.phase.port? = some port → other.phase.port? = some port →
        i = j)
    (hparcels : ∀ parcel ∈ next.flight, parcel ∈ state.flight ∨
      lobby.Genuine next parcel) :
    next.Sound lobby := by
  have hextends : state.Extends next := by
    constructor
    case children =>
      intro j child hchild
      obtain ⟨after, hafter⟩ := getElem?_of_length_eq hlength hchild
      exact ⟨after, hafter, (hbecomes j child after hchild hafter).grows⟩
    case connected =>
      rw [hcallers]
      exact fun _ _ hport => hport
  constructor
  case parcels =>
    intro parcel hparcel
    rcases hparcels parcel hparcel with hold | hgenuine
    · exact (hsound.parcels parcel hold).mono hextends
    · exact hgenuine
  case forked =>
    intro after hafter
    obtain ⟨j, hj⟩ := List.mem_iff_getElem?.mp hafter
    obtain ⟨child, hchild⟩ := getElem?_of_length_eq hlength.symm hj
    obtain ⟨caller, hforked⟩ :=
      hsound.forked child (List.mem_of_getElem? hchild)
    exact ⟨caller, (hbecomes j child after hchild hj).forked caller hforked⟩
  case apart => exact hapart
  case connected =>
    intro caller port hport
    rw [hcallers] at hport
    exact (hsound.connected caller port hport).mono hextends

/-- The same, when no port changes. -/
theorem Handshake.Sound.replace_kept
    (hsound : state.Sound lobby)
    (hcallers : next.callers = state.callers)
    (hflight : next.flight = state.flight)
    (hlength : next.children.length = state.children.length)
    (hbecomes : ∀ (j : ℕ) (child after : Child Caller),
      state.children[j]? = some child → next.children[j]? = some after →
        lobby.Becomes state next child after ∧
          after.phase.port? = child.phase.port?) :
    next.Sound lobby := by
  have hports : ∀ (j : ℕ) (after : Child Caller) (port : ℕ),
      next.children[j]? = some after → after.phase.port? = some port →
        ∃ child, state.children[j]? = some child ∧
          child.phase.port? = some port := by
    intro j after port hafter hport
    obtain ⟨child, hchild⟩ := getElem?_of_length_eq hlength.symm hafter
    have hsame := (hbecomes j child after hchild hafter).2
    exact ⟨child, hchild, hsame.symm.trans hport⟩
  refine hsound.replace hcallers hlength
    (fun j child after hchild hafter =>
      (hbecomes j child after hchild hafter).1) ?_ ?_
  · intro i j first second port hfirst hsecond hport hport'
    obtain ⟨child, hchild, hheld⟩ := hports i first port hfirst hport
    obtain ⟨other, hother, hheld'⟩ := hports j second port hsecond hport'
    exact hsound.apart i j child other port hchild hother hheld hheld'
  · rw [hflight]
    exact fun _ hparcel => .inl hparcel

theorem Lobby.Becomes.refl
    (hcallers : next.callers = state.callers) (child : Child Caller) :
    lobby.Becomes state next child child := by
  refine ⟨.refl child, fun caller hforked => ?_⟩
  obtain ⟨hrequester, hfile, hlt, hunserved, hserved⟩ := hforked
  refine ⟨hrequester, hfile, hlt, hunserved, ?_⟩
  rw [hcallers]
  exact hserved

/-- The first datagram to its port tells a child where its client is. -/
theorem Handshake.Sound.hears
    (hsound : state.Sound lobby) {caller : Caller} {port : ℕ}
    (hconnected : state.callers caller = .connected port) :
    Handshake.Sound lobby { state with
      children := state.children.map
        (Child.hears (.transfer caller) port) } := by
  refine hsound.replace_kept rfl rfl (List.length_map _) ?_
  intro j child after hchild hafter
  rw [List.getElem?_map, hchild, Option.map_some,
    Option.some.injEq] at hafter
  subst hafter
  unfold Child.hears
  split
  next hwaiting =>
    refine ⟨⟨⟨rfl, rfl, ?_⟩, ?_⟩, by simp [hwaiting, ChildPhase.port?]⟩
    · rw [hwaiting]
      exact fun _ hport => hport
    · intro owner hforked
      constructor
      case requester_eq => exact hforked.requester_eq
      case fileName_eq => exact hforked.fileName_eq
      case port_lt =>
        have hlt := hforked.port_lt
        rw [hwaiting] at hlt
        exact hlt
      case unserved =>
        intro hserved
        cases hserved
      case served =>
        rintro _ ⟨⟩
        exact ⟨caller, rfl, hconnected⟩
  next => exact ⟨.refl (by rfl) child, rfl⟩

theorem Handshake.Sound.exit
    (hsound : state.Sound lobby) {j port : ℕ} {child : Child Caller}
    (hchild : state.children[j]? = some child)
    (hserving : child.phase = .serving port) :
    Handshake.Sound lobby { state with
      children := state.children.set j
        { child with phase := .exited port } } := by
  refine hsound.replace_kept rfl rfl List.length_set ?_
  intro i old after hold hafter
  rw [List.getElem?_set] at hafter
  split at hafter
  next hsame =>
    subst hsame
    rw [hchild, Option.some.injEq] at hold
    subst hold
    split at hafter
    next =>
      cases hafter
      refine ⟨⟨⟨rfl, rfl, ?_⟩, ?_⟩, by simp [hserving, ChildPhase.port?]⟩
      · rw [hserving]
        exact fun _ hport => hport
      · intro owner hforked
        constructor
        case requester_eq => exact hforked.requester_eq
        case fileName_eq => exact hforked.fileName_eq
        case port_lt =>
          have hlt := hforked.port_lt
          rw [hserving] at hlt
          exact hlt
        case unserved =>
          intro hserved
          cases hserved
        case served =>
          have hserved := hforked.served
          rw [hserving] at hserved
          exact hserved
    next => cases hafter
  next =>
    rw [hold, Option.some.injEq] at hafter
    subst hafter
    exact ⟨.refl (by rfl) old, rfl⟩

/-- A child opens its socket, with a port no child had before. -/
theorem Handshake.Sound.bind
    (hsound : state.Sound lobby) {j port : ℕ} {child : Child Caller}
    (hchild : state.children[j]? = some child)
    (hphase : child.phase = .forked) (hport : port < 65536)
    (hfresh : ∀ other ∈ state.children, other.phase.port? ≠ some port) :
    (state.bind j port child).Sound lobby := by
  have hlt : j < state.children.length :=
    (List.getElem?_eq_some_iff.mp hchild).1
  have hself : (state.bind j port child).children[j]? =
      some { child with phase := .waiting port } :=
    List.getElem?_set_self hlt
  have hother : ∀ i, i ≠ j →
      (state.bind j port child).children[i]? = state.children[i]? :=
    fun i hi => List.getElem?_set_ne hi.symm
  -- the port of any other child is an old one
  have hold : ∀ (i : ℕ) (other : Child Caller) (n : ℕ), i ≠ j →
      (state.bind j port child).children[i]? = some other →
      other.phase.port? = some n →
        state.children[i]? = some other ∧ n ≠ port := by
    intro i other n hi hget hn
    rw [hother i hi] at hget
    refine ⟨hget, ?_⟩
    rintro rfl
    exact hfresh other (List.mem_of_getElem? hget) hn
  obtain ⟨caller, hforked⟩ :=
    hsound.forked child (List.mem_of_getElem? hchild)
  refine hsound.replace rfl List.length_set ?_ ?_ ?_
  · intro i before after hbefore hafter
    by_cases hi : i = j
    · subst hi
      rw [hself, Option.some.injEq] at hafter
      rw [hchild, Option.some.injEq] at hbefore
      subst hafter hbefore
      refine ⟨⟨rfl, rfl, ?_⟩, ?_⟩
      · rw [hphase]
        intro n hn
        cases hn
      · intro owner howner
        constructor
        case requester_eq => exact howner.requester_eq
        case fileName_eq => exact howner.fileName_eq
        case port_lt =>
          rintro _ ⟨⟩
          exact hport
        case unserved =>
          have hunserved := howner.unserved
          rw [hphase] at hunserved
          exact hunserved
        case served =>
          intro n hn
          cases hn
    · rw [hother i hi, hbefore, Option.some.injEq] at hafter
      subst hafter
      exact .refl (by rfl) before
  · intro i i' first second n hfirst hsecond hn hn'
    by_cases hi : i = j
    · subst hi
      rw [hself, Option.some.injEq] at hfirst
      subst hfirst
      cases hn
      by_contra hne
      exact (hold i' second port (Ne.symm hne) hsecond hn').2 rfl
    · obtain ⟨hfirst', hne⟩ := hold i first n hi hfirst hn
      by_cases hi' : i' = j
      · subst hi'
        rw [hself, Option.some.injEq] at hsecond
        subst hsecond
        cases hn'
        exact absurd rfl hne
      · obtain ⟨hsecond', _⟩ := hold i' second n hi' hsecond hn'
        exact hsound.apart i i' first second n hfirst' hsecond' hn hn'
  · intro parcel hparcel
    rcases List.mem_append.mp hparcel with hmem | hlast
    · exact .inl hmem
    · rw [List.mem_singleton.mp hlast,
        hforked.unserved (by rw [hphase]; rfl)]
      exact .inr (.port child.index hself hforked.requester_eq rfl)

end Children

section Runs

variable [DecidableEq Caller] {lobby : Lobby Caller}
variable {state next : Handshake Caller}

theorem Handshake.Sound.receive
    (hsound : state.Sound lobby) {parcel : Parcel Caller}
    (hgenuine : lobby.Genuine state parcel) :
    (state.receive lobby parcel).Sound lobby := by
  cases hgenuine with
  | request caller => exact hsound.request caller _
  | ack index caller =>
      simp only [Handshake.receive]
      split
      next => exact hsound.answer_ack caller
      next => exact hsound
  | port index hchild hrequester hport =>
      simp only [Handshake.receive]
      split
      next => exact hsound.answer_port hchild hrequester hport
      next => exact hsound
  | hello hconnected => exact hsound.hears hconnected

theorem Handshake.Sound.step
    (hsound : state.Sound lobby) {event : HandshakeEvent Caller}
    (hfresh : state.NoReuse event)
    (hstep : state.step lobby event = some next) :
    next.Sound lobby := by
  cases event with
  | ask caller =>
      simp only [Handshake.step, Option.ite_none_right_eq_some,
        Option.some.injEq] at hstep
      obtain ⟨hidle, rfl⟩ := hstep
      exact hsound.ask hidle
  | deliver position =>
      obtain ⟨parcel, hparcel, rfl⟩ := Option.map_eq_some_iff.mp hstep
      have hgenuine :=
        hsound.parcels parcel (List.mem_of_getElem? hparcel)
      have htaken : Handshake.Sound lobby
          { state with flight := state.flight.eraseIdx position } :=
        hsound.fewer fun _ hmem => List.mem_of_mem_eraseIdx hmem
      exact htaken.receive
        (hgenuine.mono (.of_callers rfl fun _ _ hport => hport))
  | duplicate position =>
      obtain ⟨parcel, hparcel, rfl⟩ := Option.map_eq_some_iff.mp hstep
      refine hsound.fewer ?_
      intro other hother
      rcases List.mem_append.mp hother with hold | hlast
      · exact hold
      · rw [List.mem_singleton.mp hlast]
        exact List.mem_of_getElem? hparcel
  | lose position =>
      obtain ⟨parcel, _, rfl⟩ := Option.map_eq_some_iff.mp hstep
      exact hsound.fewer fun _ hmem => List.mem_of_mem_eraseIdx hmem
  | bind j port =>
      obtain ⟨child, hchild, hbind⟩ := Option.bind_eq_some_iff.mp hstep
      simp only [Option.ite_none_right_eq_some,
        Option.some.injEq] at hbind
      obtain ⟨⟨hphase, hport, _⟩, rfl⟩ := hbind
      exact hsound.bind hchild hphase hport hfresh
  | exit j =>
      obtain ⟨child, hchild, hexit⟩ := Option.bind_eq_some_iff.mp hstep
      cases hphase : child.phase with
      | serving port =>
          simp only [hphase, Option.some.injEq] at hexit
          subst hexit
          exact hsound.exit hchild hphase
      | forked => simp [hphase] at hexit
      | waiting port => simp [hphase] at hexit
      | exited port => simp [hphase] at hexit

omit [DecidableEq Caller] in
theorem Handshake.Initial.sound
    (hinit : state.Initial) : state.Sound lobby := by
  subst hinit
  constructor
  case parcels => exact fun _ hparcel => absurd hparcel List.not_mem_nil
  case forked => exact fun _ hchild => absurd hchild List.not_mem_nil
  case apart =>
    intro i j child other port hchild
    cases hchild
  case connected =>
    intro caller port hport
    cases hport

omit [DecidableEq Caller] in
theorem ChildPhase.port_of_served
    {phase : ChildPhase} {port : ℕ} (hserved : phase.served? = some port) :
    phase.port? = some port := by
  cases phase with
  | forked => cases hserved
  | waiting _ => cases hserved
  | serving _ => exact hserved
  | exited _ => exact hserved

omit [DecidableEq Caller] in
/-- The port which a client has is the one of a child forked for it, and no
other child has that port. -/
theorem Handshake.Sound.serves
    (hsound : state.Sound lobby) {j port : ℕ} {child : Child Caller}
    (hchild : state.children[j]? = some child)
    (hserved : child.phase.served? = some port) :
    ∃ caller, child.cliaddr = .transfer caller ∧
      child.requester = .main caller ∧
      child.fileName = (lobby.fileName caller).bytes ∧
      state.callers caller = .connected port := by
  obtain ⟨asked, hforked⟩ :=
    hsound.forked child (List.mem_of_getElem? hchild)
  obtain ⟨caller, hcliaddr, hconnected⟩ := hforked.served port hserved
  obtain ⟨i, offering, n, hoffering, hrequester, hn, heq⟩ :=
    hsound.connected caller port hconnected
  obtain rfl : port = n := by exact_mod_cast heq
  have hsame : i = j := hsound.apart i j offering child port hoffering
    hchild hn (ChildPhase.port_of_served hserved)
  subst hsame
  rw [hchild, Option.some.injEq] at hoffering
  subst hoffering
  have hasked : asked = caller :=
    Endpoint.main.inj (hforked.requester_eq.symm.trans hrequester)
  subst hasked
  exact ⟨asked, hcliaddr, hrequester, hforked.fileName_eq, hconnected⟩

omit [DecidableEq Caller] in
theorem Handshake.Sound.unique
    (hsound : state.Sound lobby) {i j : ℕ} {child other : Child Caller}
    (hchild : state.children[i]? = some child)
    (hother : state.children[j]? = some other) {caller : Caller}
    (hsends : child.cliaddr = .transfer caller)
    (hsends' : other.cliaddr = .transfer caller) :
    i = j := by
  -- only a child which has heard of a client sends to a second socket
  have hport : ∀ (k : ℕ) (found : Child Caller),
      state.children[k]? = some found →
      found.cliaddr = .transfer caller →
        ∃ port : ℕ, found.phase.port? = some port ∧
          state.callers caller = .connected port := by
    intro k found hfound hsends
    obtain ⟨owner, howner⟩ :=
      hsound.forked found (List.mem_of_getElem? hfound)
    cases hphase : found.phase.served? with
    | none =>
        rw [howner.unserved hphase] at hsends
        cases hsends
    | some port =>
        obtain ⟨client, hclient, hconnected⟩ := howner.served port hphase
        obtain rfl : client = caller :=
          Endpoint.transfer.inj (hclient.symm.trans hsends)
        exact ⟨port, ChildPhase.port_of_served hphase, hconnected⟩
  obtain ⟨m, hm, hconnected⟩ := hport i child hchild hsends
  obtain ⟨n, hn, hconnected'⟩ := hport j other hother hsends'
  rw [hconnected] at hconnected'
  obtain rfl : m = n := by
    exact_mod_cast CallerPhase.connected.inj hconnected'
  exact hsound.apart i j child other m hchild hother hm hn

/-- Whatever the network loses, repeats and reorders: a child which has heard
of its client sends to the second socket of the client which asked for it,
has the file which that client asked for, and is the only one to do so.  No
port may be given twice. -/
theorem child_serves_requester
    (lobby : Lobby Caller) {state : Handshake Caller}
    (hreach : Transition.Reachable (Handshake.step lobby)
      Handshake.NoReuse Handshake.Initial state)
    {j port : ℕ} {child : Child Caller}
    (hchild : state.children[j]? = some child)
    (hserved : child.phase.served? = some port) :
    ∃ caller, child.cliaddr = .transfer caller ∧
      child.requester = .main caller ∧
      child.fileName = (lobby.fileName caller).bytes ∧
      state.callers caller = .connected port ∧
      ∀ (i : ℕ) (other : Child Caller), state.children[i]? = some other →
        other.cliaddr = .transfer caller → i = j := by
  have hsound := hreach.invariant (Handshake.Sound lobby)
    (fun _ hinit => hinit.sound)
    fun _ _ _ hstate hfresh hstep => hstate.step hfresh hstep
  obtain ⟨caller, hcliaddr, hrequester, hfile, hconnected⟩ :=
    hsound.serves hchild hserved
  refine ⟨caller, hcliaddr, hrequester, hfile, hconnected, ?_⟩
  intro i other hother hsends
  exact hsound.unique hother hchild hsends hcliaddr

end Runs

def twoFiles : Lobby Bool where
  fileName := fun caller =>
    if caller then ⟨[97], by simp, by simp⟩
    else ⟨[98, 99], by simp, by simp⟩
  serverIndex := fun _ => 1

/-- The request of the first client is repeated, so two children are forked
for it, and the port of the second one arrives first. -/
def crossedRequests : List (HandshakeEvent Bool) :=
  [.ask true, .ask false, .duplicate 0, .deliver 0, .deliver 1, .deliver 0,
    .bind 2 4003, .bind 1 4002, .bind 0 4001, .deliver 0, .deliver 3,
    .deliver 4]

theorem child_serves_requester_repeated :
    ∃ state : Handshake Bool,
      Transition.Reachable (Handshake.step twoFiles) Handshake.NoReuse
        Handshake.Initial state ∧
      ∃ child : Child Bool, state.children[1]? = some child ∧
        child.phase = .serving 4002 ∧
        ∃ caller, child.cliaddr = .transfer caller ∧
          child.fileName = (twoFiles.fileName caller).bytes := by
  obtain ⟨state, hreach, htest⟩ :=
    Transition.exists_reachable_of_replay (Handshake.step twoFiles)
      Handshake.NoReuse Handshake.quiet_initial crossedRequests
      (fun state : Handshake Bool =>
        decide ((state.children[1]?).map Child.phase =
          some (.serving 4002)))
      (by decide +kernel)
  obtain ⟨child, hchild, hphase⟩ :=
    Option.map_eq_some_iff.mp (of_decide_eq_true htest)
  have hserved : child.phase.served? = some 4002 := by
    rw [hphase]
    rfl
  obtain ⟨caller, hcliaddr, _, hfile, _⟩ :=
    child_serves_requester twoFiles hreach hchild hserved
  exact ⟨state, hreach, child, hchild, hphase, caller, hcliaddr, hfile⟩

end NetworkProgramming.Transfer
