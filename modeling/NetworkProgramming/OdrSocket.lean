import NetworkProgramming.OdrPending

/-!
# The datagram socket of the router

Local clients and the local server write to one socket of the router.  The
main loop takes a datagram from it as a client request; in
`get_data_from_server` the router sends a request to the server and takes the
next datagram as its answer, whoever wrote it.  Requests to the server are
numbered here, and a datagram carries who wrote it; the program has neither.
-/

namespace NetworkProgramming.Odr

/-- Who wrote a datagram: a client, or the server to answer a request. -/
inductive Origin where
  | client
  | server (number : ℕ)
  deriving DecidableEq

/-- The fields of a `peer_info` which the router reads, and the writer. -/
structure Dgram where
  peer : PeerInfo
  msg : Msg
  origin : Origin
  deriving DecidableEq

/-- The message `"GetMeTime"`. -/
def getMeTime : Msg :=
  ⟨[71, 101, 116, 77, 101, 84, 105, 109, 101], by simp, by simp⟩

/-- `msg_send` of a client. -/
def clientDgram (peer : PeerInfo) : Dgram :=
  ⟨peer, getMeTime, .client⟩

/-- What `respond` puts in the datagram beside the time: the `"srcip"` it was
sent, its own `DOMAIN_SOCK_PATH` and no force flag. -/
def serverPeer : PeerInfo where
  destIp := ⟨[115, 114, 99, 105, 112], by simp, by simp⟩
  srcPort := ⟨[47, 116, 109, 112, 47, 100, 101, 118, 97, 95, 107, 97, 117],
    by simp, by simp⟩
  flag := 0

/-- `msg_send` of the server. -/
def serverDgram (number : ℕ) (time : Msg) : Dgram :=
  ⟨serverPeer, time, .server number⟩

/-- `process_frame` waits for the server. -/
structure Call where
  frame : Frame
  outside : Outside
  number : ℕ

/-- A router with its datagram socket and the socket of its server.  `sent`
are the datagrams of the clients, `read` and `taken` those which the main
loop and `get_data_from_server` took. -/
structure Station where
  node : Node
  call : Option Call
  queue : List Dgram
  atServer : List ℕ
  asked : ℕ
  sent : List Dgram
  read : List Dgram
  taken : List (ℕ × Dgram)
  answered : List PeerInfo

inductive StationEvent where
  | client (peer : PeerInfo)
  | serve (time : Msg)
  | frame (frame : Frame) (outside : Outside)
  | reply
  | read
  | timeout

/-- The router is in its main loop. -/
def Station.Idle (station : Station) : Prop :=
  station.node.overrun = false ∧ station.call.isNone = true

instance (station : Station) : Decidable station.Idle :=
  inferInstanceAs (Decidable (_ ∧ _))

/-- A frame is processed up to the call of the server, if there is one. -/
def Station.onFrame (station : Station) (frame : Frame)
    (outside : Outside) : Station :=
  if station.node.serves frame then
    { station with
      call := some ⟨frame, outside, station.asked⟩
      atServer := station.atServer ++ [station.asked]
      asked := station.asked + 1 }
  else
    let outcome := station.node.processFrame frame outside
    { station with
      node := outcome.node
      answered := outcome.answers ++ station.answered }

/-- The datagram is taken for the answer of the server. -/
def Station.onReply (station : Station) (call : Call) (dgram : Dgram)
    (rest : List Dgram) : Station :=
  let outcome := station.node.processFrame call.frame
    { call.outside with serverMsg := dgram.msg }
  { station with
    node := outcome.node
    call := none
    queue := rest
    taken := station.taken ++ [(call.number, dgram)]
    answered := outcome.answers ++ station.answered }

/-- The datagram is taken for a client request. -/
def Station.onRead (station : Station) (dgram : Dgram)
    (rest : List Dgram) : Station :=
  { station with
    node := (station.node.clientRequest dgram.peer).node
    queue := rest
    read := station.read ++ [dgram] }

def Station.step (station : Station) : StationEvent → Option Station
  | .client peer => some { station with
      queue := station.queue ++ [clientDgram peer]
      sent := station.sent ++ [clientDgram peer] }
  | .serve time =>
      match station.atServer with
      | [] => none
      | number :: rest => some { station with
          atServer := rest
          queue := station.queue ++ [serverDgram number time] }
  | .frame frame outside =>
      if station.Idle then some (station.onFrame frame outside) else none
  | .reply =>
      match station.call, station.queue with
      | some call, dgram :: rest =>
          some (station.onReply call dgram rest)
      | _, _ => none
  | .read =>
      match station.queue with
      | dgram :: rest =>
          if station.Idle then some (station.onRead dgram rest) else none
      | [] => none
  | .timeout =>
      if station.Idle then
        some { station with node := station.node.initRoutingTable }
      else none

def Station.Initial (station : Station) : Prop :=
  ∃ serv, station = ⟨Node.start serv, none, [], [], 0, [], [], [], []⟩

/-- No client writes while a request waits at the server, the server is asked
only when no datagram waits at the router, and the main loop reads only when
the buffer has a free slot. -/
def InTurn (station : Station) : StationEvent → Prop
  | .client _ => station.atServer = []
  | .serve _ => True
  | .frame frame _ => station.node.serves frame = true →
      station.queue = []
  | .reply => True
  | .read => ∃ i, (station.node.buffer i).count = 0
  | .timeout => True

/-! ## What waits in the sockets -/

/-- In the main loop only client requests wait.  After a request to the
server it waits there alone, or its answer is the next datagram. -/
inductive Turn : Option Call → List ℕ → List Dgram → Prop
  | idle {queue : List Dgram}
      (hclients : ∀ dgram ∈ queue, dgram.origin = .client) :
      Turn none [] queue
  | asked (call : Call) : Turn (some call) [call.number] []
  | answered {call : Call} {answer : Dgram} {queue : List Dgram}
      (horigin : answer.origin = .server call.number)
      (hclients : ∀ dgram ∈ queue, dgram.origin = .client) :
      Turn (some call) [] (answer :: queue)

theorem Turn.of_idle
    {atServer : List ℕ} {queue : List Dgram}
    (hturn : Turn none atServer queue) :
    atServer = [] ∧ ∀ dgram ∈ queue, dgram.origin = .client := by
  cases hturn with
  | idle hclients => exact ⟨rfl, hclients⟩

theorem Turn.of_call
    {call : Call} {atServer : List ℕ} {dgram : Dgram}
    {rest : List Dgram} (hturn : Turn (some call) atServer (dgram :: rest)) :
    atServer = [] ∧ dgram.origin = .server call.number ∧
      ∀ other ∈ rest, other.origin = .client := by
  cases hturn with
  | answered horigin hclients => exact ⟨rfl, horigin, hclients⟩

structure Station.Sorted (station : Station) : Prop where
  turn : Turn station.call station.atServer station.queue
  taken : ∀ number dgram, (number, dgram) ∈ station.taken →
    dgram.origin = .server number
  read : ∀ dgram ∈ station.read, dgram.origin = .client
  sent : station.sent = station.read ++
    station.queue.filter fun dgram => dgram.origin = .client
  balanced : pending station.node.buffer +
      (station.answered : Multiset PeerInfo) =
    station.read.map Dgram.peer

theorem Station.Initial.sorted
    {station : Station} (hinit : station.Initial) :
    station.Sorted := by
  rcases hinit with ⟨serv, rfl⟩
  have hempty : pending (Node.start serv).buffer = 0 := pending_empty
  refine ⟨.idle ?_, ?_, ?_, rfl, ?_⟩
  · intro dgram hdgram
    cases hdgram
  · intro number dgram hdgram
    cases hdgram
  · intro dgram hdgram
    cases hdgram
  · simp [hempty]

theorem mem_append_client
    {queue : List Dgram} {peer : PeerInfo}
    (hclients : ∀ dgram ∈ queue, dgram.origin = .client) :
    ∀ dgram ∈ queue ++ [clientDgram peer], dgram.origin = .client := by
  intro dgram hdgram
  rcases List.mem_append.mp hdgram with hold | hnew
  · exact hclients dgram hold
  · rw [List.mem_singleton.mp hnew]
    rfl

theorem Turn.client
    {call : Option Call} {atServer : List ℕ} {queue : List Dgram}
    (hturn : Turn call atServer queue) (hserver : atServer = [])
    (peer : PeerInfo) :
    Turn call atServer (queue ++ [clientDgram peer]) := by
  cases hturn with
  | idle hclients => exact .idle (mem_append_client hclients)
  | asked => cases hserver
  | answered horigin hclients =>
      exact .answered horigin (mem_append_client hclients)

theorem Turn.serve
    {call : Option Call} {number : ℕ} {rest : List ℕ}
    {queue : List Dgram} (hturn : Turn call (number :: rest) queue)
    (time : Msg) :
    Turn call rest (queue ++ [serverDgram number time]) := by
  cases hturn with
  | asked call =>
      refine .answered rfl ?_
      intro dgram hdgram
      cases hdgram

theorem Station.Sorted.client
    {station : Station} (hsorted : station.Sorted) (peer : PeerInfo)
    (hserver : station.atServer = []) :
    Station.Sorted { station with
      queue := station.queue ++ [clientDgram peer]
      sent := station.sent ++ [clientDgram peer] } where
  turn := hsorted.turn.client hserver peer
  taken := hsorted.taken
  read := hsorted.read
  sent := by
    dsimp only
    rw [hsorted.sent, List.filter_append, List.append_assoc]
    rfl
  balanced := hsorted.balanced

theorem Station.Sorted.serve
    {station : Station} (hsorted : station.Sorted) {number : ℕ}
    {rest : List ℕ} (hserver : station.atServer = number :: rest)
    (time : Msg) :
    Station.Sorted { station with
      atServer := rest
      queue := station.queue ++ [serverDgram number time] } where
  turn := by
    have hturn := hsorted.turn
    rw [hserver] at hturn
    exact hturn.serve time
  taken := hsorted.taken
  read := hsorted.read
  sent := by
    dsimp only
    rw [hsorted.sent, List.filter_append]
    simp [serverDgram]
  balanced := hsorted.balanced

theorem Station.Sorted.of_idle
    {station : Station} (hsorted : station.Sorted)
    (hidle : station.Idle) :
    station.call = none ∧ station.atServer = [] ∧
      ∀ dgram ∈ station.queue, dgram.origin = .client := by
  have hcall := Option.isNone_iff_eq_none.mp hidle.2
  have hturn := hsorted.turn
  rw [hcall] at hturn
  exact ⟨hcall, hturn.of_idle⟩

theorem Station.Sorted.onFrame
    {station : Station} (hsorted : station.Sorted)
    (hidle : station.Idle) {frame : Frame} {outside : Outside}
    (hinTurn : station.node.serves frame = true → station.queue = []) :
    (station.onFrame frame outside).Sorted := by
  rcases hsorted.of_idle hidle with ⟨_, hserver, _⟩
  unfold Station.onFrame
  split
  next hserves =>
    refine ⟨?_, hsorted.taken, hsorted.read, hsorted.sent,
      hsorted.balanced⟩
    dsimp only
    rw [hserver, hinTurn hserves]
    exact .asked ⟨frame, outside, station.asked⟩
  next =>
    refine ⟨hsorted.turn, hsorted.taken, hsorted.read, hsorted.sent, ?_⟩
    dsimp only
    rw [← Multiset.coe_add, ← add_assoc, processFrame_pending]
    exact hsorted.balanced

theorem Station.Sorted.onReply
    {station : Station} (hsorted : station.Sorted) {call : Call}
    {dgram : Dgram} {rest : List Dgram}
    (hcall : station.call = some call)
    (hqueue : station.queue = dgram :: rest) :
    (station.onReply call dgram rest).Sorted := by
  have hturn := hsorted.turn
  have hsent := hsorted.sent
  rw [hcall, hqueue] at hturn
  rw [hqueue] at hsent
  rcases hturn.of_call with ⟨hserver, horigin, hclients⟩
  unfold Station.onReply
  refine ⟨?_, ?_, hsorted.read, ?_, ?_⟩
  · dsimp only
    rw [hserver]
    exact .idle hclients
  · intro number taken htaken
    rcases List.mem_append.mp htaken with hold | hnew
    · exact hsorted.taken number taken hold
    · cases List.mem_singleton.mp hnew
      exact horigin
  · simpa [horigin] using hsent
  · dsimp only
    rw [← Multiset.coe_add, ← add_assoc, processFrame_pending]
    exact hsorted.balanced

theorem Station.Sorted.onRead
    {station : Station} (hsorted : station.Sorted)
    (hidle : station.Idle) {dgram : Dgram} {rest : List Dgram}
    (hqueue : station.queue = dgram :: rest)
    (hslot : ∃ i, (station.node.buffer i).count = 0) :
    (station.onRead dgram rest).Sorted := by
  rcases hsorted.of_idle hidle with ⟨hcall, hserver, hclients⟩
  have hsent := hsorted.sent
  rw [hqueue] at hsent hclients
  have horigin := hclients dgram List.mem_cons_self
  rcases clientRequest_stores hslot dgram.peer with ⟨i, hstores⟩
  unfold Station.onRead
  refine ⟨?_, hsorted.taken, ?_, ?_, ?_⟩
  · dsimp only
    rw [hcall, hserver]
    exact .idle fun other hother =>
      hclients other (List.mem_cons_of_mem _ hother)
  · intro other hother
    rcases List.mem_append.mp hother with hold | hnew
    · exact hsorted.read other hold
    · rw [List.mem_singleton.mp hnew]
      exact horigin
  · simpa [horigin] using hsent
  · dsimp only
    rw [hstores.buffer, pending_store hstores.free, Multiset.cons_add,
      hsorted.balanced, List.map_append, Multiset.cons_coe]
    exact Multiset.coe_eq_coe.mpr (List.perm_append_singleton _ _).symm

theorem Station.Sorted.step
    {station next : Station} {event : StationEvent}
    (hsorted : station.Sorted) (hinTurn : InTurn station event)
    (hstep : station.step event = some next) :
    next.Sorted := by
  cases event with
  | client peer =>
      simp only [Station.step, Option.some.injEq] at hstep
      subst hstep
      exact hsorted.client peer hinTurn
  | serve time =>
      simp only [Station.step] at hstep
      split at hstep
      next => cases hstep
      next number rest hserver =>
        simp only [Option.some.injEq] at hstep
        subst hstep
        exact hsorted.serve hserver time
  | frame frame outside =>
      simp only [Station.step, Option.ite_none_right_eq_some,
        Option.some.injEq] at hstep
      rcases hstep with ⟨hidle, rfl⟩
      exact hsorted.onFrame hidle hinTurn
  | reply =>
      simp only [Station.step] at hstep
      split at hstep
      next call dgram rest hcall hqueue =>
        simp only [Option.some.injEq] at hstep
        subst hstep
        exact hsorted.onReply hcall hqueue
      next => cases hstep
  | read =>
      simp only [Station.step] at hstep
      split at hstep
      next dgram rest hqueue =>
        simp only [Option.ite_none_right_eq_some,
          Option.some.injEq] at hstep
        rcases hstep with ⟨hidle, rfl⟩
        exact hsorted.onRead hidle hqueue hinTurn
      next => cases hstep
  | timeout =>
      simp only [Station.step, Option.ite_none_right_eq_some,
        Option.some.injEq] at hstep
      rcases hstep with ⟨_, rfl⟩
      exact ⟨hsorted.turn, hsorted.taken, hsorted.read, hsorted.sent,
        hsorted.balanced⟩

theorem Station.sorted_of_reachable
    {station : Station}
    (hreach : Transition.Reachable Station.step InTurn Station.Initial
      station) :
    station.Sorted :=
  hreach.invariant Station.Sorted
    (fun _ hinit => hinit.sorted)
    fun _ _ _ hsorted hinTurn hstep => hsorted.step hinTurn hstep

/-- What `get_data_from_server` takes is the answer of the server to its
request, the main loop takes client requests only, every client request is
taken by the main loop or still waits for it, and those taken are pending or
answered. -/
theorem datagrams_not_confused
    {station : Station}
    (hreach : Transition.Reachable Station.step InTurn Station.Initial
      station) :
    (∀ number dgram, (number, dgram) ∈ station.taken →
      dgram.origin = .server number) ∧
    (∀ dgram ∈ station.read, dgram.origin = .client) ∧
    station.sent = station.read ++
      station.queue.filter (fun dgram => dgram.origin = .client) ∧
    pending station.node.buffer +
        (station.answered : Multiset PeerInfo) =
      station.read.map Dgram.peer := by
  have hsorted := Station.sorted_of_reachable hreach
  exact ⟨hsorted.taken, hsorted.read, hsorted.sent, hsorted.balanced⟩

/-! ## A request between the router and its server -/

instance (station : Station) (event : StationEvent) :
    Decidable (InTurn station event) :=
  match event with
  | .client _ => inferInstanceAs (Decidable (station.atServer = []))
  | .serve _ => inferInstanceAs (Decidable True)
  | .frame frame _ =>
      inferInstanceAs (Decidable (station.node.serves frame = true →
        station.queue = []))
  | .reply => inferInstanceAs (Decidable True)
  | .read =>
      inferInstanceAs (Decidable (∃ i, (station.node.buffer i).count = 0))
  | .timeout => inferInstanceAs (Decidable True)

def lastStation : Station :=
  ⟨Node.start (lineSite.serv 2), none, [], [], 0, [], [], [], []⟩

theorem lastStation_initial : lastStation.Initial :=
  ⟨lineSite.serv 2, rfl⟩

/-- A client writes when the answer of the server is already there. -/
theorem datagrams_not_confused_inTurn :
    ∃ station, Transition.Reachable Station.step InTurn Station.Initial
        station ∧
      (0, serverDgram 0 noMsg) ∈ station.taken ∧
      station.read = [clientDgram (ask 0)] ∧
      pending station.node.buffer +
        (station.answered : Multiset PeerInfo) = {ask 0} := by
  obtain ⟨station, hreach, htest⟩ :=
    Transition.exists_reachable_of_replay Station.step InTurn
      lastStation_initial
      [.frame linePassedOn.frame quiet, .serve noMsg, .client (ask 0),
        .reply, .read]
      (fun station =>
        decide ((0, serverDgram 0 noMsg) ∈ station.taken) &&
        decide (station.read = [clientDgram (ask 0)]))
      (by decide +kernel)
  simp only [Bool.and_eq_true, decide_eq_true_eq] at htest
  have hbalanced := (datagrams_not_confused hreach).2.2.2
  rw [htest.2] at hbalanced
  exact ⟨station, hreach, htest.1, htest.2, hbalanced⟩

/-- A client writes before the server.  Its request is sent to the first node
as the answer, and the answer becomes a client request. -/
theorem datagrams_confused :
    ∃ station, Transition.Reachable Station.step Transition.Unrestricted
        Station.Initial station ∧
      station.sent = [clientDgram (ask 0)] ∧
      station.taken = [(0, clientDgram (ask 0))] ∧
      station.read = [serverDgram 0 noMsg] := by
  obtain ⟨station, hreach, htest⟩ :=
    Transition.exists_reachable_of_replay Station.step
      Transition.Unrestricted lastStation_initial
      [.client (ask 0), .frame linePassedOn.frame quiet, .serve noMsg,
        .reply, .read]
      (fun station =>
        decide (station.sent = [clientDgram (ask 0)]) &&
        decide (station.taken = [(0, clientDgram (ask 0))]) &&
        decide (station.read = [serverDgram 0 noMsg]))
      (by decide +kernel)
  simp only [Bool.and_eq_true, decide_eq_true_eq] at htest
  exact ⟨station, hreach, htest.1.1, htest.1.2, htest.2⟩

end NetworkProgramming.Odr
