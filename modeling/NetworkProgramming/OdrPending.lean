import NetworkProgramming.OdrReturn
import NetworkProgramming.SlotPool

/-!
# Client requests which wait for a response

`buffer` holds the requests of local clients, a slot with count 0 being free.
A request takes the first free slot, and a response frees the first slot
which waits for its source.  What is received is pending or answered as long
as there is a free slot for every request.
-/

namespace NetworkProgramming.Odr

open SlotPool

/-! ## The buffer -/

def ServerBuf.waiting (slot : ServerBuf) : Option PeerInfo :=
  if slot.count = 0 then none else some slot.peerInfo

/-- The requests which wait for a response. -/
def pending (buffer : Fin 100 → ServerBuf) : Multiset PeerInfo :=
  contents (ServerBuf.waiting ∘ buffer)

/-- The slot waits for a response of the IP. -/
def Waits (buffer : Fin 100 → ServerBuf) (ip : IpText) (i : Fin 100) :
    Prop :=
  (buffer i).peerInfo.destIp = ip ∧ (buffer i).count ≠ 0

instance (buffer : Fin 100 → ServerBuf) (ip : IpText) (i : Fin 100) :
    Decidable (Waits buffer ip i) :=
  inferInstanceAs (Decidable (_ ∧ _))

theorem ServerBuf.waiting_eq_none_iff (slot : ServerBuf) :
    slot.waiting = none ↔ slot.count = 0 := by
  simp [ServerBuf.waiting]

theorem pending_store
    {buffer : Fin 100 → ServerBuf} {i : Fin 100}
    (hfree : (buffer i).count = 0) (peer : PeerInfo) :
    pending (Function.update buffer i ⟨peer, 1⟩) =
      peer ::ₘ pending buffer := by
  have hnone : (ServerBuf.waiting ∘ buffer) i = none :=
    (ServerBuf.waiting_eq_none_iff _).mpr hfree
  have hstored : (ServerBuf.mk peer 1).waiting = some peer := rfl
  rw [pending, Function.comp_update, hstored]
  exact contents_fill hnone peer

theorem pending_answer
    {buffer : Fin 100 → ServerBuf} {i : Fin 100}
    (hheld : (buffer i).count ≠ 0) :
    (buffer i).peerInfo ::ₘ
        pending (Function.update buffer i ⟨(buffer i).peerInfo, 0⟩) =
      pending buffer := by
  have hsome : (ServerBuf.waiting ∘ buffer) i =
      some (buffer i).peerInfo := by
    simp [ServerBuf.waiting, hheld]
  have hanswered : (ServerBuf.mk (buffer i).peerInfo 0).waiting = none :=
    rfl
  rw [pending, Function.comp_update, hanswered]
  exact contents_free hsome

theorem exists_slot_iff (buffer : Fin 100 → ServerBuf) :
    (∃ i, (buffer i).count = 0) ↔ (pending buffer).card < 100 := by
  have hfree := exists_free_iff (ServerBuf.waiting ∘ buffer)
  rw [Fintype.card_fin] at hfree
  rw [pending, ← hfree]
  simp only [Function.comp_apply, ServerBuf.waiting_eq_none_iff]

theorem pending_empty : pending (fun _ => emptyBuf) = 0 := by
  have hnone : emptyBuf.waiting = none := rfl
  simp [pending, contents, hnone]

/-! ## Storing a request -/

/-- The first free slot, as `push_data_to_buf` finds it. -/
@[irreducible]
def freeSlot (buffer : Fin 100 → ServerBuf) : Option (Fin 100) :=
  Fin.find? fun i => decide ((buffer i).count = 0)

theorem freeSlot_eq_none
    {buffer : Fin 100 → ServerBuf}
    (hfull : ¬ ∃ i, (buffer i).count = 0) :
    freeSlot buffer = none := by
  unfold freeSlot
  refine Fin.find?_eq_none_iff.mpr ?_
  intro i
  rw [decide_eq_false_iff_not]
  exact fun hcount => hfull ⟨i, hcount⟩

/-- The request went to the first free slot, and nothing else changed in the
buffer. -/
structure Stores (node next : Node) (peer : PeerInfo) (i : Fin 100) :
    Prop where
  slot : freeSlot node.buffer = some i
  free : (node.buffer i).count = 0
  buffer : next.buffer = Function.update node.buffer i ⟨peer, 1⟩
  overrun : next.overrun = node.overrun

theorem pushDataToBuf_stores
    {node stored : Node} {peer : PeerInfo}
    (hpush : node.pushDataToBuf peer = some stored) :
    ∃ i, Stores node stored peer i := by
  simp only [Node.pushDataToBuf, Option.map_eq_some_iff] at hpush
  rcases hpush with ⟨i, hfind, rfl⟩
  have hfree := Fin.eq_true_of_find?_eq_some hfind
  rw [decide_eq_true_eq] at hfree
  have hslot : freeSlot node.buffer = some i := by
    unfold freeSlot
    exact hfind
  exact ⟨i, hslot, hfree, rfl, rfl⟩

theorem pushDataToBuf_eq_none_iff (node : Node) (peer : PeerInfo) :
    node.pushDataToBuf peer = none ↔
      ¬ ∃ i, (node.buffer i).count = 0 := by
  simp [Node.pushDataToBuf]

theorem clientRequest_stores
    {node : Node} (hfree : ∃ i, (node.buffer i).count = 0)
    (peer : PeerInfo) :
    ∃ i, Stores node (node.clientRequest peer).node peer i := by
  unfold Node.clientRequest
  dsimp only
  split
  next hpush =>
    rw [pushDataToBuf_eq_none_iff] at hpush
    exact absurd hfree hpush
  next stored hpush =>
    rcases pushDataToBuf_stores hpush with ⟨i, hstores⟩
    refine ⟨i, hstores.slot, hstores.free, ?_, ?_⟩
    · dsimp only
      split <;> exact hstores.buffer
    · dsimp only
      split <;> exact hstores.overrun

/-- With all slots taken the request is written past the end. -/
theorem clientRequest_full
    {node : Node} (hfull : ¬ ∃ i, (node.buffer i).count = 0)
    (peer : PeerInfo) :
    (node.clientRequest peer).node.overrun = true ∧
      (node.clientRequest peer).frames = [] ∧
      (node.clientRequest peer).node.buffer = node.buffer := by
  unfold Node.clientRequest
  dsimp only
  split
  next => exact ⟨rfl, rfl, rfl⟩
  next stored hpush =>
    have hnone := (pushDataToBuf_eq_none_iff
      { node with broadcastId := node.broadcastId + 1 } peer).mpr hfull
    rw [hnone] at hpush
    cases hpush

/-! ## Answering a request -/

/-- The request of the slot got the message and its slot is free; nothing
else changed. -/
structure Answers (node : Node) (header : FrameHead) (outcome : Outcome)
    (i : Fin 100) : Prop where
  waits : Waits node.buffer header.srcIp i
  toClient : outcome.toClient =
    some ((node.buffer i).peerInfo, header.msg)
  freed : outcome.node = { node with
    buffer := Function.update node.buffer i
      ⟨(node.buffer i).peerInfo, 0⟩ }

theorem answerClient_cases (node : Node) (header : FrameHead) :
    (∃ i, Answers node header (node.answerClient header) i) ∨
      (¬ ∃ i, Waits node.buffer header.srcIp i) ∧
        node.answerClient header = ⟨node, [], none⟩ := by
  unfold Node.answerClient
  dsimp only
  split
  next hfind =>
    right
    refine ⟨?_, rfl⟩
    rintro ⟨i, hip, hcount⟩
    have hfalse := Fin.eq_false_of_find?_eq_none hfind i
    simp [hip, hcount] at hfalse
  next i hfind =>
    left
    have hwaits := Fin.eq_true_of_find?_eq_some hfind
    simp only [Bool.and_eq_true, decide_eq_true_eq] at hwaits
    exact ⟨i, hwaits, rfl, rfl⟩

theorem processFrame_response
    {node : Node} {frame : Frame}
    (htype : frame.header.type = .payloadResp)
    (howns : node.owns frame.header.destIp = true) (outside : Outside) :
    node.processFrame frame outside = node.answerClient frame.header := by
  have hpayload : frame.header.isPayload = true :=
    isPayload_of_resp htype
  simp only [Node.processFrame, nextTable_payload hpayload, htype]
  rw [Node.onPayload, if_pos howns, if_neg (by rw [htype]; decide)]

/-- The frame is a payload request for the node itself. -/
def Node.serves (node : Node) (frame : Frame) : Bool :=
  decide (frame.header.type = .payloadReq) &&
    node.owns frame.header.destIp

/-- Only a response at its destination touches the buffer. -/
theorem processFrame_buffer
    {node : Node} {frame : Frame}
    (hother : ¬ (frame.header.type = .payloadResp ∧
      node.owns frame.header.destIp = true)) (outside : Outside) :
    (node.processFrame frame outside).node.buffer = node.buffer ∧
      (node.processFrame frame outside).toClient = none := by
  cases hnext : node.nextTable frame outside.now with
  | none => simp [Node.processFrame, hnext]
  | some table =>
      simp only [Node.processFrame, hnext]
      cases htype : frame.header.type with
      | rreq => exact ⟨rfl, rfl⟩
      | rrep => exact ⟨rfl, rfl⟩
      | payloadReq =>
          simp only [Node.onPayload, htype, if_true]
          split
          · exact ⟨rfl, rfl⟩
          · split <;> exact ⟨rfl, rfl⟩
      | payloadResp =>
          have hforeign : ¬ { node with table := table }.owns
              frame.header.destIp = true := fun howns =>
            hother ⟨htype, howns⟩
          rw [Node.onPayload, if_neg hforeign]
          by_cases hrow :
              (getRowEntry table frame.header.destIp).isSome = true
          · rw [if_pos hrow]
            exact ⟨rfl, rfl⟩
          · rw [if_neg hrow]
            exact ⟨rfl, rfl⟩

/-- The requests which an outcome answers. -/
def Outcome.answers (outcome : Outcome) : List PeerInfo :=
  outcome.toClient.toList.map Prod.fst

theorem processFrame_pending
    (node : Node) (frame : Frame) (outside : Outside) :
    pending (node.processFrame frame outside).node.buffer +
        ((node.processFrame frame outside).answers : Multiset PeerInfo) =
      pending node.buffer := by
  by_cases hresponse : frame.header.type = .payloadResp ∧
      node.owns frame.header.destIp = true
  · rw [processFrame_response hresponse.1 hresponse.2]
    rcases answerClient_cases node frame.header with
      ⟨i, hanswers⟩ | ⟨_, hsame⟩
    · have hpending := pending_answer hanswers.waits.2
      rw [Outcome.answers, hanswers.toClient, hanswers.freed, ← hpending,
        add_comm]
      rfl
    · rw [hsame]
      exact add_zero _
  · rcases processFrame_buffer hresponse outside with ⟨hbuffer, hnone⟩
    rw [hbuffer, Outcome.answers, hnone]
    exact add_zero _

/-! ## The account of one node -/

/-- A node with the requests it received and those it answered. -/
structure Ledger where
  node : Node
  received : List PeerInfo
  answered : List PeerInfo

inductive LedgerEvent where
  | client (peer : PeerInfo)
  | frame (frame : Frame) (outside : Outside)
  | timeout

def Ledger.step (ledger : Ledger) (event : LedgerEvent) :
    Option Ledger :=
  if ledger.node.overrun = false then
    match event with
    | .client peer =>
        some ⟨(ledger.node.clientRequest peer).node,
          peer :: ledger.received, ledger.answered⟩
    | .frame frame outside =>
        let outcome := ledger.node.processFrame frame outside
        some ⟨outcome.node, ledger.received,
          outcome.answers ++ ledger.answered⟩
    | .timeout =>
        some { ledger with node := ledger.node.initRoutingTable }
  else none

def Ledger.Initial (ledger : Ledger) : Prop :=
  ∃ serv, ledger = ⟨Node.start serv, [], []⟩

/-- A client request finds a free slot. -/
def HasSlot (ledger : Ledger) : LedgerEvent → Prop
  | .client _ => ∃ i, (ledger.node.buffer i).count = 0
  | .frame _ _ => True
  | .timeout => True

/-- What was received is pending or answered. -/
def Ledger.Balanced (ledger : Ledger) : Prop :=
  pending ledger.node.buffer + (ledger.answered : Multiset PeerInfo) =
    ledger.received

theorem Ledger.Balanced.initial
    {ledger : Ledger} (hinit : ledger.Initial) :
    ledger.Balanced := by
  rcases hinit with ⟨serv, rfl⟩
  have hempty : pending (Node.start serv).buffer = 0 := pending_empty
  simp [Ledger.Balanced, hempty]

theorem Ledger.Balanced.step
    {ledger next : Ledger} {event : LedgerEvent}
    (hbalanced : ledger.Balanced) (hslot : HasSlot ledger event)
    (hstep : ledger.step event = some next) :
    next.Balanced := by
  simp only [Ledger.step, Option.ite_none_right_eq_some] at hstep
  rcases hstep with ⟨_, hstep⟩
  cases event with
  | client peer =>
      simp only [Option.some.injEq] at hstep
      subst hstep
      rcases clientRequest_stores hslot peer with ⟨i, hstores⟩
      simp only [Ledger.Balanced] at hbalanced ⊢
      rw [hstores.buffer, pending_store hstores.free, Multiset.cons_add,
        hbalanced, Multiset.cons_coe]
  | frame frame outside =>
      simp only [Option.some.injEq] at hstep
      subst hstep
      have hpending := processFrame_pending ledger.node frame outside
      simp only [Ledger.Balanced] at hbalanced ⊢
      rw [← Multiset.coe_add, ← add_assoc, hpending, hbalanced]
  | timeout =>
      simp only [Option.some.injEq] at hstep
      subst hstep
      exact hbalanced

theorem Ledger.balanced_of_reachable
    {ledger : Ledger}
    (hreach : Transition.Reachable Ledger.step HasSlot Ledger.Initial
      ledger) :
    ledger.Balanced :=
  hreach.invariant Ledger.Balanced
    (fun _ hinit => .initial hinit)
    fun _ _ _ hbalanced hslot hstep => hbalanced.step hslot hstep

/-- As long as every request finds a free slot: the pending requests are
those received and not answered, a response frees exactly one slot which
waits for its source or changes nothing, and a request is stored in a free
slot and nowhere else. -/
theorem pendingRequests_accounted
    {ledger : Ledger}
    (hreach : Transition.Reachable Ledger.step HasSlot Ledger.Initial
      ledger) :
    pending ledger.node.buffer + (ledger.answered : Multiset PeerInfo) =
        ledger.received ∧
    (∀ (frame : Frame) (outside : Outside),
      frame.header.type = .payloadResp →
      ledger.node.owns frame.header.destIp = true →
      (∃ i, Answers ledger.node frame.header
        (ledger.node.processFrame frame outside) i) ∨
      (¬ ∃ i, Waits ledger.node.buffer frame.header.srcIp i) ∧
        ledger.node.processFrame frame outside =
          ⟨ledger.node, [], none⟩) ∧
    ∀ peer, HasSlot ledger (.client peer) →
      ∃ i, Stores ledger.node (ledger.node.clientRequest peer).node
        peer i := by
  refine ⟨Ledger.balanced_of_reachable hreach, ?_, ?_⟩
  · intro frame outside htype howns
    rw [processFrame_response htype howns]
    exact answerClient_cases ledger.node frame.header
  · intro peer hslot
    exact clientRequest_stores hslot peer

instance (ledger : Ledger) (event : LedgerEvent) :
    Decidable (HasSlot ledger event) :=
  match event with
  | .client _ =>
      inferInstanceAs (Decidable (∃ i, (ledger.node.buffer i).count = 0))
  | .frame _ _ => inferInstanceAs (Decidable True)
  | .timeout => inferInstanceAs (Decidable True)

def freshLedger : Ledger :=
  ⟨Node.start (lineSite.serv 0), [], []⟩

theorem freshLedger_initial : freshLedger.Initial :=
  ⟨lineSite.serv 0, rfl⟩

/-- The response of the last node as it comes to the first one. -/
def lineResponse : Frame :=
  ⟨lineMac 0, lineMac 1, 2,
    ⟨lineIp 2, lineIp 0, 1, 2, noMsg, 0, .payloadResp⟩⟩

/-- Two requests for two nodes, one of which is answered. -/
theorem pendingRequests_accounted_answered :
    ∃ ledger, Transition.Reachable Ledger.step HasSlot Ledger.Initial
        ledger ∧
      ledger.received = [ask 1, ask 2] ∧ ledger.answered = [ask 2] ∧
      pending ledger.node.buffer + {ask 2} = {ask 1, ask 2} := by
  obtain ⟨ledger, hreach, htest⟩ :=
    Transition.exists_reachable_of_replay Ledger.step HasSlot
      freshLedger_initial
      [.client (ask 2), .client (ask 1), .frame lineResponse quiet]
      (fun ledger => decide (ledger.received = [ask 1, ask 2]) &&
        decide (ledger.answered = [ask 2]))
      (by decide +kernel)
  simp only [Bool.and_eq_true, decide_eq_true_eq] at htest
  have haccount := (pendingRequests_accounted hreach).1
  rw [htest.1, htest.2] at haccount
  exact ⟨ledger, hreach, htest.1, htest.2, haccount⟩

/-- Requests without a response fill the slots one by one. -/
theorem Ledger.exists_pending (k : ℕ) (hk : k ≤ 100) :
    ∃ ledger, Transition.Reachable Ledger.step HasSlot Ledger.Initial
        ledger ∧
      ledger.node.overrun = false ∧
      (pending ledger.node.buffer).card = k := by
  induction k with
  | zero =>
      refine ⟨freshLedger, .start freshLedger_initial, rfl, ?_⟩
      have hempty : pending freshLedger.node.buffer = 0 := pending_empty
      rw [hempty]
      rfl
  | succ k ih =>
      rcases ih (by omega) with ⟨ledger, hreach, hrunning, hcard⟩
      have hslot : HasSlot ledger (.client (ask 2)) :=
        (exists_slot_iff ledger.node.buffer).mpr (by omega)
      have hstep : ledger.step (.client (ask 2)) =
          some ⟨(ledger.node.clientRequest (ask 2)).node,
            ask 2 :: ledger.received, ledger.answered⟩ := by
        simp only [Ledger.step, hrunning, if_true]
      rcases clientRequest_stores hslot (ask 2) with ⟨i, hstores⟩
      refine ⟨_, hreach.tail hslot hstep, ?_, ?_⟩
      · dsimp only
        rw [hstores.overrun]
        exact hrunning
      · dsimp only
        rw [hstores.buffer, pending_store hstores.free,
          Multiset.card_cons, hcard]

/-- After a hundred requests without a response the next one is written past
the end of the buffer. -/
theorem pendingRequests_overrun :
    ∃ ledger, Transition.Reachable Ledger.step Transition.Unrestricted
        Ledger.Initial ledger ∧
      ledger.node.overrun = false ∧
      (pending ledger.node.buffer).card = 100 ∧
      (ledger.node.clientRequest (ask 2)).node.overrun = true := by
  rcases Ledger.exists_pending 100 le_rfl with
    ⟨ledger, hreach, hrunning, hcard⟩
  refine ⟨ledger, hreach.unrestricted, hrunning, hcard, ?_⟩
  have hfull : ¬ ∃ i, (ledger.node.buffer i).count = 0 := by
    rw [exists_slot_iff, hcard]
    exact lt_irrefl 100
  exact (clientRequest_full hfull (ask 2)).1

/-! ## Payload requests of a network

The branch for a reply sends a payload request whatever the route was asked
for. -/

section Requests

variable {Host : Type*} [DecidableEq Host]

/-- The frames which the acting node sends. -/
def Network.emitted (network : Network Host) :
    NetworkEvent Host → List Frame
  | .receive host packet outside =>
      ((network.node host).processFrame packet.frame outside).frames
  | .client host peer => ((network.node host).clientRequest peer).frames
  | .timeout _ => []

def NetworkEvent.host : NetworkEvent Host → Host
  | .receive host _ _ => host
  | .client host _ => host
  | .timeout host => host

/-- A payload arrives, and is passed on or served. -/
def NetworkEvent.isPayload : NetworkEvent Host → Bool
  | .receive _ packet _ => packet.frame.header.isPayload
  | .client _ _ => false
  | .timeout _ => false

/-- The acting node makes a payload request of its own. -/
def Network.Originates (network : Network Host)
    (event : NetworkEvent Host) (frame : Frame) : Prop :=
  frame ∈ network.emitted event ∧ frame.header.type = .payloadReq ∧
    event.isPayload = false

/-- A reply which gives the acting node a route to another node comes while
a request for that node is pending. -/
def ReplyWanted (site : Site Host) (network : Network Host) :
    NetworkEvent Host → Prop
  | .receive host packet _ => packet.frame.header.type = .rrep →
      site.OwnsIp host packet.frame.header.destIp →
      ¬ site.OwnsIp host packet.frame.header.srcIp →
      ∃ i, Waits (network.node host).buffer packet.frame.header.srcIp i
  | .client _ _ => True
  | .timeout _ => True

theorem clientRequest_waits
    {node : Node} {peer : PeerInfo} {frame : Frame}
    (hframe : frame ∈ (node.clientRequest peer).frames) :
    ∃ i, Waits (node.clientRequest peer).node.buffer peer.destIp i := by
  by_cases hfree : ∃ i, (node.buffer i).count = 0
  · rcases clientRequest_stores hfree peer with ⟨i, hstores⟩
    refine ⟨i, ?_⟩
    rw [Waits, hstores.buffer, Function.update_self]
    exact ⟨rfl, one_ne_zero⟩
  · rw [(clientRequest_full hfree peer).2.1] at hframe
    cases hframe

/-- A payload request of a node's own goes to the IP a client asked for, or
to the source of a reply. -/
theorem Emits.originated
    {node : Node} {cause : Cause} {frame : Frame}
    (hemits : Emits node cause frame)
    (htype : frame.header.type = .payloadReq) :
    cause = .client frame.header.destIp ∨
      ∃ header update stray, cause = .frame header update stray ∧
        (header.isPayload = true ∨
          header.type = .rrep ∧ node.owns header.destIp = true ∧
            header.srcIp = frame.header.destIp ∧
            (getRowEntry node.table header.srcIp).isSome = true) := by
  rcases hemits.wants (isPayload_of_req htype) with
    ⟨_, _, _, i, hwants, hsome, _, _, hdest, hwanted⟩
  rw [hdest]
  rw [htype] at hwanted
  cases hwants with
  | request => exact .inl rfl
  | routed hrrep howns =>
      exact .inr ⟨_, _, _, rfl, .inr ⟨hrrep, howns, rfl,
        Option.isSome_iff_exists.mpr ⟨_, hsome⟩⟩⟩
  | served => cases hwanted
  | forwarded hpayload => exact .inr ⟨_, _, _, rfl, .inl hpayload⟩

/-- A reply at its destination makes the node send a payload request to its
source. -/
theorem processFrame_routed
    {node : Node} {frame : Frame} {outside : Outside}
    {table : RoutingTable} (htype : frame.header.type = .rrep)
    (hnext : node.nextTable frame outside.now = some table)
    (howns : node.owns frame.header.destIp = true)
    {i : Fin 100}
    (hentry : getRowEntry table frame.header.srcIp = some i)
    {sv : ServerDetails} (hsv : sv ∈ node.serv) :
    frameOn sv (table i).nextHopMac
        ⟨frame.header.destIp, frame.header.srcIp, (table i).hopCount,
          node.broadcastId, blankMsg, 0, .payloadReq⟩ ∈
      (node.processFrame frame outside).frames := by
  have hindex : { node with table := table }.owns
      frame.header.destIp = true := howns
  simp only [Node.processFrame, hnext, htype]
  rw [Node.onRrep, if_pos hindex]
  simp only [Node.sendPayload, hentry, List.mem_map]
  exact ⟨sv, hsv, rfl⟩

section Replies

omit [DecidableEq Host]

variable {site : Site Host} {network : Network Host}
  {host : Host} {packet : Packet Host}

/-- A reply at its destination, from another node, is followed by a payload
request to its source. -/
theorem Network.Proper.reply_originates
    (hproper : network.Proper site) (hmem : packet ∈ network.sent)
    (htype : packet.frame.header.type = .rrep)
    (hdest : site.OwnsIp host packet.frame.header.destIp)
    (hforeign : ¬ site.OwnsIp host packet.frame.header.srcIp)
    (outside : Outside) :
    ∃ frame, network.Originates (.receive host packet outside) frame ∧
      frame.header.destIp = packet.frame.header.srcIp := by
  have hnode := hproper.nodes host
  have hroute : packet.frame.header.isPayload = false :=
    not_isPayload_of_rrep htype
  rcases (hproper.frames packet hmem).source with ⟨g, hsource⟩
  rcases nextTable_isSome hnode.exists_free packet.frame outside.now with
    ⟨table, htable⟩
  have hstep := hproper.tableStep hmem htable
  rcases hstep.source_row hnode.packed hsource.ne_emptyIp hroute
    ((hnode.owns_eq_false_iff _).mpr hforeign) with ⟨row, hrow⟩
  rcases getRowEntry_of_lookup (hstep.packed hnode.packed)
    hsource.ne_emptyIp hrow with ⟨i, hentry, _⟩
  rcases List.mem_map.mp hdest with ⟨sv, hsv, _⟩
  rw [← hnode.serv] at hsv
  have hsent := processFrame_routed htype htable
    ((hnode.owns_iff _).mpr hdest) hentry hsv
  exact ⟨_, ⟨hsent, rfl, hroute⟩, rfl⟩

/-- A payload request made on the arrival of a frame follows a reply at its
destination, from another node. -/
theorem Network.Proper.originates_reply
    (hproper : network.Proper site) (hmem : packet ∈ network.sent)
    {outside : Outside} {frame : Frame}
    (horiginates : network.Originates (.receive host packet outside)
      frame) :
    packet.frame.header.type = .rrep ∧
      site.OwnsIp host packet.frame.header.destIp ∧
      ¬ site.OwnsIp host packet.frame.header.srcIp ∧
      packet.frame.header.srcIp = frame.header.destIp := by
  rcases horiginates with ⟨hsent, htype, hroute⟩
  have hframe := hproper.frames packet hmem
  have hnode := hproper.nodes host
  rcases hframe.source with ⟨g, hsource⟩
  rcases nextTable_isSome hnode.exists_free packet.frame outside.now with
    ⟨table, htable⟩
  have hwith := processFrame_withTable htable
  have hnext := hnode.tableStep hframe (hproper.tableStep hmem htable)
    hwith.serv hwith.table
  rcases (processFrame_emits htable hsent).originated htype with
    hclient | ⟨header, update, stray, hcause, horigin⟩
  · cases hclient
  · cases hcause
    rcases horigin with hpayload | ⟨hrrep, howns, hsrc, hentry⟩
    · rw [NetworkEvent.isPayload, hpayload] at hroute
      cases hroute
    · have hrow := hnext.row_isSome hsource.ne_emptyIp hentry
      rcases Option.isSome_iff_exists.mp hrow with ⟨row, hrow⟩
      exact ⟨hrrep, (hnext.owns_iff _).mp howns,
        (hnext.rows _ row hrow).2.1, hsrc⟩

end Replies

/-- In a step every payload request of the node's own goes to an IP for which
a client request is pending, exactly when the step is not the arrival of a
reply nobody waits for. -/
theorem payloadRequests_wanted_iff
    {site : Site Host} {network next : Network Host}
    (hreach : Transition.Reachable Network.step Transition.Unrestricted
      (Network.Initial site) network)
    {event : NetworkEvent Host} (hstep : network.step event = some next) :
    (∀ frame, network.Originates event frame →
      ∃ i, Waits (next.node event.host).buffer frame.header.destIp i) ↔
      ReplyWanted site network event := by
  have hproper := Network.proper_of_reachable hreach
  cases event with
  | receive host packet outside =>
      simp only [Network.step, Option.ite_none_right_eq_some,
        Option.some.injEq] at hstep
      rcases hstep with ⟨⟨_, hmem, _⟩, rfl⟩
      rw [NetworkEvent.host, Network.act_node_self]
      constructor
      · intro hall htype hdest hforeign
        rcases hproper.reply_originates hmem htype hdest hforeign outside
          with ⟨frame, horiginates, hsrc⟩
        have hwaits := hall frame horiginates
        rw [hsrc, (processFrame_buffer (by simp [htype]) outside).1]
          at hwaits
        exact hwaits
      · intro hwanted frame horiginates
        rcases hproper.originates_reply hmem horiginates with
          ⟨htype, hdest, hforeign, hsrc⟩
        rw [(processFrame_buffer (by simp [htype]) outside).1, ← hsrc]
        exact hwanted htype hdest hforeign
  | client host peer =>
      simp only [Network.step, Option.ite_none_right_eq_some,
        Option.some.injEq] at hstep
      rcases hstep with ⟨_, rfl⟩
      refine iff_of_true ?_ trivial
      intro frame horiginates
      rcases horiginates with ⟨hsent, htype, _⟩
      have hdest : peer.destIp = frame.header.destIp := by
        rcases (clientRequest_emits hsent).originated htype with
          hclient | ⟨header, update, stray, hcause, _⟩
        · exact Cause.client.inj hclient
        · cases hcause
      rw [NetworkEvent.host, Network.act_node_self, ← hdest]
      exact clientRequest_waits hsent
  | timeout host =>
      refine iff_of_true ?_ trivial
      intro frame horiginates
      cases horiginates.1

/-- The reply of the last node as the middle node passes it on. -/
def lineReply : Packet (Fin 3) :=
  lineFrame 1 (lineMac 0)
    ⟨lineIp 2, lineIp 0, 2, 2, noMsg, 0, .rrep⟩

/-- The reply arrives while the request of the first node is pending. -/
theorem payloadRequests_wanted_line :
    ∃ network next, Transition.Reachable Network.step
        Transition.Unrestricted (Network.Initial lineSite) network ∧
      network.step (.receive 0 lineReply quiet) = some next ∧
      (∃ frame, network.Originates (.receive 0 lineReply quiet) frame) ∧
      ∀ frame, network.Originates (.receive 0 lineReply quiet) frame →
        ∃ i, Waits (next.node 0).buffer frame.header.destIp i := by
  obtain ⟨network, hreach, htest⟩ :=
    Transition.exists_reachable_of_replay Network.step
      Transition.Unrestricted lineStart_initial (lineDiscovery.take 4)
      (fun state =>
        (state.step (.receive 0 lineReply quiet)).isSome &&
        decide (linePayload.frame ∈
          state.emitted (.receive 0 lineReply quiet)) &&
        decide (∃ i, Waits (state.node 0).buffer (lineIp 2) i))
      (by decide +kernel)
  simp only [Bool.and_eq_true, decide_eq_true_eq,
    Option.isSome_iff_exists] at htest
  rcases htest with ⟨⟨⟨next, hstep⟩, hsent⟩, hwaits⟩
  exact ⟨network, next, hreach, hstep,
    ⟨linePayload.frame, hsent, rfl, rfl⟩,
    (payloadRequests_wanted_iff hreach hstep).mpr fun _ _ _ => hwaits⟩

/-- The answer to the route request of the last node. -/
def shortcutReply : Packet (Fin 3) :=
  lineFrame 1 (lineMac 2)
    ⟨lineIp 0, lineIp 2, 1, 1, noMsg, 0, .rrep⟩

def shortcutRequest : Frame :=
  ⟨lineMac 1, lineMac 2, 2,
    ⟨lineIp 2, lineIp 0, 1, 1, blankMsg, 0, .payloadReq⟩⟩

/-- The last node asked for a route only to return a response.  The reply
makes it send a payload request to the first node, although no client of the
last node ever asked for anything. -/
theorem payloadRequests_unwanted :
    ∃ network next frame, Transition.Reachable Network.step
        Transition.Unrestricted (Network.Initial lineSite) network ∧
      network.step (.receive 2 shortcutReply quiet) = some next ∧
      network.Originates (.receive 2 shortcutReply quiet) frame ∧
      frame.header.destIp = lineIp 0 ∧
      ¬ ∃ i, Waits (next.node 2).buffer frame.header.destIp i := by
  obtain ⟨network, hreach, htest⟩ :=
    Transition.exists_reachable_of_replay Network.step
      Transition.Unrestricted lineStart_initial
      (lineShortcut ++ [.receive 2 shortcutPayload quiet,
        .receive 1 (lineFrame 2 broadcastMac
          ⟨lineIp 2, lineIp 0, 1, 1, noMsg, 0, .rreq⟩) quiet])
      (fun state =>
        decide (shortcutRequest ∈
          state.emitted (.receive 2 shortcutReply quiet)) &&
        (state.step (.receive 2 shortcutReply quiet)).any fun next =>
          decide (¬ ∃ i, Waits (next.node 2).buffer (lineIp 0) i))
      (by decide +kernel)
  simp only [Bool.and_eq_true, decide_eq_true_eq,
    Option.any_eq_true] at htest
  rcases htest with ⟨hsent, next, hstep, hnone⟩
  exact ⟨network, next, shortcutRequest, hreach, hstep,
    ⟨hsent, rfl, rfl⟩, rfl, hnone⟩

end Requests

end NetworkProgramming.Odr
