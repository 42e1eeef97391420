import NetworkProgramming.OdrPending

/-!
# Which request a response answers

A response goes to the first client which waits for its source, whichever
request it was made for.  The network of this module keeps time: a payload
carries the time at which its request was first sent, a slot of the buffer
the time at which its request was received.  A response is never older than
the request it is delivered for, and it never was an answer before, when a
client asks for a destination only before any payload request was sent there
and while no other client waits for it.
-/

namespace NetworkProgramming.Odr

variable {Host : Type*} [DecidableEq Host]

/-! ## The payloads of one step -/

/-- What the header of a payload takes from the received header; `owned`
tells whether the node owns the destination of that header. -/
inductive PayloadOf (owned : Bool) (header : FrameHead) (serverMsg : Msg)
    (sent : FrameHead) : Prop
  | routed (htype : header.type = .rrep) (howned : owned = true)
      (hsent : sent.type = .payloadReq)
      (hsrc : sent.srcIp = header.destIp)
      (hdest : sent.destIp = header.srcIp)
  | served (htype : header.type = .payloadReq) (howned : owned = true)
      (hsent : sent.type = .payloadResp)
      (hsrc : sent.srcIp = header.destIp)
      (hdest : sent.destIp = header.srcIp)
      (hmsg : sent.msg = serverMsg)
  | forwarded (hpayload : header.isPayload = true)
      (hsent : sent.type = header.type)
      (hsrc : sent.srcIp = header.srcIp)
      (hdest : sent.destIp = header.destIp)
      (hmsg : sent.msg = header.msg)

theorem onPayload_payloadOf
    {node : Node} {header : FrameHead} {serverMsg : Msg} {sent : Frame}
    (hpayload : header.isPayload = true)
    (hsent : sent ∈ (node.onPayload header serverMsg).frames)
    (hsentPayload : sent.header.isPayload = true) :
    PayloadOf (node.owns header.destIp) header serverMsg sent.header := by
  unfold Node.onPayload at hsent
  split at hsent
  next howns =>
    split at hsent
    next htype =>
      rcases sendPayload_header hsent hsentPayload with
        ⟨hout, hsrc, hdest, hmsg, _⟩
      exact .served htype howns hout hsrc hdest hmsg
    next =>
      rw [answerClient_frames] at hsent
      cases hsent
  next =>
    split at hsent
    next =>
      rcases sendPayload_header hsent hsentPayload with
        ⟨hout, hsrc, hdest, hmsg, _⟩
      exact .forwarded hpayload hout hsrc hdest hmsg
    next => cases hsent

theorem processFrame_payloadOf
    {node : Node} {frame sent : Frame} {outside : Outside}
    (hsent : sent ∈ (node.processFrame frame outside).frames)
    (hpayload : sent.header.isPayload = true) :
    PayloadOf (node.owns frame.header.destIp) frame.header
      outside.serverMsg sent.header := by
  cases hnext : node.nextTable frame outside.now with
  | none =>
      rw [processFrame_overrun hnext] at hsent
      cases hsent
  | some table =>
      have howns : ∀ ip, { node with table := table }.owns ip =
          node.owns ip := fun _ => rfl
      simp only [Node.processFrame, hnext] at hsent
      cases htype : frame.header.type with
      | rreq =>
          simp only [htype] at hsent
          rcases (onRreq_emits htype hsent).wants hpayload with
            ⟨_, _, _, _, hwants, _⟩
          cases hwants with
          | routed hrrep => rw [htype] at hrrep; cases hrrep
          | served hreq => rw [htype] at hreq; cases hreq
          | forwarded hforward =>
              rw [not_isPayload_of_rreq htype] at hforward
              cases hforward
      | rrep =>
          simp only [htype, Node.onRrep, howns] at hsent
          split at hsent
          next howner =>
            rcases sendPayload_header hsent hpayload with
              ⟨hout, hsrc, hdest, _⟩
            exact .routed htype howner hout hsrc hdest
          next =>
            simp only [Node.sendRrep, List.mem_map] at hsent
            rcases hsent with ⟨sv, _, rfl⟩
            cases hpayload
      | payloadReq =>
          simp only [htype] at hsent
          have hold : frame.header.isPayload = true :=
            isPayload_of_req htype
          have hpayloadOf := onPayload_payloadOf hold hsent hpayload
          rw [howns] at hpayloadOf
          exact hpayloadOf
      | payloadResp =>
          simp only [htype] at hsent
          have hold : frame.header.isPayload = true :=
            isPayload_of_resp htype
          have hpayloadOf := onPayload_payloadOf hold hsent hpayload
          rw [howns] at hpayloadOf
          exact hpayloadOf

/-- The slot of the client to which a response goes. -/
@[irreducible]
def Node.waitingSlot (node : Node) (header : FrameHead) :
    Option (Fin 100) :=
  Fin.find? fun i =>
    decide ((node.buffer i).peerInfo.destIp = header.srcIp) &&
      decide ((node.buffer i).count ≠ 0)

theorem processFrame_toClient
    {node : Node} {frame : Frame} {outside : Outside}
    {peer : PeerInfo} {msg : Msg}
    (hclient : (node.processFrame frame outside).toClient =
      some (peer, msg)) :
    frame.header.type = .payloadResp ∧
      node.owns frame.header.destIp = true ∧ msg = frame.header.msg ∧
      ∃ i, node.waitingSlot frame.header = some i ∧
        Waits node.buffer frame.header.srcIp i ∧
        peer = (node.buffer i).peerInfo := by
  by_cases hresponse : frame.header.type = .payloadResp ∧
      node.owns frame.header.destIp = true
  · rw [processFrame_response hresponse.1 hresponse.2] at hclient
    unfold Node.answerClient at hclient
    dsimp only at hclient
    split at hclient
    next => cases hclient
    next i hfind =>
      have hwaits := Fin.eq_true_of_find?_eq_some hfind
      simp only [Bool.and_eq_true, decide_eq_true_eq] at hwaits
      simp only [Option.some.injEq, Prod.mk.injEq] at hclient
      refine ⟨hresponse.1, hresponse.2, hclient.2.symm, i, ?_, hwaits,
        hclient.1.symm⟩
      unfold Node.waitingSlot
      exact hfind
  · rw [(processFrame_buffer hresponse outside).2] at hclient
    cases hclient

/-- A frame makes no slot wait. -/
theorem waits_of_processFrame
    {node : Node} {frame : Frame} {outside : Outside} {ip : IpText}
    {i : Fin 100}
    (hwaits : Waits (node.processFrame frame outside).node.buffer ip i) :
    Waits node.buffer ip i := by
  by_cases hresponse : frame.header.type = .payloadResp ∧
      node.owns frame.header.destIp = true
  · rw [processFrame_response hresponse.1 hresponse.2] at hwaits
    rcases answerClient_cases node frame.header with
      ⟨j, hanswers⟩ | ⟨_, hsame⟩
    · rw [hanswers.freed] at hwaits
      by_cases hij : i = j
      · subst hij
        have hcount := hwaits.2
        simp at hcount
      · simp only [Waits, Function.update_of_ne hij] at hwaits
        exact hwaits
    · rw [hsame] at hwaits
      exact hwaits
  · rw [(processFrame_buffer hresponse outside).1] at hwaits
    exact hwaits

/-! ## The network with times -/

/-- A frame with the time at which the payload request was sent which it is
or answers; other frames carry the time at which they were sent. -/
structure Stamped where
  frame : Frame
  stamp : ℕ
  deriving DecidableEq

/-- The server of the host made the message for a payload request. -/
structure Served (Host : Type*) where
  host : Host
  header : FrameHead
  msg : Msg
  stamp : ℕ

/-- A client got a message, at the time `time`, for a request received at the
time `received`. -/
structure Delivery (Host : Type*) where
  host : Host
  peer : PeerInfo
  msg : Msg
  received : ℕ
  stamp : ℕ
  time : ℕ
  deriving DecidableEq

structure Timed (Host : Type*) where
  node : Host → Node
  clock : ℕ
  since : Host → Fin 100 → ℕ
  sent : List Stamped
  served : List (Served Host)
  delivered : List (Delivery Host)

inductive TimedEvent (Host : Type*) where
  | receive (host : Host) (stamped : Stamped) (outside : Outside)
  | client (host : Host) (peer : PeerInfo)
  | timeout (host : Host)

/-- The stamp of what is sent because of a frame. -/
def Stamped.nextStamp (stamped : Stamped) (clock : ℕ) : ℕ :=
  if stamped.frame.header.isPayload then stamped.stamp else clock

/-- What `send_to_client` hands over. -/
def Timed.delivery (timed : Timed Host) (host : Host) (stamped : Stamped)
    (outcome : Outcome) : List (Delivery Host) :=
  match outcome.toClient,
      (timed.node host).waitingSlot stamped.frame.header with
  | some (peer, msg), some i =>
      [⟨host, peer, msg, timed.since host i, stamped.stamp, timed.clock⟩]
  | _, _ => []

def Timed.onFrame (timed : Timed Host) (host : Host) (stamped : Stamped)
    (outside : Outside) : Timed Host :=
  let outcome := (timed.node host).processFrame stamped.frame outside
  { node := Function.update timed.node host outcome.node
    clock := timed.clock + 1
    since := timed.since
    sent := outcome.frames.map
      (Stamped.mk · (stamped.nextStamp timed.clock)) ++ timed.sent
    served :=
      if (timed.node host).serves stamped.frame then
        ⟨host, stamped.frame.header, outside.serverMsg, stamped.stamp⟩ ::
          timed.served
      else timed.served
    delivered := timed.delivery host stamped outcome ++ timed.delivered }

/-- The time at which the request of each slot was received. -/
def Timed.sinceRequest (timed : Timed Host) (host : Host) :
    Host → Fin 100 → ℕ :=
  match freeSlot (timed.node host).buffer with
  | some i => Function.update timed.since host
      (Function.update (timed.since host) i timed.clock)
  | none => timed.since

def Timed.onClient (timed : Timed Host) (host : Host) (peer : PeerInfo) :
    Timed Host :=
  let outcome := (timed.node host).clientRequest peer
  { timed with
    node := Function.update timed.node host outcome.node
    clock := timed.clock + 1
    since := timed.sinceRequest host
    sent := outcome.frames.map (Stamped.mk · timed.clock) ++ timed.sent }

def Timed.step (timed : Timed Host) :
    TimedEvent Host → Option (Timed Host)
  | .receive host stamped outside =>
      if (timed.node host).overrun = false ∧ stamped ∈ timed.sent ∧
          (timed.node host).Accepts stamped.frame then
        some (timed.onFrame host stamped outside)
      else none
  | .client host peer =>
      if (timed.node host).overrun = false then
        some (timed.onClient host peer)
      else none
  | .timeout host =>
      if (timed.node host).overrun = false then
        some { timed with
          node := Function.update timed.node host
            (timed.node host).initRoutingTable
          clock := timed.clock + 1 }
      else none

def Timed.Initial (site : Site Host) (timed : Timed Host) : Prop :=
  timed = ⟨fun h => Node.start (site.serv h), 0, fun _ _ => 0, [], [], []⟩

/-- A client asks for a destination only when its node has not sent a payload
request there and no other request for it is pending. -/
def AsksBefore (site : Site Host) (timed : Timed Host) :
    TimedEvent Host → Prop
  | .receive _ _ _ => True
  | .client host peer => (∀ stamped ∈ timed.sent,
      stamped.frame.header.type = .payloadReq →
      site.OwnsIp host stamped.frame.header.srcIp →
      stamped.frame.header.destIp ≠ peer.destIp) ∧
      ∀ i, ¬ Waits (timed.node host).buffer peer.destIp i
  | .timeout _ => True

/-- The network has the nodes of the timed one and all its frames. -/
structure Timed.Follows (timed : Timed Host) (network : Network Host) :
    Prop where
  node : network.node = timed.node
  sent : ∀ stamped ∈ timed.sent, ∃ trail,
    ⟨stamped.frame, trail⟩ ∈ network.sent

theorem Timed.Follows.act
    {timed : Timed Host} {network : Network Host}
    (hfollows : timed.Follows network) {host : Host} {outcome : Outcome}
    {trail : List Host} {next : Timed Host} (stamp : ℕ)
    (hnode : next.node =
      Function.update timed.node host outcome.node)
    (hsent : next.sent =
      outcome.frames.map (Stamped.mk · stamp) ++ timed.sent) :
    next.Follows (network.act host outcome trail) := by
  constructor
  case node => rw [hnode, Network.act, hfollows.node]
  case sent =>
    intro stamped hstamped
    rw [hsent, List.mem_append, List.mem_map] at hstamped
    rcases hstamped with ⟨frame, hframe, rfl⟩ | hold
    · exact ⟨trail, List.mem_append_left _
        (List.mem_map_of_mem hframe)⟩
    · rcases hfollows.sent stamped hold with ⟨trail', htrail'⟩
      exact ⟨trail', List.mem_append_right _ htrail'⟩

/-- A run of the network with times is a run of the network. -/
theorem Timed.exists_network
    {site : Site Host} {Allowed : Timed Host → TimedEvent Host → Prop}
    {timed : Timed Host}
    (hreach : Transition.Reachable Timed.step Allowed
      (Timed.Initial site) timed) :
    ∃ network, Transition.Reachable Network.step Transition.Unrestricted
        (Network.Initial site) network ∧
      timed.Follows network := by
  refine hreach.simulation Timed.Follows ?_ ?_
  · intro start hinit
    subst hinit
    refine ⟨_, rfl, rfl, ?_⟩
    intro stamped hstamped
    cases hstamped
  · intro state event next network hfollows _ hstep
    cases event with
    | receive host stamped outside =>
        simp only [Timed.step, Option.ite_none_right_eq_some,
          Option.some.injEq] at hstep
        rcases hstep with ⟨⟨hrunning, hmem, haccepts⟩, rfl⟩
        rcases hfollows.sent stamped hmem with ⟨trail, htrail⟩
        rw [← hfollows.node] at hrunning haccepts
        refine ⟨.receive host ⟨stamped.frame, trail⟩ outside, _, trivial,
          if_pos ⟨hrunning, htrail, haccepts⟩, ?_⟩
        rw [hfollows.node]
        exact hfollows.act _ rfl rfl
    | client host peer =>
        simp only [Timed.step, Option.ite_none_right_eq_some,
          Option.some.injEq] at hstep
        rcases hstep with ⟨hrunning, rfl⟩
        rw [← hfollows.node] at hrunning
        refine ⟨.client host peer, _, trivial, if_pos hrunning, ?_⟩
        rw [hfollows.node]
        exact hfollows.act _ rfl rfl
    | timeout host =>
        simp only [Timed.step, Option.ite_none_right_eq_some,
          Option.some.injEq] at hstep
        rcases hstep with ⟨hrunning, rfl⟩
        rw [← hfollows.node] at hrunning
        refine ⟨.timeout host, _, trivial, if_pos hrunning, ?_⟩
        rw [hfollows.node]
        exact hfollows.act 0 rfl rfl

theorem Timed.proper_of_reachable
    {site : Site Host} {Allowed : Timed Host → TimedEvent Host → Prop}
    {timed : Timed Host}
    (hreach : Transition.Reachable Timed.step Allowed
      (Timed.Initial site) timed)
    (h : Host) :
    (timed.node h).Proper site h := by
  rcases Timed.exists_network hreach with ⟨network, hnetwork, hfollows⟩
  rw [← hfollows.node]
  exact (Network.proper_of_reachable hnetwork).nodes h

/-! ## Where a response comes from -/

/-- The owner of `src` itself sent a payload request to `dest` with the
stamp. -/
def Timed.Asked (site : Site Host) (timed : Timed Host)
    (src dest : IpText) (stamp : ℕ) : Prop :=
  ∃ h, site.OwnsIp h src ∧ ∃ request ∈ timed.sent,
    site.OwnsMac h request.frame.srcMac ∧
    request.frame.header.type = .payloadReq ∧
    request.frame.header.srcIp = src ∧
    request.frame.header.destIp = dest ∧ request.stamp = stamp

/-- The server of the owner of `dest` made the message for a payload request
from `src` with the stamp. -/
def Timed.Replied (site : Site Host) (timed : Timed Host)
    (src dest : IpText) (msg : Msg) (stamp : ℕ) : Prop :=
  ∃ served ∈ timed.served, site.OwnsIp served.host dest ∧
    served.header.srcIp = src ∧ served.header.destIp = dest ∧
    served.msg = msg ∧ served.stamp = stamp

/-- The message was made by the server of the destination for a payload
request which the node sent after it received the client request. -/
def Delivery.MadeFor (site : Site Host) (timed : Timed Host)
    (delivery : Delivery Host) : Prop :=
  delivery.received ≤ delivery.stamp ∧
    ∃ src, site.OwnsIp delivery.host src ∧
      timed.Asked site src delivery.peer.destIp delivery.stamp ∧
      timed.Replied site src delivery.peer.destIp delivery.msg
        delivery.stamp

/-- The message was made for the request.  An earlier request for the same
destination, if it is answered already, was answered before the payload
request of the message was sent, so it did not cause the message. -/
structure Delivery.AnswersRequest (site : Site Host) (timed : Timed Host)
    (delivery : Delivery Host) : Prop where
  made : delivery.MadeFor site timed
  caused : ∀ other ∈ timed.delivered, other.host = delivery.host →
    other.peer.destIp = delivery.peer.destIp →
    other.time < delivery.time → other.time < delivery.stamp

structure Timed.Fresh (site : Site Host) (timed : Timed Host) :
    Prop where
  since : ∀ h i, timed.since h i ≤ timed.clock
  requests : ∀ stamped ∈ timed.sent,
    stamped.frame.header.type = .payloadReq →
    timed.Asked site stamped.frame.header.srcIp
      stamped.frame.header.destIp stamped.stamp
  responses : ∀ stamped ∈ timed.sent,
    stamped.frame.header.type = .payloadResp →
    timed.Asked site stamped.frame.header.destIp
        stamped.frame.header.srcIp stamped.stamp ∧
      timed.Replied site stamped.frame.header.destIp
        stamped.frame.header.srcIp stamped.frame.header.msg
        stamped.stamp
  waiting : ∀ src dest stamp, timed.Asked site src dest stamp →
    ∀ h, site.OwnsIp h src → ∀ i, Waits (timed.node h).buffer dest i →
      timed.since h i ≤ stamp
  delivered : ∀ delivery ∈ timed.delivered,
    delivery.MadeFor site timed

section Steps

omit [DecidableEq Host]

variable {site : Site Host} {timed next : Timed Host}

theorem Timed.Asked.mono
    (hsent : timed.sent ⊆ next.sent) {src dest : IpText} {stamp : ℕ}
    (hasked : timed.Asked site src dest stamp) :
    next.Asked site src dest stamp := by
  rcases hasked with ⟨h, hh, request, hrequest, hrest⟩
  exact ⟨h, hh, request, hsent hrequest, hrest⟩

theorem Timed.Replied.mono
    (hserved : timed.served ⊆ next.served) {src dest : IpText}
    {msg : Msg} {stamp : ℕ}
    (hreplied : timed.Replied site src dest msg stamp) :
    next.Replied site src dest msg stamp := by
  rcases hreplied with ⟨served, hmem, hrest⟩
  exact ⟨served, hserved hmem, hrest⟩

theorem Delivery.MadeFor.mono
    (hsent : timed.sent ⊆ next.sent)
    (hserved : timed.served ⊆ next.served) {delivery : Delivery Host}
    (hanswers : delivery.MadeFor site timed) :
    delivery.MadeFor site next := by
  rcases hanswers with ⟨hle, src, hsrc, hasked, hreplied⟩
  exact ⟨hle, src, hsrc, hasked.mono hsent, hreplied.mono hserved⟩

/-- What the new entries of a step have to satisfy. -/
theorem Timed.Fresh.of_growth
    (hfresh : timed.Fresh site) {frames : List Stamped}
    (hsent : next.sent = frames ++ timed.sent)
    (hserved : timed.served ⊆ next.served)
    (hsince : ∀ h i, next.since h i ≤ next.clock)
    (hrequests : ∀ stamped ∈ frames,
      stamped.frame.header.type = .payloadReq →
      next.Asked site stamped.frame.header.srcIp
        stamped.frame.header.destIp stamped.stamp)
    (hresponses : ∀ stamped ∈ frames,
      stamped.frame.header.type = .payloadResp →
      next.Asked site stamped.frame.header.destIp
          stamped.frame.header.srcIp stamped.stamp ∧
        next.Replied site stamped.frame.header.destIp
          stamped.frame.header.srcIp stamped.frame.header.msg
          stamped.stamp)
    (hwaiting : ∀ src dest stamp, next.Asked site src dest stamp →
      ∀ h, site.OwnsIp h src →
        ∀ i, Waits (next.node h).buffer dest i →
          next.since h i ≤ stamp)
    (hdelivered : ∀ delivery ∈ next.delivered,
      delivery ∈ timed.delivered ∨ delivery.MadeFor site next) :
    next.Fresh site := by
  have hsub : timed.sent ⊆ next.sent := by
    rw [hsent]
    exact List.subset_append_right _ _
  constructor
  case since => exact hsince
  case requests =>
    intro stamped hstamped htype
    rw [hsent, List.mem_append] at hstamped
    rcases hstamped with hnew | hold
    · exact hrequests stamped hnew htype
    · exact (hfresh.requests stamped hold htype).mono hsub
  case responses =>
    intro stamped hstamped htype
    rw [hsent, List.mem_append] at hstamped
    rcases hstamped with hnew | hold
    · exact hresponses stamped hnew htype
    · have hresponse := hfresh.responses stamped hold htype
      exact ⟨hresponse.1.mono hsub, hresponse.2.mono hserved⟩
  case waiting => exact hwaiting
  case delivered =>
    intro delivery hdelivery
    rcases hdelivered delivery hdelivery with hold | hnew
    · exact (hfresh.delivered delivery hold).mono hsub hserved
    · exact hnew

end Steps

section Frames

variable {site : Site Host} {timed : Timed Host} {host : Host}
  {stamped : Stamped} {outside : Outside}

omit [DecidableEq Host] in
/-- A payload request which leaves on the arrival of a frame is new and
stamped with the time, or has the source, the destination and the stamp of
that frame. -/
theorem Timed.request_onFrame
    (hnode : (timed.node host).Proper site host)
    {request : Stamped}
    (hrequest : request ∈ ((timed.node host).processFrame stamped.frame
      outside).frames.map (Stamped.mk · (stamped.nextStamp timed.clock)))
    (htype : request.frame.header.type = .payloadReq) :
    (site.OwnsIp host request.frame.header.srcIp ∧
        request.stamp = timed.clock) ∨
      (stamped.frame.header.type = .payloadReq ∧
        request.frame.header.srcIp = stamped.frame.header.srcIp ∧
        request.frame.header.destIp = stamped.frame.header.destIp ∧
        request.stamp = stamped.stamp) := by
  rcases List.mem_map.mp hrequest with ⟨sent, hsent, rfl⟩
  dsimp only at htype
  cases processFrame_payloadOf hsent (isPayload_of_req htype) with
  | routed hrrep howned _ hsrc hdest =>
      refine .inl ⟨?_, ?_⟩
      · rw [hsrc]
        exact (hnode.owns_iff _).mp howned
      · simp [Stamped.nextStamp, not_isPayload_of_rrep hrrep]
  | served _ _ hout =>
      rw [htype] at hout
      cases hout
  | forwarded hold hout hsrc hdest _ =>
      refine .inr ⟨hout.symm.trans htype, hsrc, hdest, ?_⟩
      simp [Stamped.nextStamp, hold]

omit [DecidableEq Host] in
/-- A response which leaves on the arrival of a frame was made by the server
for that frame, or is that frame. -/
theorem Timed.response_onFrame
    (hnode : (timed.node host).Proper site host)
    {response : Stamped}
    (hresponse : response ∈ ((timed.node host).processFrame
      stamped.frame outside).frames.map
        (Stamped.mk · (stamped.nextStamp timed.clock)))
    (htype : response.frame.header.type = .payloadResp) :
    response.stamp = stamped.stamp ∧
    ((stamped.frame.header.type = .payloadReq ∧
        site.OwnsIp host stamped.frame.header.destIp ∧
        response.frame.header.srcIp = stamped.frame.header.destIp ∧
        response.frame.header.destIp = stamped.frame.header.srcIp ∧
        response.frame.header.msg = outside.serverMsg) ∨
      (stamped.frame.header.type = .payloadResp ∧
        response.frame.header.srcIp = stamped.frame.header.srcIp ∧
        response.frame.header.destIp = stamped.frame.header.destIp ∧
        response.frame.header.msg = stamped.frame.header.msg)) := by
  rcases List.mem_map.mp hresponse with ⟨sent, hsent, rfl⟩
  dsimp only at htype
  cases processFrame_payloadOf hsent (isPayload_of_resp htype) with
  | routed _ _ hout =>
      rw [htype] at hout
      cases hout
  | served hreq howned _ hsrc hdest hmsg =>
      refine ⟨by simp [Stamped.nextStamp, isPayload_of_req hreq],
        .inl ⟨hreq, ?_, hsrc, hdest, hmsg⟩⟩
      exact (hnode.owns_iff _).mp howned
  | forwarded hold hout hsrc hdest hmsg =>
      exact ⟨by simp [Stamped.nextStamp, hold],
        .inr ⟨hout.symm.trans htype, hsrc, hdest, hmsg⟩⟩

/-- A request of the next network was there before, or it is one of the
frames sent on the arrival of `stamped`. -/
theorem Timed.Fresh.asked_onFrame
    (hfresh : timed.Fresh site)
    (hnode : (timed.node host).Proper site host)
    (hmem : stamped ∈ timed.sent) {src dest : IpText} {stamp : ℕ}
    (hasked : (timed.onFrame host stamped outside).Asked site src dest
      stamp) :
    timed.Asked site src dest stamp ∨ stamp = timed.clock := by
  rcases hasked with ⟨h, hh, request, hrequest, hmac, htype, hsrc, hdest,
    hstamp⟩
  rcases List.mem_append.mp hrequest with hnew | hold
  · rcases Timed.request_onFrame hnode hnew htype with
      ⟨_, hclock⟩ | ⟨hreq, hsame, hsameDest, hsameStamp⟩
    · exact .inr (hstamp.symm.trans hclock)
    · have hbefore := hfresh.requests stamped hmem hreq
      rw [← hsame, ← hsameDest, ← hsameStamp, hsrc, hdest, hstamp]
        at hbefore
      exact .inl hbefore
  · exact .inl ⟨h, hh, request, hold, hmac, htype, hsrc, hdest, hstamp⟩

omit [DecidableEq Host] in
/-- What a client gets was made for its request. -/
theorem Timed.Fresh.delivery
    (hfresh : timed.Fresh site)
    (hnode : (timed.node host).Proper site host)
    (hmem : stamped ∈ timed.sent) {delivery : Delivery Host}
    (hdelivery : delivery ∈ timed.delivery host stamped
      ((timed.node host).processFrame stamped.frame outside)) :
    delivery.MadeFor site timed := by
  unfold Timed.delivery at hdelivery
  split at hdelivery
  next peer msg i hclient hslot =>
    rcases processFrame_toClient hclient with
      ⟨htype, howns, rfl, j, hj, hwaits, rfl⟩
    rw [hj, Option.some.injEq] at hslot
    subst hslot
    rw [List.mem_singleton] at hdelivery
    subst hdelivery
    have howner := (hnode.owns_iff _).mp howns
    have hresponse := hfresh.responses stamped hmem htype
    have hle := hfresh.waiting _ _ _ hresponse.1 host howner j hwaits
    refine ⟨hle, stamped.frame.header.destIp, howner, ?_, ?_⟩
    · dsimp only
      rw [hwaits.1]
      exact hresponse.1
    · dsimp only
      rw [hwaits.1]
      exact hresponse.2
  next => cases hdelivery

theorem Timed.served_onFrame (timed : Timed Host) (host : Host)
    (stamped : Stamped) (outside : Outside) :
    timed.served ⊆ (timed.onFrame host stamped outside).served := by
  simp only [Timed.onFrame]
  split
  · exact List.subset_cons_self _ _
  · exact List.Subset.refl _

/-- A frame adds no pending request. -/
theorem Timed.waits_onFrame
    {h : Host} {dest : IpText} {i : Fin 100}
    (hwaits : Waits ((timed.onFrame host stamped outside).node h).buffer
      dest i) :
    Waits (timed.node h).buffer dest i := by
  simp only [Timed.onFrame] at hwaits
  by_cases hhost : h = host
  · subst hhost
    rw [Function.update_self] at hwaits
    exact waits_of_processFrame hwaits
  · rw [Function.update_of_ne hhost] at hwaits
    exact hwaits

theorem Timed.Fresh.requests_onFrame
    (hfresh : timed.Fresh site)
    (hnode : (timed.node host).Proper site host)
    (hnext : ((timed.onFrame host stamped outside).node host).Proper site
      host)
    (hmem : stamped ∈ timed.sent) {request : Stamped}
    (hrequest : request ∈ ((timed.node host).processFrame stamped.frame
      outside).frames.map (Stamped.mk · (stamped.nextStamp timed.clock)))
    (htype : request.frame.header.type = .payloadReq) :
    (timed.onFrame host stamped outside).Asked site
      request.frame.header.srcIp request.frame.header.destIp
      request.stamp := by
  rcases Timed.request_onFrame hnode hrequest htype with
    ⟨howns, _⟩ | ⟨hreq, hsrc, hdest, hstamp⟩
  · refine ⟨host, howns, request, List.mem_append_left _ hrequest, ?_,
      htype, rfl, rfl, rfl⟩
    rcases List.mem_map.mp hrequest with ⟨sent, hsent, rfl⟩
    rcases nextTable_isSome hnode.exists_free stamped.frame outside.now
      with ⟨table, htable⟩
    simp only [Timed.onFrame, Function.update_self] at hnext
    exact (processFrame_emits htable hsent).ownsMac hnext
  · rw [hsrc, hdest, hstamp]
    exact (hfresh.requests stamped hmem hreq).mono
      (List.subset_append_right _ _)

theorem Timed.Fresh.responses_onFrame
    (hfresh : timed.Fresh site)
    (hnode : (timed.node host).Proper site host)
    (hmem : stamped ∈ timed.sent) {response : Stamped}
    (hresponse : response ∈ ((timed.node host).processFrame
      stamped.frame outside).frames.map
        (Stamped.mk · (stamped.nextStamp timed.clock)))
    (htype : response.frame.header.type = .payloadResp) :
    (timed.onFrame host stamped outside).Asked site
        response.frame.header.destIp response.frame.header.srcIp
        response.stamp ∧
      (timed.onFrame host stamped outside).Replied site
        response.frame.header.destIp response.frame.header.srcIp
        response.frame.header.msg response.stamp := by
  have hsub : timed.sent ⊆ (timed.onFrame host stamped outside).sent :=
    List.subset_append_right _ _
  rcases Timed.response_onFrame hnode hresponse htype with
    ⟨hstamp, ⟨hreq, howns, hsrc, hdest, hmsg⟩ |
      ⟨hresp, hsrc, hdest, hmsg⟩⟩
  · rw [hsrc, hdest, hmsg, hstamp]
    refine ⟨(hfresh.requests stamped hmem hreq).mono hsub,
      ⟨host, stamped.frame.header, outside.serverMsg, stamped.stamp⟩,
      ?_, howns, rfl, rfl, rfl, rfl⟩
    have hserves : (timed.node host).serves stamped.frame = true := by
      simp [Node.serves, hreq, (hnode.owns_iff _).mpr howns]
    simp only [Timed.onFrame, hserves, if_true]
    exact List.mem_cons_self
  · rw [hsrc, hdest, hmsg, hstamp]
    have hbefore := hfresh.responses stamped hmem hresp
    exact ⟨hbefore.1.mono hsub, hbefore.2.mono
      (Timed.served_onFrame timed host stamped outside)⟩

theorem Timed.Fresh.onFrame
    (hfresh : timed.Fresh site)
    (hnode : (timed.node host).Proper site host)
    (hnext : ((timed.onFrame host stamped outside).node host).Proper site
      host)
    (hmem : stamped ∈ timed.sent) :
    (timed.onFrame host stamped outside).Fresh site := by
  have hserved := Timed.served_onFrame timed host stamped outside
  refine hfresh.of_growth rfl hserved ?_ ?_ ?_ ?_ ?_
  · intro h i
    have hle := hfresh.since h i
    simp only [Timed.onFrame]
    omega
  · intro request hrequest htype
    exact hfresh.requests_onFrame hnode hnext hmem hrequest htype
  · intro response hresponse htype
    exact hfresh.responses_onFrame hnode hmem hresponse htype
  · intro src dest stamp hasked h hh i hwaits
    rcases hfresh.asked_onFrame hnode hmem hasked with hold | hclock
    · exact hfresh.waiting src dest stamp hold h hh i
        (Timed.waits_onFrame hwaits)
    · rw [hclock]
      exact hfresh.since h i
  · intro delivery hdelivery
    rcases List.mem_append.mp hdelivery with hnew | hold
    · exact .inr ((hfresh.delivery hnode hmem hnew).mono
        (List.subset_append_right _ _) hserved)
    · exact .inl hold

end Frames

section Clients

variable {site : Site Host} {timed : Timed Host} {host : Host}
  {peer : PeerInfo}

theorem Timed.sinceRequest_le
    (hsince : ∀ h i, timed.since h i ≤ timed.clock) (host : Host)
    (h : Host) (i : Fin 100) :
    timed.sinceRequest host h i ≤ timed.clock := by
  cases hslot : freeSlot (timed.node host).buffer with
  | none =>
      simp only [Timed.sinceRequest, hslot]
      exact hsince h i
  | some j =>
      simp only [Timed.sinceRequest, hslot]
      by_cases hh : h = host
      · subst hh
        rw [Function.update_self]
        by_cases hij : i = j
        · rw [hij, Function.update_self]
        · rw [Function.update_of_ne hij]
          exact hsince h i
      · rw [Function.update_of_ne hh]
        exact hsince h i

/-- A slot which waits after a client request waited before with the same
time, or it holds that request. -/
theorem Timed.waits_onClient
    {dest : IpText} {h : Host} {i : Fin 100}
    (hwaits : Waits ((timed.onClient host peer).node h).buffer dest i) :
    (Waits (timed.node h).buffer dest i ∧
        timed.sinceRequest host h i = timed.since h i) ∨
      (h = host ∧ dest = peer.destIp ∧
        freeSlot (timed.node host).buffer = some i) := by
  by_cases hh : h = host
  · subst hh
    have hself : (timed.onClient h peer).node h =
        ((timed.node h).clientRequest peer).node :=
      Function.update_self h _ timed.node
    rw [hself] at hwaits
    by_cases hfree : ∃ i, ((timed.node h).buffer i).count = 0
    · rcases clientRequest_stores hfree peer with ⟨j, hstores⟩
      rw [hstores.buffer] at hwaits
      by_cases hij : i = j
      · subst hij
        have hdest := hwaits.1
        rw [Function.update_self] at hdest
        exact .inr ⟨rfl, hdest.symm, hstores.slot⟩
      · simp only [Waits, Function.update_of_ne hij] at hwaits
        refine .inl ⟨hwaits, ?_⟩
        simp only [Timed.sinceRequest, hstores.slot]
        rw [Function.update_self, Function.update_of_ne hij]
    · rw [(clientRequest_full hfree peer).2.2] at hwaits
      refine .inl ⟨hwaits, ?_⟩
      have hnone := freeSlot_eq_none hfree
      simp only [Timed.sinceRequest, hnone]
  · have hother : (timed.onClient host peer).node h = timed.node h :=
      Function.update_of_ne hh _ _
    rw [hother] at hwaits
    refine .inl ⟨hwaits, ?_⟩
    cases hslot : freeSlot (timed.node host).buffer with
    | none => simp only [Timed.sinceRequest, hslot]
    | some j =>
        simp only [Timed.sinceRequest, hslot]
        rw [Function.update_of_ne hh]

/-- A request of the next network was there before, or it is one of the
frames sent for the client. -/
theorem Timed.asked_onClient
    {src dest : IpText} {stamp : ℕ}
    (hasked : (timed.onClient host peer).Asked site src dest stamp) :
    timed.Asked site src dest stamp ∨ stamp = timed.clock := by
  rcases hasked with ⟨h, hh, request, hrequest, hrest⟩
  rcases List.mem_append.mp hrequest with hnew | hold
  · rcases List.mem_map.mp hnew with ⟨frame, _, rfl⟩
    exact .inr hrest.2.2.2.2.symm
  · exact .inl ⟨h, hh, request, hold, hrest⟩

omit [DecidableEq Host] in
/-- The payloads which leave for a client are requests of the node. -/
theorem payload_of_clientRequest
    {node : Node} {peer : PeerInfo}
    (hnext : (node.clientRequest peer).node.Proper site host)
    {frame : Frame} (hsent : frame ∈ (node.clientRequest peer).frames)
    (hpayload : frame.header.isPayload = true) :
    frame.header.type = .payloadReq ∧
      site.OwnsIp host frame.header.srcIp ∧
      site.OwnsMac host frame.srcMac := by
  have hemits := clientRequest_emits hsent
  have hmac := hemits.ownsMac hnext
  rcases hemits.wants hpayload with
    ⟨_, _, _, _, hwants, _, _, hsrc, _, htype⟩
  rw [hsrc, htype]
  cases hwants with
  | request hsv => exact ⟨rfl, hnext.ownsIp hsv, hmac⟩

theorem Timed.Fresh.onClient
    (hfresh : timed.Fresh site)
    (hnext : ((timed.onClient host peer).node host).Proper site host)
    (hallowed : AsksBefore site timed (.client host peer)) :
    (timed.onClient host peer).Fresh site := by
  have hself : (timed.onClient host peer).node host =
      ((timed.node host).clientRequest peer).node :=
    Function.update_self host _ timed.node
  rw [hself] at hnext
  refine hfresh.of_growth rfl (List.Subset.refl _) ?_ ?_ ?_ ?_ ?_
  · intro h i
    have hle := Timed.sinceRequest_le hfresh.since host h i
    simp only [Timed.onClient]
    omega
  · intro request hrequest htype
    have hmem := List.mem_append_left timed.sent hrequest
    rcases List.mem_map.mp hrequest with ⟨frame, hsent, rfl⟩
    rcases payload_of_clientRequest hnext hsent
      (isPayload_of_req htype) with ⟨_, howns, hmac⟩
    exact ⟨host, howns, _, hmem, hmac, htype, rfl, rfl, rfl⟩
  · intro response hresponse htype
    rcases List.mem_map.mp hresponse with ⟨frame, hsent, rfl⟩
    have hreq := (payload_of_clientRequest hnext hsent
      (isPayload_of_resp htype)).1
    dsimp only at htype
    rw [htype] at hreq
    cases hreq
  · intro src dest stamp hasked h hh i hwaits
    rcases Timed.asked_onClient hasked with hold | hclock
    · rcases Timed.waits_onClient hwaits with
        ⟨hbefore, hsame⟩ | ⟨rfl, rfl, _⟩
      · simp only [Timed.onClient, hsame]
        exact hfresh.waiting src dest stamp hold h hh i hbefore
      · rcases hold with ⟨g, hg, request, hrequest, _, htype, hsrc, hdest,
          _⟩
        exact absurd hdest (hallowed.1 request hrequest htype (hsrc ▸ hh))
    · rw [hclock]
      exact Timed.sinceRequest_le hfresh.since host h i
  · intro delivery hdelivery
    exact .inl hdelivery

end Clients

/-! ## One request for one destination -/

/-- A node has at most one pending request for a destination, and none after
an answer from there. -/
structure Timed.Alone (timed : Timed Host) : Prop where
  single : ∀ h dest i j, Waits (timed.node h).buffer dest i →
    Waits (timed.node h).buffer dest j → i = j
  settled : ∀ delivery ∈ timed.delivered, ∀ i,
    ¬ Waits (timed.node delivery.host).buffer delivery.peer.destIp i
  once : ∀ delivery ∈ timed.delivered, ∀ other ∈ timed.delivered,
    other.host = delivery.host →
    other.peer.destIp = delivery.peer.destIp → other = delivery

section Alone

variable {site : Site Host} {timed : Timed Host} {host : Host}
  {stamped : Stamped} {outside : Outside} {peer : PeerInfo}

omit [DecidableEq Host] in
/-- The message goes to a slot which waits for it, and frees it. -/
theorem Timed.delivery_frees
    {delivery : Delivery Host}
    (hdelivery : delivery ∈ timed.delivery host stamped
      ((timed.node host).processFrame stamped.frame outside)) :
    delivery.host = host ∧ ∃ i,
      Waits (timed.node host).buffer delivery.peer.destIp i ∧
      ¬ Waits ((timed.node host).processFrame stamped.frame
        outside).node.buffer delivery.peer.destIp i := by
  unfold Timed.delivery at hdelivery
  split at hdelivery
  next peer msg j hclient _ =>
    rw [List.mem_singleton] at hdelivery
    subst hdelivery
    refine ⟨rfl, ?_⟩
    by_cases hresponse : stamped.frame.header.type = .payloadResp ∧
        (timed.node host).owns stamped.frame.header.destIp = true
    · rw [processFrame_response hresponse.1 hresponse.2] at hclient ⊢
      rcases answerClient_cases (timed.node host) stamped.frame.header with
        ⟨i, hanswers⟩ | ⟨_, hsame⟩
      · rw [hanswers.toClient, Option.some.injEq, Prod.mk.injEq] at hclient
        rw [← hclient.1, hanswers.freed]
        refine ⟨i, ⟨rfl, hanswers.waits.2⟩, ?_⟩
        intro hwaits
        have hcount := hwaits.2
        simp at hcount
      · rw [hsame] at hclient
        cases hclient
    · rw [(processFrame_buffer hresponse outside).2] at hclient
      cases hclient
  next => cases hdelivery

omit [DecidableEq Host] in
theorem Timed.delivery_unique
    {outcome : Outcome} {delivery other : Delivery Host}
    (hdelivery : delivery ∈ timed.delivery host stamped outcome)
    (hother : other ∈ timed.delivery host stamped outcome) :
    other = delivery := by
  unfold Timed.delivery at hdelivery hother
  split at hdelivery
  next hclient hslot =>
    rw [hclient, hslot] at hother
    rw [List.mem_singleton] at hdelivery hother
    rw [hdelivery, hother]
  next => cases hdelivery

theorem Timed.Alone.onFrame
    (halone : timed.Alone) :
    (timed.onFrame host stamped outside).Alone := by
  have hself : (timed.onFrame host stamped outside).node host =
      ((timed.node host).processFrame stamped.frame outside).node :=
    Function.update_self host _ timed.node
  constructor
  case single =>
    intro h dest i j hi hj
    exact halone.single h dest i j (Timed.waits_onFrame hi)
      (Timed.waits_onFrame hj)
  case settled =>
    intro delivery hmem j hj
    have hbefore := Timed.waits_onFrame hj
    rcases List.mem_append.mp hmem with hnew | hold
    · rcases Timed.delivery_frees hnew with ⟨rfl, i, hi, hfreed⟩
      rw [halone.single _ _ j i hbefore hi, hself] at hj
      exact hfreed hj
    · exact halone.settled delivery hold j hbefore
  case once =>
    intro delivery hmem other hother hhost hdest
    rcases List.mem_append.mp hmem with hnew | hold
    · rcases List.mem_append.mp hother with hnew' | hold'
      · exact Timed.delivery_unique hnew hnew'
      · rcases Timed.delivery_frees hnew with ⟨rfl, i, hi, _⟩
        rw [← hhost, ← hdest] at hi
        exact absurd hi (halone.settled other hold' i)
    · rcases List.mem_append.mp hother with hnew' | hold'
      · rcases Timed.delivery_frees hnew' with ⟨hsame, i, hi, _⟩
        rw [← hsame, hhost, hdest] at hi
        exact absurd hi (halone.settled delivery hold i)
      · exact halone.once delivery hold other hold' hhost hdest

theorem Timed.Alone.onClient
    (halone : timed.Alone) (hfresh : timed.Fresh site)
    (hallowed : AsksBefore site timed (.client host peer)) :
    (timed.onClient host peer).Alone := by
  constructor
  case single =>
    intro h dest i j hi hj
    rcases Timed.waits_onClient hi with ⟨hi, _⟩ | ⟨hh, hdest, hslot⟩
    · rcases Timed.waits_onClient hj with ⟨hj, _⟩ | ⟨hh, hdest, _⟩
      · exact halone.single h dest i j hi hj
      · rw [hh, hdest] at hi
        exact absurd hi (hallowed.2 i)
    · rcases Timed.waits_onClient hj with ⟨hj, _⟩ | ⟨_, _, hslot'⟩
      · rw [hh, hdest] at hj
        exact absurd hj (hallowed.2 j)
      · rw [hslot] at hslot'
        exact Option.some.inj hslot'
  case settled =>
    intro delivery hmem i hi
    rcases Timed.waits_onClient hi with ⟨hi, _⟩ | ⟨hh, hdest, _⟩
    · exact halone.settled delivery hmem i hi
    · rcases hfresh.delivered delivery hmem with ⟨_, src, hsrc, hasked, _⟩
      rcases hasked with ⟨_, _, request, hrequest, _, htype, hfrom, hto, _⟩
      refine hallowed.1 request hrequest htype ?_ (hto.trans hdest)
      rw [hfrom, ← hh]
      exact hsrc
  case once => exact halone.once

end Alone

/-! ## Runs -/

theorem Timed.Fresh.step
    {site : Site Host} {timed next : Timed Host}
    {event : TimedEvent Host} (hfresh : timed.Fresh site)
    (hnodes : ∀ h, (timed.node h).Proper site h)
    (hnext : ∀ h, (next.node h).Proper site h)
    (hallowed : AsksBefore site timed event)
    (hstep : timed.step event = some next) :
    next.Fresh site := by
  cases event with
  | receive host stamped outside =>
      simp only [Timed.step, Option.ite_none_right_eq_some,
        Option.some.injEq] at hstep
      rcases hstep with ⟨⟨_, hmem, _⟩, rfl⟩
      exact hfresh.onFrame (hnodes host) (hnext host) hmem
  | client host peer =>
      simp only [Timed.step, Option.ite_none_right_eq_some,
        Option.some.injEq] at hstep
      rcases hstep with ⟨_, rfl⟩
      exact hfresh.onClient (hnext host) hallowed
  | timeout host =>
      simp only [Timed.step, Option.ite_none_right_eq_some,
        Option.some.injEq] at hstep
      rcases hstep with ⟨_, rfl⟩
      refine ⟨?_, hfresh.requests, hfresh.responses, ?_,
        hfresh.delivered⟩
      · intro h i
        exact (hfresh.since h i).trans (Nat.le_succ _)
      · intro src dest stamp hasked h hh i hwaits
        refine hfresh.waiting src dest stamp hasked h hh i ?_
        by_cases hhost : h = host
        · subst hhost
          simp only [Function.update_self] at hwaits
          exact hwaits
        · simp only [Function.update_of_ne hhost] at hwaits
          exact hwaits

theorem Timed.Alone.step
    {site : Site Host} {timed next : Timed Host}
    {event : TimedEvent Host} (halone : timed.Alone)
    (hfresh : timed.Fresh site) (hallowed : AsksBefore site timed event)
    (hstep : timed.step event = some next) :
    next.Alone := by
  cases event with
  | receive host stamped outside =>
      simp only [Timed.step, Option.ite_none_right_eq_some,
        Option.some.injEq] at hstep
      rcases hstep with ⟨_, rfl⟩
      exact halone.onFrame
  | client host peer =>
      simp only [Timed.step, Option.ite_none_right_eq_some,
        Option.some.injEq] at hstep
      rcases hstep with ⟨_, rfl⟩
      exact halone.onClient hfresh hallowed
  | timeout host =>
      simp only [Timed.step, Option.ite_none_right_eq_some,
        Option.some.injEq] at hstep
      rcases hstep with ⟨_, rfl⟩
      have hbuffer : ∀ h, (Function.update timed.node host
          (timed.node host).initRoutingTable h).buffer =
          (timed.node h).buffer := by
        intro h
        by_cases hhost : h = host
        · subst hhost
          rw [Function.update_self]
          rfl
        · rw [Function.update_of_ne hhost]
      constructor
      · intro h dest i j
        rw [hbuffer]
        exact halone.single h dest i j
      · intro delivery hmem i
        rw [hbuffer]
        exact halone.settled delivery hmem i
      · exact halone.once

theorem Timed.fresh_of_reachable
    {site : Site Host} {timed : Timed Host}
    (hreach : Transition.Reachable Timed.step (AsksBefore site)
      (Timed.Initial site) timed) :
    timed.Fresh site ∧ timed.Alone := by
  have hall : Transition.Reachable Timed.step (AsksBefore site)
      (Timed.Initial site) timed ∧ timed.Fresh site ∧ timed.Alone := by
    refine hreach.invariant (fun state =>
      Transition.Reachable Timed.step (AsksBefore site)
        (Timed.Initial site) state ∧ state.Fresh site ∧ state.Alone) ?_ ?_
    · intro start hinit
      refine ⟨.start hinit, ?_⟩
      subst hinit
      refine ⟨⟨fun _ _ => le_rfl, ?_, ?_, ?_, ?_⟩, ?_, ?_, ?_⟩
      · intro stamped hstamped
        cases hstamped
      · intro stamped hstamped
        cases hstamped
      · rintro src dest stamp ⟨h, _, request, hrequest, _⟩
        cases hrequest
      · intro delivery hdelivery
        cases hdelivery
      · intro h dest i j hi
        exact absurd rfl hi.2
      · intro delivery hdelivery
        cases hdelivery
      · intro delivery hdelivery
        cases hdelivery
    · rintro state event next ⟨hstate, hfresh, halone⟩ hallowed hstep
      have hnext := hstate.tail hallowed hstep
      refine ⟨hnext, ?_, halone.step hfresh hallowed hstep⟩
      exact hfresh.step (Timed.proper_of_reachable hstate)
        (Timed.proper_of_reachable hnext) hallowed hstep
  exact hall.2

/-- Every message handed to a client was made by the server of the
destination for a payload request which the node sent after it received the
request of that client, and after it answered any other request for the
destination. -/
theorem delivery_answers_request
    {site : Site Host} {timed : Timed Host}
    (hreach : Transition.Reachable Timed.step (AsksBefore site)
      (Timed.Initial site) timed)
    {delivery : Delivery Host} (hmem : delivery ∈ timed.delivered) :
    delivery.AnswersRequest site timed := by
  rcases Timed.fresh_of_reachable hreach with ⟨hfresh, halone⟩
  refine ⟨hfresh.delivered delivery hmem, ?_⟩
  intro other hother hhost hdest hearlier
  rw [halone.once delivery hmem other hother hhost hdest] at hearlier
  exact absurd hearlier (Nat.lt_irrefl _)

/-! ## A response which comes twice -/

instance (site : Site Host) (timed : Timed Host)
    (event : TimedEvent Host) : Decidable (AsksBefore site timed event) :=
  match event with
  | .receive _ _ _ => inferInstanceAs (Decidable True)
  | .client host peer =>
      inferInstanceAs (Decidable ((∀ stamped ∈ timed.sent,
        stamped.frame.header.type = .payloadReq →
        site.OwnsIp host stamped.frame.header.srcIp →
        stamped.frame.header.destIp ≠ peer.destIp) ∧
        ∀ i, ¬ Waits (timed.node host).buffer peer.destIp i))
  | .timeout _ => inferInstanceAs (Decidable True)

def timedStart : Timed (Fin 3) :=
  ⟨fun h => Node.start (lineSite.serv h), 0, fun _ _ => 0, [], [], []⟩

theorem timedStart_initial : timedStart.Initial lineSite :=
  rfl

/-- The response of the middle node to the first one. -/
def middleResponse : Stamped :=
  ⟨⟨lineMac 0, lineMac 1, 2,
    ⟨lineIp 1, lineIp 0, 1, 1, noMsg, 0, .payloadResp⟩⟩, 2⟩

/-- The first node asks the middle one and gets its response. -/
def timedExchange : List (TimedEvent (Fin 3)) :=
  [.client 0 (ask 1),
    .receive 1 ⟨⟨broadcastMac, lineMac 0, 2,
      ⟨lineIp 0, lineIp 1, 1, 2, noMsg, 0, .rreq⟩⟩, 0⟩ quiet,
    .receive 0 ⟨⟨lineMac 0, lineMac 1, 2,
      ⟨lineIp 1, lineIp 0, 1, 2, noMsg, 0, .rrep⟩⟩, 1⟩ quiet,
    .receive 1 ⟨⟨lineMac 1, lineMac 0, 2,
      ⟨lineIp 0, lineIp 1, 1, 2, blankMsg, 0, .payloadReq⟩⟩, 2⟩ quiet,
    .receive 0 middleResponse quiet]

/-- The only response answers the only request. -/
theorem delivery_answers_request_once :
    ∃ timed, Transition.Reachable Timed.step (AsksBefore lineSite)
        (Timed.Initial lineSite) timed ∧
      timed.delivered = [⟨0, ask 1, noMsg, 0, 2, 4⟩] ∧
      Delivery.AnswersRequest lineSite timed
        ⟨0, ask 1, noMsg, 0, 2, 4⟩ := by
  obtain ⟨timed, hreach, htest⟩ :=
    Transition.exists_reachable_of_replay Timed.step
      (AsksBefore lineSite) timedStart_initial timedExchange
      (fun timed =>
        decide (timed.delivered = [⟨0, ask 1, noMsg, 0, 2, 4⟩]))
      (by decide +kernel)
  rw [decide_eq_true_eq] at htest
  refine ⟨timed, hreach, htest, delivery_answers_request hreach ?_⟩
  rw [htest]
  exact List.mem_cons_self

/-- A client asks again, and the response to the first request comes a second
time: it is delivered for the second request, which came after it. -/
theorem delivery_of_stale_response :
    ∃ timed, Transition.Reachable Timed.step Transition.Unrestricted
        (Timed.Initial lineSite) timed ∧
      timed.delivered =
        [⟨0, ask 1, noMsg, 5, 2, 6⟩, ⟨0, ask 1, noMsg, 0, 2, 4⟩] ∧
      ¬ Delivery.AnswersRequest lineSite timed
        ⟨0, ask 1, noMsg, 5, 2, 6⟩ := by
  obtain ⟨timed, hreach, htest⟩ :=
    Transition.exists_reachable_of_replay Timed.step
      Transition.Unrestricted timedStart_initial
      (timedExchange ++
        [.client 0 (ask 1), .receive 0 middleResponse quiet])
      (fun timed => decide (timed.delivered =
        [⟨0, ask 1, noMsg, 5, 2, 6⟩, ⟨0, ask 1, noMsg, 0, 2, 4⟩]))
      (by decide +kernel)
  rw [decide_eq_true_eq] at htest
  refine ⟨timed, hreach, htest, ?_⟩
  intro hanswers
  exact absurd hanswers.made.1 (by decide)

end NetworkProgramming.Odr
