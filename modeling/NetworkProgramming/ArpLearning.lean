import NetworkProgramming.ArpLookups
import NetworkProgramming.ArpNetwork

/-!
# The order in which a peer is learned

A request addressed to the host is inserted with the interface index of a
zeroed `server_details`.  A reply, and a request which is only overheard,
update the entry and write the constant 2.  So the index of the entry is
decided by the last message of the peer.
-/

namespace NetworkProgramming.Arp

open SlotTable

/-- A frame which the process handles, with its operation and the addresses
of its sender. -/
structure SentBy (frame : ArpReqReply) (op : ℕ) (ip : IpText) (mac : Mac) :
    Prop where
  identification_eq : frame.identification = identification
  op_eq : frame.op = op
  senderIp_eq : frame.senderIp = ip
  senderEth_eq : frame.senderEth = mac

/-- The process runs and has room for the IP. -/
structure Process.Listens (process : Process) (host ip : IpText) :
    Prop where
  packed : Packed process.cache
  running : process.overrun = false
  room : process.RoomFor ip
  named : process.srcIp = host

section Frames

variable {process : Process} {frame : ArpReqReply}
variable {host ip : IpText} {mac : Mac}

theorem processFrame_request
    (process : Process) (hsent : SentBy frame 1 ip mac) :
    process.processFrame frame = process.handleRequest frame := by
  rw [Process.processFrame, if_neg (not_not.mpr hsent.identification_eq),
    if_pos hsent.op_eq]

theorem processFrame_reply
    (process : Process) (hsent : SentBy frame 2 ip mac) :
    process.processFrame frame = process.handleResponse frame := by
  have hop : frame.op ≠ 1 := by
    rw [hsent.op_eq]
    decide
  rw [Process.processFrame, if_neg (not_not.mpr hsent.identification_eq),
    if_neg hop, if_pos hsent.op_eq]

theorem Process.Listens.processFrame
    (hlistens : process.Listens host ip) (hsender : frame.senderIp = ip) :
    (process.processFrame frame).Listens host ip := by
  have hstep := step_frame hlistens.running frame
  have heffect := step_effect hlistens.packed hstep
  cases step_touches hlistens.packed hstep with
  | stored _ hstored =>
      constructor
      case packed => exact hstored.cache.packed hlistens.packed
      case running => exact hstored.overrun.trans hlistens.running
      case room =>
        have hroom := roomFor_iff_scan.mp hlistens.room
        rw [← hsender] at hroom ⊢
        exact roomFor_iff_scan.mpr (hstored.cache.scan_isSome hroom)
      case named => exact heffect.source_eq.1.trans hlistens.named
  | overran hfull =>
      refine absurd ?_ hfull
      intro _ _ _
      rw [hsender]
      exact hlistens.room

/-! ## What each message leaves in the cache -/

theorem Process.Listens.entry_request
    (hlistens : process.Listens host ip) (hsent : SentBy frame 1 ip mac)
    (htarget : frame.targetIp = host) :
    (process.processFrame frame).entry ip =
      some ⟨ip, mac, 0, noFd, true⟩ := by
  rw [processFrame_request process hsent]
  rcases handleRequest_cases hlistens.packed frame with
    ⟨_, hscan, _⟩ | ⟨_, inserted, hputs, heq⟩ | ⟨hother, _⟩
  · rw [hsent.senderIp_eq] at hscan
    exact absurd hlistens.room (not_roomFor_of_scan hscan)
  · have hentry := hputs.entry_self
    rw [hsent.senderIp_eq, hsent.senderEth_eq] at hentry
    rw [heq]
    exact hentry
  · exact absurd (hlistens.named.trans htarget.symm) hother

theorem Process.Listens.entry_reply
    (hlistens : process.Listens host ip) (hsent : SentBy frame 2 ip mac)
    {old : ArpCacheDetails} (hold : process.entry ip = some old) :
    (process.processFrame frame).entry ip =
      some ⟨ip, mac, 2, noFd, true⟩ := by
  rw [processFrame_reply process hsent]
  rcases handleResponse_cases hlistens.packed frame with
    ⟨_, _, hnone, _⟩ | ⟨i, updated, hall, _, _, _, hreplies⟩
  · rw [hsent.senderIp_eq, hold] at hnone
    cases hnone
  · have hip : (process.cache i).ip = frame.senderIp :=
      (scanAll_eq_some_iff.mp hall).1
    have hentry := hreplies.entry_eq frame.senderIp
    rw [if_pos rfl, ArpCacheDetails.release, ArpCacheDetails.resolve, hip,
      hsent.senderIp_eq, hsent.senderEth_eq] at hentry
    exact hentry

theorem Process.Listens.entry_overheard
    (hlistens : process.Listens host ip) (hsent : SentBy frame 1 ip mac)
    (htarget : frame.targetIp ≠ host)
    {old : ArpCacheDetails} (hold : process.entry ip = some old) :
    (process.processFrame frame).entry ip =
      some ⟨ip, mac, 2, old.fd, true⟩ := by
  have hother : process.srcIp ≠ frame.targetIp := by
    rw [hlistens.named]
    exact htarget.symm
  rw [processFrame_request process hsent, Process.handleRequest,
    if_neg hother]
  cases hupdate : process.updateResponseInCache frame with
  | none =>
      have hnone := updateResponseInCache_none hlistens.packed hupdate
      rw [hsent.senderIp_eq, hold] at hnone
      cases hnone
  | some next =>
      obtain ⟨found, updated, hfound, hputs, hnext⟩ :=
        updateResponseInCache_puts hlistens.packed hupdate
      rw [hsent.senderIp_eq, hold] at hfound
      have hsame : found = old := by
        rcases hfound with hfound | ⟨hnone, _⟩
        · exact (Option.some.inj hfound).symm
        · cases hnone
      have hip : old.ip = ip := lookup_key hlistens.packed hold
      have hentry := hputs.entry_self
      rw [hsame, ArpCacheDetails.resolve, hip, hsent.senderIp_eq,
        hsent.senderEth_eq] at hentry
      rw [hnext]
      exact hentry

end Frames

/-! ## Two orders -/

/-- The entry for an IP after a list of frames, if the process survives
them. -/
def Process.entryAfter (process : Process) (frames : List ArpReqReply)
    (ip : IpText) : Option ArpCacheDetails :=
  (Transition.replay Process.step Transition.Unrestricted process
    (frames.map ArpEvent.frame)).bind fun next => next.entry ip

/-- A request to the host and a reply of the same peer leave the same entry
in both orders, and a request overheard after them does not change it. -/
def Process.LearnsAlike (process : Process) (ip : IpText) (mac : Mac)
    (request reply overheard : ArpReqReply) : Prop :=
  ∃ entry : ArpCacheDetails, entry.mac = mac ∧
    process.entryAfter [request, reply] ip = some entry ∧
    process.entryAfter [reply, request] ip = some entry ∧
    process.entryAfter [request, reply, overheard] ip = some entry ∧
    process.entryAfter [reply, request, overheard] ip = some entry

section Orders

variable {process : Process} {host ip : IpText} {mac : Mac}
variable {request reply overheard : ArpReqReply}

theorem Process.Listens.entryAfter_cons
    (hlistens : process.Listens host ip) (frame : ArpReqReply)
    (frames : List ArpReqReply) :
    process.entryAfter (frame :: frames) ip =
      (process.processFrame frame).entryAfter frames ip := by
  rw [Process.entryAfter, Process.entryAfter, List.map_cons,
    Transition.replay_cons trivial (step_frame hlistens.running frame)]

theorem entryAfter_nil (process : Process) (ip : IpText) :
    process.entryAfter [] ip = process.entry ip :=
  rfl

/-- The last message decides the index. -/
theorem Process.Listens.entryAfter_orders
    (hlistens : process.Listens host ip)
    (hrequest : SentBy request 1 ip mac) (hhost : request.targetIp = host)
    (hreply : SentBy reply 2 ip mac)
    (hoverheard : SentBy overheard 1 ip mac)
    (hother : overheard.targetIp ≠ host) :
    process.entryAfter [request, reply] ip =
        some ⟨ip, mac, 2, noFd, true⟩ ∧
      process.entryAfter [reply, request] ip =
        some ⟨ip, mac, 0, noFd, true⟩ ∧
      process.entryAfter [reply, request, overheard] ip =
        some ⟨ip, mac, 2, noFd, true⟩ := by
  have hasked := hlistens.processFrame hrequest.senderIp_eq
  have hanswered := hlistens.processFrame hreply.senderIp_eq
  have hboth := hanswered.processFrame hrequest.senderIp_eq
  have hentry := hanswered.entry_request hrequest hhost
  refine ⟨?_, ?_, ?_⟩
  · rw [hlistens.entryAfter_cons, hasked.entryAfter_cons, entryAfter_nil]
    exact hasked.entry_reply hreply
      (hlistens.entry_request hrequest hhost)
  · rw [hlistens.entryAfter_cons, hanswered.entryAfter_cons,
      entryAfter_nil]
    exact hentry
  · rw [hlistens.entryAfter_cons, hanswered.entryAfter_cons,
      hboth.entryAfter_cons, entryAfter_nil]
    exact hboth.entry_overheard hoverheard hother hentry

theorem not_learnsAlike
    {first second : ArpCacheDetails}
    (hfirst : process.entryAfter [request, reply] ip = some first)
    (hsecond : process.entryAfter [reply, request] ip = some second)
    (hindex : first.index ≠ second.index) :
    ¬ process.LearnsAlike ip mac request reply overheard := by
  rintro ⟨entry, _, hrequest, hreply, _, _⟩
  rw [hfirst, Option.some.injEq] at hrequest
  rw [hsecond, Option.some.injEq] at hreply
  rw [hrequest, hreply] at hindex
  exact hindex rfl

/-- Without room for the IP the request is written past the end. -/
theorem entryAfter_of_full
    (hpacked : Packed process.cache)
    (hrequest : SentBy request 1 ip mac)
    (hhost : request.targetIp = process.srcIp)
    (hfull : process.overrun = false → ¬ process.RoomFor ip) :
    process.entryAfter [request, reply] ip = none := by
  simp only [Process.entryAfter, List.map_cons, List.map_nil]
  cases hstep : process.step (.frame request) with
  | none => simp [Transition.replay, hstep]
  | some next =>
      cases step_touches hpacked hstep with
      | stored hroom =>
          have hsender := hroom hrequest.identification_eq hrequest.op_eq
            hhost.symm
          rw [hrequest.senderIp_eq] at hsender
          exact absurd hsender (hfull (step_running hstep))
      | overran _ _ hoverrun =>
          rw [Transition.replay_cons trivial hstep]
          simp [Transition.replay, Process.step, hoverrun]

/-- In no state of any run does the cache forget the order in which a peer
was heard. -/
theorem learning_depends_on_order
    (hreach : Transition.Reachable Process.step Transition.Unrestricted
      Process.Initial process)
    (hrequest : SentBy request 1 ip mac)
    (hhost : request.targetIp = process.srcIp)
    (hreply : SentBy reply 2 ip mac)
    (hoverheard : SentBy overheard 1 ip mac)
    (hother : overheard.targetIp ≠ process.srcIp) :
    ¬ process.LearnsAlike ip mac request reply overheard := by
  have hpacked := (sound_of_reachable hreach).packed
  by_cases hlistens : process.overrun = false ∧ process.RoomFor ip
  · have hready : process.Listens process.srcIp ip :=
      ⟨hpacked, hlistens.1, hlistens.2, rfl⟩
    obtain ⟨htwo, hzero, _⟩ := hready.entryAfter_orders hrequest hhost
      hreply hoverheard hother
    have hindex : (2 : ℤ) ≠ 0 := by decide
    exact not_learnsAlike htwo hzero hindex
  · have hfull : process.overrun = false → ¬ process.RoomFor ip :=
      fun hrunning hroom => hlistens ⟨hrunning, hroom⟩
    rintro ⟨entry, _, hfirst, _⟩
    rw [entryAfter_of_full hpacked hrequest hhost hfull] at hfirst
    cases hfirst

end Orders

/-- A request of the peer for a third host. -/
def peerOverheard : ArpReqReply :=
  { peerRequest with targetIp := numberedIp 7 }

theorem learning_depends_on_order_fresh :
    Transition.Reachable Process.step Transition.Unrestricted
      Process.Initial (boot 7 [hostInterface]) ∧
    ¬ (boot 7 [hostInterface]).LearnsAlike peerIp peerMac peerRequest
      peerReply peerOverheard := by
  have hreach : Transition.Reachable Process.step Transition.Unrestricted
      Process.Initial (boot 7 [hostInterface]) :=
    .start (boot_initial 7 [hostInterface])
  refine ⟨hreach, ?_⟩
  apply learning_depends_on_order hreach
  · exact ⟨rfl, rfl, rfl, rfl⟩
  · decide +kernel
  · exact ⟨rfl, rfl, rfl, rfl⟩
  · exact ⟨rfl, rfl, rfl, rfl⟩
  · decide +kernel

/-- A freshly booted host learns index 2 when the reply comes last and index
0 when the request comes last, and then an overheard request changes it. -/
theorem learned_index_follows_order :
    Transition.Reachable Process.step Transition.Unrestricted
      Process.Initial (boot 7 [hostInterface]) ∧
    (boot 7 [hostInterface]).entry peerIp = none ∧
    (boot 7 [hostInterface]).entryAfter [peerRequest, peerReply] peerIp =
      some ⟨peerIp, peerMac, 2, noFd, true⟩ ∧
    (boot 7 [hostInterface]).entryAfter [peerReply, peerRequest] peerIp =
      some ⟨peerIp, peerMac, 0, noFd, true⟩ ∧
    (boot 7 [hostInterface]).entryAfter
      [peerReply, peerRequest, peerOverheard] peerIp =
      some ⟨peerIp, peerMac, 2, noFd, true⟩ ∧
    ¬ (boot 7 [hostInterface]).LearnsAlike peerIp peerMac peerRequest
      peerReply peerOverheard := by
  have hnone : (boot 7 [hostInterface]).entry peerIp = none := by
    decide +kernel
  have hreplyLast : (boot 7 [hostInterface]).entryAfter
      [peerRequest, peerReply] peerIp =
      some ⟨peerIp, peerMac, 2, noFd, true⟩ := by
    decide +kernel
  have hrequestLast : (boot 7 [hostInterface]).entryAfter
      [peerReply, peerRequest] peerIp =
      some ⟨peerIp, peerMac, 0, noFd, true⟩ := by
    decide +kernel
  refine ⟨.start (boot_initial 7 [hostInterface]), hnone, hreplyLast,
    hrequestLast, ?_, ?_⟩
  · decide +kernel
  · exact not_learnsAlike hreplyLast hrequestLast (by decide)

end NetworkProgramming.Arp
