import NetworkProgramming.TourEchoReply
import NetworkProgramming.TourProcess
import NetworkProgramming.Transition
import Mathlib.Data.List.Basic

/-!
# Two threads which ping

`main` of `hw4/tour.c` notes the senders of routes in `ips_to_ping` and
reports the echo replies, while the thread of `send_ping` goes over the noted
addresses again and again.  `main` counts a new entry before it copies the
address, so the other thread may read an entry which is not there yet; and
the line which announces an entry is printed by whichever request comes next,
for one entry at a time.

Nevertheless every entry is announced once, in the order of the entries and
before its first request, and every reported reply belongs to a request of
this process.
-/

namespace NetworkProgramming.Tour

open MemoryImage

/-! ## The process -/

/-- What stays the same while the process runs.  The lowest 16 bits of its
number are `pid`; `beyondPing` tells what `add_ip_to_ping` finds behind the
only element of `ips_to_ping`. -/
structure PingSite where
  resolver : Resolver
  inetAddr : AddrText → InAddr
  pid : ℕ
  pid_lt : pid < 65536
  srcIp : AddrText
  beyondPing : AddrText → List AddrText → Bool

structure PingRequest where
  index : ℕ
  destIp : InAddr
  sent : TimeVal
  bytes : List UInt8
  deriving DecidableEq

/-- What is recorded of the process: the lines it prints and the requests it
sends. -/
inductive PingLine where
  | announced (index : ℕ) (canonname host : List UInt8)
  | request (request : PingRequest)
  | report (now : TimeVal) (report : PingReport)
  deriving DecidableEq

def PingLine.announcedIndex : PingLine → Option ℕ
  | .announced index _ _ => some index
  | .request _ | .report _ _ => none

def PingLine.request? : PingLine → Option PingRequest
  | .request sent => some sent
  | .announced _ _ _ | .report _ _ => none

/-- Where `send_ping` is: outside its `for` loop, at the head of it, or in
front of `send_ping_request`. -/
inductive PingPoint where
  | idle
  | head (idx k : ℕ)
  | ready (idx k : ℕ)
  deriving DecidableEq

/-- An entry of `ips` which is `none` is counted and not copied yet; `copying`
is what `main` is about to copy to it. -/
structure Pinging where
  ips : List (Option AddrText)
  copying : Option AddrText
  point : PingPoint
  nextIpToPingIndex : ℕ
  seq : ℤ
  keepPinging : Bool
  ended : Bool
  record : List PingLine

def Pinging.booted : Pinging :=
  ⟨[], none, .idle, 0, 0, true, false, []⟩

def Pinging.Initial (state : Pinging) : Prop :=
  state = Pinging.booted

theorem Pinging.booted_initial : Pinging.booted.Initial :=
  rfl

def Pinging.requests (state : Pinging) : List PingRequest :=
  state.record.filterMap PingLine.request?

/-- `main` notes an address, copies it, takes a packet from `pgfd` and leaves
its loop; the other thread takes a snapshot, goes through the `if` in front of
a request, sends the request and ends a pass.  `stale` is what is read from an
entry which is not copied yet. -/
inductive PingEvent where
  | note (ip : AddrText)
  | copy
  | packet (output bytes : List UInt8) (now : TimeVal)
  | stop
  | snapshot
  | announce (stale : InAddr)
  | send (now : TimeVal) (dstMac srcMac : Mac) (ifIndex : ℤ)
      (buffer : List.Vector UInt8 1514) (stale : InAddr)
  | finishPass

def PingSite.address (site : PingSite) (state : Pinging) (k : ℕ)
    (stale : InAddr) : InAddr :=
  match state.ips[k]? with
  | some (some ip) => site.inetAddr ip
  | some none | none => stale

/-- `main` is in `select`. -/
def Pinging.Selects (state : Pinging) : Prop :=
  state.keepPinging = true ∧ state.copying = none

instance (state : Pinging) : Decidable state.Selects :=
  inferInstanceAs (Decidable (_ ∧ _))

/-- `add_ip_to_ping` up to the copy. -/
def PingSite.note (site : PingSite) (state : Pinging) (ip : AddrText) :
    Pinging :=
  if pingKnown site.beyondPing site.srcIp ip state.ips.reduceOption then
    state
  else if state.ips.length < 20 then
    { state with ips := state.ips ++ [none], copying := some ip }
  else { state with ended := true }

def PingSite.packet (site : PingSite) (state : Pinging)
    (output bytes : List UInt8) (now : TimeVal) : Pinging :=
  match pgfdBranch site.resolver site.pid output bytes now with
  | .ignored => state
  | .reported report =>
      { state with record := state.record ++ [.report now report] }
  | .tooShort _ _ | .unresolved | .nullPointer | .overrun =>
      { state with ended := true }

/-- The `if` of `send_ping` in front of a request. -/
def PingSite.announce (site : PingSite) (state : Pinging) (idx k : ℕ)
    (stale : InAddr) : Pinging :=
  if state.nextIpToPingIndex < state.ips.length then
    let ip := site.address state state.nextIpToPingIndex stale
    match (site.resolver.gethostbyaddr ip.toList).bind
        site.resolver.hostServ with
    | none => { state with ended := true }
    | some (canonname, host) =>
        { state with
          point := .ready idx k
          nextIpToPingIndex := state.nextIpToPingIndex + 1
          record := state.record ++
            [.announced state.nextIpToPingIndex canonname host] }
  else { state with point := .ready idx k }

def PingSite.send (site : PingSite) (state : Pinging) (idx k : ℕ)
    (now : TimeVal) (dstMac srcMac : Mac) (ifIndex : ℤ)
    (buffer : List.Vector UInt8 1514) (stale : InAddr) : Pinging :=
  let destIp := site.address state k stale
  let frame := sendPingRequest site.pid state.seq now dstMac srcMac
    (site.inetAddr site.srcIp) destIp ifIndex buffer
  { state with
    point := .head idx (k + 1)
    seq := frame.seq
    record := state.record ++ [.request ⟨k, destIp, now, frame.bytes⟩] }

/-- One step of one of the threads. -/
def PingSite.step (site : PingSite) (state : Pinging)
    (event : PingEvent) : Option Pinging :=
  if state.ended then none
  else
    match event with
    | .note ip =>
        if state.Selects then some (site.note state ip) else none
    | .copy =>
        state.copying.map fun ip =>
          { state with
            ips := state.ips.dropLast ++ [some ip]
            copying := none }
    | .packet output bytes now =>
        if state.Selects then some (site.packet state output bytes now)
        else none
    | .stop =>
        if state.Selects then some { state with keepPinging := false }
        else none
    | .snapshot =>
        if state.point = .idle ∧ state.keepPinging = true then
          some { state with point := .head state.ips.length 0 }
        else none
    | .announce stale =>
        match state.point with
        | .head idx k =>
            if k < idx then some (site.announce state idx k stale) else none
        | .idle | .ready _ _ => none
    | .send now dstMac srcMac ifIndex buffer stale =>
        match state.point with
        | .ready idx k =>
            some (site.send state idx k now dstMac srcMac ifIndex buffer
              stale)
        | .idle | .head _ _ => none
    | .finishPass =>
        match state.point with
        | .head idx k =>
            if k < idx then none else some { state with point := .idle }
        | .idle | .ready _ _ => none

/-- The clock fits its type, and a packet which arrives with the identifier of
the process is the answer to one of its requests.  Answers may be lost,
delayed, reordered and repeated. -/
def PingSite.Honest (site : PingSite) (state : Pinging) :
    PingEvent → Prop
  | .packet output bytes _ =>
      (∃ request ∈ state.requests,
        EchoAnswer request.bytes request.destIp bytes) ∨
      halfwordAt (receivePacket output bytes) 24 ≠ site.pid
  | .send now _ _ _ _ _ => now.InRange
  | .note _ | .copy | .stop | .snapshot | .announce _ | .finishPass => True

instance (site : PingSite) (state : Pinging) (event : PingEvent) :
    Decidable (site.Honest state event) :=
  match event with
  | .packet _ _ _ => inferInstanceAs (Decidable (_ ∨ _))
  | .send now _ _ _ _ _ => inferInstanceAs (Decidable now.InRange)
  | .note _ | .copy | .stop | .snapshot | .announce _ | .finishPass =>
      inferInstanceAs (Decidable True)

/-! ## Announcements -/

def announcedIndices (record : List PingLine) : List ℕ :=
  record.filterMap PingLine.announcedIndex

/-- Every request stands behind the announcement of its entry. -/
def Preceded (record : List PingLine) : Prop :=
  ∀ before request after, record = before ++ .request request :: after →
    request.index ∈ announcedIndices before

theorem Preceded.concat
    {record : List PingLine} {line : PingLine} (hrecord : Preceded record)
    (hline : ∀ request, line = .request request →
      request.index ∈ announcedIndices record) :
    Preceded (record ++ [line]) := by
  intro before request after hsplit
  rcases List.eq_nil_or_concat after with rfl | ⟨front, last, rfl⟩
  · obtain ⟨rfl, hlast⟩ := List.append_inj' hsplit rfl
    exact hline request (List.singleton_inj.mp hlast)
  · have hregroup : record ++ [line] =
        (before ++ .request request :: front) ++ [last] := by
      simpa using hsplit
    exact hrecord before request front (List.append_inj' hregroup rfl).1

/-- What holds of the place of `send_ping`: in front of the request of an
entry the entry is announced. -/
def Pinging.Placed (state : Pinging) : Prop :=
  match state.point with
  | .idle => True
  | .head idx k => idx ≤ state.ips.length ∧ k ≤ state.nextIpToPingIndex
  | .ready idx k => idx ≤ state.ips.length ∧ k < state.nextIpToPingIndex

structure Pinging.Announces (state : Pinging) : Prop where
  placed : state.Placed
  announced : announcedIndices state.record =
    List.range state.nextIpToPingIndex
  preceded : Preceded state.record

section Announces

variable {site : PingSite} {state next : Pinging}

theorem Pinging.Placed.grow
    (hplaced : state.Placed) (hpoint : next.point = state.point)
    (hindex : next.nextIpToPingIndex = state.nextIpToPingIndex)
    (hlength : state.ips.length ≤ next.ips.length) :
    next.Placed := by
  unfold Pinging.Placed at hplaced ⊢
  rw [hpoint, hindex]
  cases hat : state.point with
  | idle => trivial
  | head idx k =>
      simp only [hat] at hplaced ⊢
      exact ⟨hplaced.1.trans hlength, hplaced.2⟩
  | ready idx k =>
      simp only [hat] at hplaced ⊢
      exact ⟨hplaced.1.trans hlength, hplaced.2⟩

theorem Pinging.Announces.other
    (hstate : state.Announces) (hplaced : next.Placed)
    (hindex : next.nextIpToPingIndex = state.nextIpToPingIndex)
    (hrecord : next.record = state.record) :
    next.Announces := by
  constructor
  case placed => exact hplaced
  case announced =>
    rw [hrecord, hindex]
    exact hstate.announced
  case preceded =>
    rw [hrecord]
    exact hstate.preceded

theorem Pinging.Announces.note
    (hstate : state.Announces) (ip : AddrText) :
    (site.note state ip).Announces := by
  unfold PingSite.note
  split
  next => exact hstate
  next =>
    split
    next =>
      refine hstate.other (hstate.placed.grow rfl rfl ?_) rfl rfl
      rw [List.length_append]
      omega
    next => exact hstate.other (hstate.placed.grow rfl rfl le_rfl) rfl rfl

theorem Pinging.Announces.packet
    (hstate : state.Announces) (output bytes : List UInt8)
    (now : TimeVal) :
    (site.packet state output bytes now).Announces := by
  have hkept : Pinging.Placed { state with ended := true } :=
    hstate.placed.grow rfl rfl le_rfl
  unfold PingSite.packet
  split
  next => exact hstate
  next report _ =>
    constructor
    case placed => exact hstate.placed.grow rfl rfl le_rfl
    case announced =>
      rw [← hstate.announced]
      simp [announcedIndices, PingLine.announcedIndex]
    case preceded =>
      refine hstate.preceded.concat ?_
      intro request hrequest
      cases hrequest
  all_goals exact hstate.other hkept rfl rfl

theorem Pinging.Announces.announce
    (hstate : state.Announces) {idx k : ℕ}
    (hat : state.point = .head idx k) (hk : k < idx) (stale : InAddr) :
    (site.announce state idx k stale).Announces := by
  have hplaced := hstate.placed
  simp only [Pinging.Placed, hat] at hplaced
  obtain ⟨hidx, hle⟩ := hplaced
  unfold PingSite.announce
  split
  next hbehind =>
    dsimp only
    split
    next =>
      exact hstate.other (hstate.placed.grow rfl rfl le_rfl) rfl rfl
    next canonname host _ =>
      constructor
      case placed => exact ⟨hidx, Nat.lt_succ_of_le hle⟩
      case announced =>
        rw [List.range_succ, ← hstate.announced]
        simp [announcedIndices, PingLine.announcedIndex]
      case preceded =>
        refine hstate.preceded.concat ?_
        intro request hrequest
        cases hrequest
  next hahead =>
    -- all entries are announced, so also the one which comes next
    refine hstate.other ⟨hidx, ?_⟩ rfl rfl
    change k < state.nextIpToPingIndex
    omega

theorem Pinging.Announces.send
    (hstate : state.Announces) {idx k : ℕ}
    (hat : state.point = .ready idx k) (now : TimeVal)
    (dstMac srcMac : Mac) (ifIndex : ℤ)
    (buffer : List.Vector UInt8 1514) (stale : InAddr) :
    (site.send state idx k now dstMac srcMac ifIndex buffer
      stale).Announces := by
  have hplaced := hstate.placed
  simp only [Pinging.Placed, hat] at hplaced
  obtain ⟨hidx, hlt⟩ := hplaced
  constructor
  case placed => exact ⟨hidx, hlt⟩
  case announced =>
    refine Eq.trans ?_ hstate.announced
    simp [PingSite.send, announcedIndices, PingLine.announcedIndex]
  case preceded =>
    refine hstate.preceded.concat ?_
    intro request hrequest
    cases hrequest
    rw [hstate.announced, List.mem_range]
    exact hlt

theorem Pinging.Announces.step
    (hstate : state.Announces) {event : PingEvent}
    (hstep : site.step state event = some next) :
    next.Announces := by
  unfold PingSite.step at hstep
  rw [Option.ite_none_left_eq_some] at hstep
  obtain ⟨_, hstep⟩ := hstep
  cases event with
  | note ip =>
      simp only [Option.ite_none_right_eq_some,
        Option.some.injEq] at hstep
      obtain ⟨_, rfl⟩ := hstep
      exact hstate.note ip
  | copy =>
      obtain ⟨ip, _, rfl⟩ := Option.map_eq_some_iff.mp hstep
      refine hstate.other (hstate.placed.grow rfl rfl ?_) rfl rfl
      rw [List.length_append, List.length_dropLast, List.length_singleton]
      omega
  | packet output bytes now =>
      simp only [Option.ite_none_right_eq_some,
        Option.some.injEq] at hstep
      obtain ⟨_, rfl⟩ := hstep
      exact hstate.packet output bytes now
  | stop =>
      simp only [Option.ite_none_right_eq_some,
        Option.some.injEq] at hstep
      obtain ⟨_, rfl⟩ := hstep
      exact hstate.other (hstate.placed.grow rfl rfl le_rfl) rfl rfl
  | snapshot =>
      simp only [Option.ite_none_right_eq_some,
        Option.some.injEq] at hstep
      obtain ⟨_, rfl⟩ := hstep
      exact hstate.other ⟨le_rfl, Nat.zero_le _⟩ rfl rfl
  | announce stale =>
      cases hat : state.point with
      | head idx k =>
          simp only [hat, Option.ite_none_right_eq_some,
            Option.some.injEq] at hstep
          obtain ⟨hk, rfl⟩ := hstep
          exact hstate.announce hat hk stale
      | idle => simp [hat] at hstep
      | ready idx k => simp [hat] at hstep
  | send now dstMac srcMac ifIndex buffer stale =>
      cases hat : state.point with
      | ready idx k =>
          simp only [hat, Option.some.injEq] at hstep
          subst hstep
          exact hstate.send hat now dstMac srcMac ifIndex buffer stale
      | idle => simp [hat] at hstep
      | head idx k => simp [hat] at hstep
  | finishPass =>
      cases hat : state.point with
      | head idx k =>
          simp only [hat, Option.ite_none_left_eq_some,
            Option.some.injEq] at hstep
          obtain ⟨_, rfl⟩ := hstep
          exact hstate.other trivial rfl rfl
      | idle => simp [hat] at hstep
      | ready idx k => simp [hat] at hstep

theorem Pinging.Initial.announces
    (hinit : state.Initial) : state.Announces := by
  subst hinit
  constructor
  case placed => trivial
  case announced => rfl
  case preceded =>
    intro before request after hsplit
    cases before <;> cases hsplit

end Announces

/-! ## Reports -/

/-- The request with number `i + 1`, as it was sent. -/
def PingSite.Sent (site : PingSite) (i : ℕ) (request : PingRequest) :
    Prop :=
  request.sent.InRange ∧
    ∃ dstMac srcMac ifIndex buffer, request.bytes =
      (sendPingRequest site.pid i request.sent dstMac srcMac
        (site.inetAddr site.srcIp) request.destIp ifIndex buffer).bytes

/-- A report is about a request: its number, the time since it was sent and
the names of the address it was sent to. -/
def PingSite.Explains (site : PingSite) (requests : List PingRequest)
    (now : TimeVal) (report : PingReport) : Prop :=
  ∃ i request name, requests[i]? = some request ∧
    site.resolver.gethostbyaddr request.destIp.toList = some name ∧
    site.resolver.hostServ name = some (report.canonname, report.host) ∧
    report.icmplen = 36 ∧ report.seq = (i + 1) % 65536 ∧
    report.rtt = tvSub now request.sent

structure Pinging.Attributes (site : PingSite) (state : Pinging) : Prop where
  seq_eq : state.seq = state.requests.length
  sent : ∀ i request, state.requests[i]? = some request →
    site.Sent i request
  explained : ∀ now report, .report now report ∈ state.record →
    site.Explains state.requests now report

section Attributes

variable {site : PingSite} {state next : Pinging}

theorem PingSite.Explains.append
    {requests : List PingRequest} {now : TimeVal} {report : PingReport}
    (hexplains : site.Explains requests now report)
    (later : List PingRequest) :
    site.Explains (requests ++ later) now report := by
  obtain ⟨i, request, name, hrequest, hrest⟩ := hexplains
  have hlt := (List.getElem?_eq_some_iff.mp hrequest).1
  refine ⟨i, request, name, ?_, hrest⟩
  rw [List.getElem?_append_left hlt]
  exact hrequest

/-- The answer to a request is explained by it, if it is reported. -/
theorem PingSite.Sent.explains
    {i : ℕ} {request : PingRequest} {requests : List PingRequest}
    (hsent : site.Sent i request) (hrequest : requests[i]? = some request)
    {output bytes : List UInt8} {now : TimeVal} {report : PingReport}
    (hanswer : EchoAnswer request.bytes request.destIp bytes)
    (hreport : pgfdBranch site.resolver site.pid output bytes now =
      .reported report) :
    site.Explains requests now report := by
  obtain ⟨hrange, dstMac, srcMac, ifIndex, buffer, hbytes⟩ := hsent
  rw [hbytes] at hanswer
  rw [pgfdBranch_answer site.pid_lt hrange hanswer] at hreport
  split at hreport
  next =>
    cases hname : site.resolver.gethostbyaddr request.destIp.toList with
    | none => simp [hname] at hreport
    | some name =>
        cases hhost : site.resolver.hostServ name with
        | none => simp [hname, hhost] at hreport
        | some found =>
            simp only [hname, hhost, PingOutcome.reported.injEq] at hreport
            subst hreport
            refine ⟨i, request, name, hrequest, hname, hhost, rfl, ?_, rfl⟩
            change (((i : ℤ) + 1) % 65536).toNat = (i + 1) % 65536
            omega
  next => cases hreport

/-- Steps which send nothing and report nothing. -/
theorem Pinging.Attributes.other
    (hstate : state.Attributes site) (hseq : next.seq = state.seq)
    (hrequests : next.requests = state.requests)
    (hreports : ∀ now report, .report now report ∈ next.record →
      .report now report ∈ state.record) :
    next.Attributes site := by
  constructor
  case seq_eq =>
    rw [hseq, hrequests]
    exact hstate.seq_eq
  case sent =>
    rw [hrequests]
    exact hstate.sent
  case explained =>
    intro now report hreport
    rw [hrequests]
    exact hstate.explained now report (hreports now report hreport)

theorem Pinging.Attributes.of_record
    (hstate : state.Attributes site) (hseq : next.seq = state.seq)
    (hrecord : next.record = state.record) :
    next.Attributes site := by
  refine hstate.other hseq (by rw [Pinging.requests, hrecord]; rfl) ?_
  rw [hrecord]
  exact fun _ _ hreport => hreport

theorem Pinging.Attributes.packet
    (hstate : state.Attributes site) {output bytes : List UInt8}
    {now : TimeVal}
    (hhonest : site.Honest state (.packet output bytes now)) :
    (site.packet state output bytes now).Attributes site := by
  unfold PingSite.packet
  split
  next => exact hstate
  next report hreport =>
    have hrequests : Pinging.requests { state with
        record := state.record ++ [.report now report] } =
        state.requests := by
      simp [Pinging.requests, PingLine.request?]
    constructor
    case seq_eq =>
      rw [hrequests]
      exact hstate.seq_eq
    case sent =>
      rw [hrequests]
      exact hstate.sent
    case explained =>
      intro now' report' hmem
      rw [hrequests]
      rcases List.mem_append.mp hmem with hold | hlast
      · exact hstate.explained now' report' hold
      · obtain ⟨rfl, rfl⟩ := PingLine.report.inj (List.mem_singleton.mp hlast)
        rcases hhonest with ⟨request, hrequest, hanswer⟩ | hforeign
        · obtain ⟨i, hi⟩ := List.mem_iff_getElem?.mp hrequest
          exact (hstate.sent i request hi).explains hi hanswer hreport
        · rw [pgfdBranch, if_neg hforeign] at hreport
          cases hreport
  all_goals exact hstate.of_record rfl rfl

theorem Pinging.Attributes.send
    (hstate : state.Attributes site) {idx k : ℕ} {now : TimeVal}
    (hnow : now.InRange) (dstMac srcMac : Mac) (ifIndex : ℤ)
    (buffer : List.Vector UInt8 1514) (stale : InAddr) :
    (site.send state idx k now dstMac srcMac ifIndex buffer
      stale).Attributes site := by
  let destIp := site.address state k stale
  let frame := sendPingRequest site.pid state.seq now dstMac srcMac
    (site.inetAddr site.srcIp) destIp ifIndex buffer
  have hrequests : (site.send state idx k now dstMac srcMac ifIndex buffer
      stale).requests =
      state.requests ++ [⟨k, destIp, now, frame.bytes⟩] := by
    simp [Pinging.requests, PingSite.send, PingLine.request?, frame, destIp]
  constructor
  case seq_eq =>
    rw [hrequests, List.length_append, List.length_singleton]
    change state.seq + 1 = _
    rw [hstate.seq_eq]
    rfl
  case sent =>
    intro i request hrequest
    rw [hrequests] at hrequest
    by_cases hi : i < state.requests.length
    · rw [List.getElem?_append_left hi] at hrequest
      exact hstate.sent i request hrequest
    · have hlast : i = state.requests.length := by
        have hbound := (List.getElem?_eq_some_iff.mp hrequest).1
        rw [List.length_append, List.length_singleton] at hbound
        omega
      subst hlast
      rw [List.getElem?_concat_length, Option.some.injEq] at hrequest
      subst hrequest
      refine ⟨hnow, dstMac, srcMac, ifIndex, buffer, ?_⟩
      rw [← hstate.seq_eq]
  case explained =>
    intro now' report hmem
    rw [hrequests]
    rcases List.mem_append.mp hmem with hold | hlast
    · exact (hstate.explained now' report hold).append _
    · cases List.mem_singleton.mp hlast

theorem Pinging.Attributes.announce
    (hstate : state.Attributes site) (idx k : ℕ) (stale : InAddr) :
    (site.announce state idx k stale).Attributes site := by
  unfold PingSite.announce
  split
  next =>
    dsimp only
    split
    next => exact hstate.of_record rfl rfl
    next =>
      refine hstate.other rfl ?_ ?_
      · simp [Pinging.requests, PingLine.request?]
      · intro now report hmem
        simpa using hmem
  next => exact hstate.of_record rfl rfl

theorem Pinging.Attributes.step
    (hstate : state.Attributes site) {event : PingEvent}
    (hhonest : site.Honest state event)
    (hstep : site.step state event = some next) :
    next.Attributes site := by
  unfold PingSite.step at hstep
  rw [Option.ite_none_left_eq_some] at hstep
  obtain ⟨_, hstep⟩ := hstep
  cases event with
  | note ip =>
      simp only [Option.ite_none_right_eq_some,
        Option.some.injEq] at hstep
      obtain ⟨_, rfl⟩ := hstep
      unfold PingSite.note
      split
      next => exact hstate
      next => split <;> exact hstate.of_record rfl rfl
  | copy =>
      obtain ⟨ip, _, rfl⟩ := Option.map_eq_some_iff.mp hstep
      exact hstate.of_record rfl rfl
  | packet output bytes now =>
      simp only [Option.ite_none_right_eq_some,
        Option.some.injEq] at hstep
      obtain ⟨_, rfl⟩ := hstep
      exact hstate.packet hhonest
  | stop =>
      simp only [Option.ite_none_right_eq_some,
        Option.some.injEq] at hstep
      obtain ⟨_, rfl⟩ := hstep
      exact hstate.of_record rfl rfl
  | snapshot =>
      simp only [Option.ite_none_right_eq_some,
        Option.some.injEq] at hstep
      obtain ⟨_, rfl⟩ := hstep
      exact hstate.of_record rfl rfl
  | announce stale =>
      cases hat : state.point with
      | head idx k =>
          simp only [hat, Option.ite_none_right_eq_some,
            Option.some.injEq] at hstep
          obtain ⟨_, rfl⟩ := hstep
          exact hstate.announce idx k stale
      | idle => simp [hat] at hstep
      | ready idx k => simp [hat] at hstep
  | send now dstMac srcMac ifIndex buffer stale =>
      cases hat : state.point with
      | ready idx k =>
          simp only [hat, Option.some.injEq] at hstep
          subst hstep
          exact hstate.send hhonest dstMac srcMac ifIndex buffer stale
      | idle => simp [hat] at hstep
      | head idx k => simp [hat] at hstep
  | finishPass =>
      cases hat : state.point with
      | head idx k =>
          simp only [hat, Option.ite_none_left_eq_some,
            Option.some.injEq] at hstep
          obtain ⟨_, rfl⟩ := hstep
          exact hstate.of_record rfl rfl
      | idle => simp [hat] at hstep
      | ready idx k => simp [hat] at hstep

theorem Pinging.Initial.attributes
    (hinit : state.Initial) : state.Attributes site := by
  subst hinit
  constructor
  case seq_eq => rfl
  case sent =>
    intro i request hrequest
    cases hrequest
  case explained =>
    intro now report hreport
    cases hreport

end Attributes

/-! ## Runs -/

/-- However the two threads are interleaved and whatever arrives, the entries
are announced in order and once each, and no request is sent to an entry which
is not announced. -/
theorem requests_announced
    (site : PingSite) {state : Pinging}
    (hreach : Transition.Reachable site.step Transition.Unrestricted
      Pinging.Initial state) :
    announcedIndices state.record = List.range state.nextIpToPingIndex ∧
      ∀ before request after,
        state.record = before ++ .request request :: after →
          request.index ∈ announcedIndices before := by
  have hannounces := hreach.invariant Pinging.Announces
    (fun _ hinit => hinit.announces)
    fun _ _ _ hstate _ hstep => hstate.step hstep
  exact ⟨hannounces.announced, hannounces.preceded⟩

def oneDigit (b : UInt8) (hb : b ≠ 0) : AddrText :=
  ⟨[b], fun _ hc => List.mem_singleton.mp hc ▸ hb, by
    rw [List.length_singleton]
    decide⟩

def digitSite : PingSite where
  resolver := oneName
  inetAddr := fun ip =>
    ⟨[10, 0, 0, ip.bytes.headD 0], rfl⟩
  pid := 4711
  pid_lt := by decide
  srcIp := oneDigit 49 (by decide)
  beyondPing := fun ip rest => rest.contains ip

def zeroBuffer : List.Vector UInt8 1514 :=
  List.Vector.replicate 1514 0

def anyAddress : InAddr :=
  List.Vector.replicate 4 0

/-- The second entry is counted while the first one is pinged, and pinged
before it is copied. -/
def racingPass : List PingEvent :=
  [.note (oneDigit 50 (by decide)), .copy,
    .note (oneDigit 51 (by decide)), .snapshot, .announce anyAddress,
    .send ⟨7, 0⟩ zeroMac zeroMac 2 zeroBuffer anyAddress,
    .announce anyAddress,
    .send ⟨8, 0⟩ zeroMac zeroMac 2 zeroBuffer anyAddress, .copy,
    .finishPass]

theorem requests_announced_racing :
    ∃ state,
      Transition.Reachable digitSite.step Transition.Unrestricted
        Pinging.Initial state ∧
      state.requests.map PingRequest.index = [0, 1] ∧
      announcedIndices state.record =
        List.range state.nextIpToPingIndex := by
  obtain ⟨state, hreach, htest⟩ :=
    Transition.exists_reachable_of_replay digitSite.step
      Transition.Unrestricted Pinging.booted_initial racingPass
      (fun state : Pinging =>
        decide (state.requests.map PingRequest.index = [0, 1]))
      (by decide +kernel)
  exact ⟨state, hreach, of_decide_eq_true htest,
    (requests_announced digitSite hreach).1⟩

/-- The answer of a kernel to a request. -/
def kernelAnswer (destIp : InAddr) (frame : List UInt8) : List UInt8 :=
  [0x45, 0, 0, 56, 0, 0, 0, 0, 64, 1, 0, 0] ++ destIp.toList ++
    [10, 0, 0, 49] ++ [0, 0, 0, 0] ++ (receivedMessage frame).drop 4

def firstAddress : InAddr :=
  ⟨[10, 0, 0, 50], rfl⟩

def firstAnswer : List UInt8 :=
  kernelAnswer firstAddress
    (sendPingRequest 4711 0 ⟨7, 0⟩ zeroMac zeroMac
      (digitSite.inetAddr digitSite.srcIp) firstAddress 2 zeroBuffer).bytes

end NetworkProgramming.Tour
