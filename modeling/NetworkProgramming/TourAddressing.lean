import NetworkProgramming.ArpNetwork
import NetworkProgramming.ArpRoundTrip
import NetworkProgramming.TourPing

/-!
# To whom pings are sent

For each request `send_ping` of `hw4/tour.c` asks the ARP process of its host
twice with `areq`: for the hardware address of the host to be pinged, and for
its own.  The ARP process may be slow, so that `areq` gives up and leaves a
zeroed struct, and it may answer with the zeroed address of a request which
is still pending.  Apart from these zeros a request carries the addresses of
the two hosts it is between, whatever is asked and sent on the network in the
meantime.
-/

namespace NetworkProgramming.Arp

open MemoryImage SlotTable

/-! ## What the ARP processes tell their clients -/

/-- An answer about an IP: the bytes are a hardware address, and if somebody
owns the IP, it is the address of the owner or zero. -/
def Hwaddr.Names (hwa : Hwaddr) (Owns : IpText → Mac → Prop)
    (ip : IpText) : Prop :=
  ∃ mac, hwa.sllAddr = addressBytes mac ∧
    ∀ owner, Owns ip owner → mac = zeroMac ∨ mac = owner

def Process.Tells (process : Process) (Owns : IpText → Mac → Prop) :
    Prop :=
  ∀ w ∈ process.written, ∀ ip, w.asked = some ip →
    w.hwaddr.Names Owns ip

section Tells

variable {Owns : IpText → Mac → Prop} {own : List ServerDetails}
variable {process next : Process}

theorem Process.Tells.of_eq
    (htells : process.Tells Owns)
    (hwritten : next.written = process.written) :
    next.Tells Owns := by
  intro w hw
  rw [hwritten] at hw
  exact htells w hw

theorem Process.Tells.reply
    {ip : IpText} {entry : ArpCacheDetails} {fd : ℤ}
    (htells : process.Tells Owns)
    (hreply : process.Replies next ip entry fd)
    (hasked : process.askedAt fd = none ∨ process.askedAt fd = some ip)
    (hmac : ∀ owner, Owns ip owner →
      entry.mac = zeroMac ∨ entry.mac = owner) :
    next.Tells Owns := by
  intro w hw other hother
  rw [hreply.written, List.mem_cons] at hw
  rcases hw with rfl | hw
  · rcases hasked with hasked | hasked
    · rw [hasked] at hother
      cases hother
    · rw [hasked, Option.some.injEq] at hother
      subst hother
      exact ⟨entry.mac, rfl, hmac⟩
  · exact htells w hw other hother

theorem Process.Tells.effect
    {event : ArpEvent} (hsound : process.Sound)
    (hagrees : process.Agrees Owns own) (htells : process.Tells Owns)
    (hunique : ∀ ip mac mac', Owns ip mac → Owns ip mac' → mac = mac')
    (htruthful : event.Truthful Owns)
    (heffect : process.Effect event next) :
    next.Tells Owns := by
  cases heffect with
  | idle => exact htells
  | overrunFrame => exact htells
  | overrunClient => exact htells
  | @answer connfd ip entry _ hpos hfresh hreply =>
      have haccept := hsound.accept ip hpos hfresh
      have haccepted : (process.accept connfd ip).Tells Owns := htells
      exact haccepted.reply hreply
        (.inr (haccept.askedAt List.mem_cons_self))
        fun owner howner => hagrees.entries ip entry owner hreply.found
          howner
  | request _ _ _ hputs => exact htells.of_eq hputs.written_eq
  | introduce _ _ _ hputs => exact htells.of_eq hputs.written_eq
  | overhear _ hputs => exact htells.of_eq hputs.written_eq
  | @resolve frame old updated _ hold hputs hreply =>
      have hupdated := hsound.resolve hold hputs
      have hlearned : (updated.learn frame.senderIp
          frame.senderEth).Tells Owns :=
        htells.of_eq hputs.written_eq
      have hasked := hupdated.askedAt_waiting hreply.found
      exact hlearned.reply hreply hasked
        fun owner howner => .inr (hunique _ _ _ htruthful howner)

end Tells

variable {Host : Type*}

/-- The caches agree and the answers follow them. -/
structure Network.Tells (site : Site Host) (network : Network Host) :
    Prop where
  agrees : network.Agrees site
  sound : ∀ h, (network h).Sound
  tells : ∀ h, (network h).Tells site.Owns

theorem Network.Tells.initial
    {site : Site Host} {network : Network Host}
    (hinit : network.Initial site) :
    network.Tells site := by
  refine ⟨.initial hinit, ?_, ?_⟩
  · intro h
    rw [hinit]
    exact sound_boot _ _
  · intro h w hw
    have hnone : (network h).written = [] := by
      rw [hinit]
      exact (boot_untouched _ _).1
    rw [hnone] at hw
    cases hw

theorem Network.Tells.update [DecidableEq Host]
    {site : Site Host} {network : Network Host}
    (htells : network.Tells site) {host : Host} {event : ArpEvent}
    {next : Process} (htruthful : event.Truthful site.Owns)
    (hstep : (network host).step event = some next) :
    Network.Tells site (Function.update network host next) := by
  have hsound := htells.sound host
  have heffect := step_effect hsound.packed hstep
  refine ⟨htells.agrees.update htruthful hstep, ?_, ?_⟩
  · intro h
    by_cases hh : h = host
    · subst hh
      rw [Function.update_self]
      exact hsound.effect heffect
    · rw [Function.update_of_ne hh]
      exact htells.sound h
  · intro h
    by_cases hh : h = host
    · subst hh
      rw [Function.update_self]
      exact (htells.tells h).effect hsound (htells.agrees.process h)
        (fun _ _ _ howns howns' => howns.unique howns') htruthful heffect
    · rw [Function.update_of_ne hh]
      exact htells.tells h

theorem Network.Tells.step [DecidableEq Host]
    {site : Site Host} {network next : Network Host}
    (htells : network.Tells site) {event : NetworkEvent Host}
    (hstep : network.step event = some next) :
    next.Tells site := by
  cases event with
  | client host connfd ip =>
      obtain ⟨process, hprocess, rfl⟩ := Option.map_eq_some_iff.mp hstep
      have htruthful : (ArpEvent.client connfd ip).Truthful site.Owns :=
        trivial
      exact htells.update htruthful hprocess
  | deliver sender receiver frame =>
      simp only [Network.step, Option.ite_none_right_eq_some,
        Option.map_eq_some_iff] at hstep
      obtain ⟨hsent, process, hprocess, rfl⟩ := hstep
      exact htells.update (htells.agrees.truthful hsent) hprocess

/-! ## What `areq` makes of an answer -/

theorem Hwaddr.sllAddr_ofImage_image
    {hwa : Hwaddr} (hlength : hwa.sllAddr.length = 8) :
    (Hwaddr.ofImage hwa.image).sllAddr = hwa.sllAddr := by
  have hsplit := splitLengths_flatten
    [signedWord 4 hwa.sllIfindex, word 2 hwa.sllHatype,
      word 1 hwa.sllHalen, hwa.sllAddr]
  simp only [List.map_cons, List.map_nil, length_signedWord, length_word,
    hlength] at hsplit
  have hfields : hwaddrSizes.splitLengths hwa.image =
      [signedWord 4 hwa.sllIfindex, word 2 hwa.sllHatype,
        word 1 hwa.sllHalen, hwa.sllAddr] :=
    hsplit
  simp only [Hwaddr.ofImage, hfields, List.getD_cons_succ,
    List.getD_cons_zero]

theorem length_addressBytes (mac : Mac) : (addressBytes mac).length = 8 := by
  simp [addressBytes]

/-- The struct has the address of the answer. -/
theorem Hwaddr.Names.areq
    {Owns : IpText → Mac → Prop} {ip : IpText} {hwa : Hwaddr}
    (hnames : hwa.Names Owns ip) :
    (areq (some hwa.image)).2.Names Owns ip := by
  obtain ⟨mac, haddr, howner⟩ := hnames
  have hlength : hwa.sllAddr.length = 8 := by
    rw [haddr, length_addressBytes]
  exact ⟨mac, (Hwaddr.sllAddr_ofImage_image hlength).trans haddr, howner⟩

theorem areq_timeout_names (Owns : IpText → Mac → Prop) (ip : IpText) :
    (areq none).2.Names Owns ip :=
  ⟨zeroMac, rfl, fun _ _ => .inl rfl⟩

end NetworkProgramming.Arp

namespace NetworkProgramming.Tour

open MemoryImage Arp

/-! ## Requests and their addresses -/

/-- The six bytes which are copied from an array. -/
def leadingMac (bytes : List UInt8) : Mac :=
  ⟨(List.range 6).map (byteAt bytes), by simp⟩

theorem leadingMac_addressBytes (mac : Mac) :
    leadingMac (addressBytes mac) = mac := by
  apply List.Vector.toList_injective
  have hlength : mac.toList.length = 6 := List.Vector.toList_length mac
  apply List.ext_getElem
  · simp [leadingMac, hlength]
  · intro i hi hi'
    have hshort : i < mac.toList.length := hi'
    simp only [leadingMac, List.Vector.toList_mk, List.getElem_map,
      List.getElem_range, byteAt, addressBytes,
      List.getD_eq_getElem?_getD, List.getElem?_append_left hshort,
      List.getElem?_eq_getElem hshort, Option.getD_some]

/-- The addresses at the start of the frame. -/
theorem sendPingRequest_ethernet
    (pid : ℕ) (seq : ℤ) (now : TimeVal) (dstMac srcMac : Mac)
    (srcIp destIp : InAddr) (ifIndex : ℤ)
    (buffer : List.Vector UInt8 1514) :
    ∃ rest, (sendPingRequest pid seq now dstMac srcMac srcIp destIp ifIndex
      buffer).bytes = dstMac.toList ++ (srcMac.toList ++ rest) := by
  have hmac : ∀ mac : Mac, mac.toList.length = 6 :=
    List.Vector.toList_length
  have hstart : copyTo 0 dstMac.toList buffer.toList =
      dstMac.toList ++ buffer.toList.drop 6 := by
    have hcopy := copyTo_append (rfl : ([] : List UInt8).length = 0)
      dstMac.toList buffer.toList
    rwa [hmac] at hcopy
  have hbehind : ∀ (offset : ℕ) (bytes memory : List UInt8),
      12 ≤ offset → (∃ rest, memory =
        dstMac.toList ++ (srcMac.toList ++ rest)) →
      ∃ rest, copyTo offset bytes memory =
        dstMac.toList ++ (srcMac.toList ++ rest) := by
    rintro offset bytes _ hoffset ⟨rest, rfl⟩
    refine ⟨rest.take (offset - 12) ++ bytes ++
      (dstMac.toList ++ (srcMac.toList ++ rest)).drop
        (offset + bytes.length), ?_⟩
    have hdst : dstMac.toList.take offset = dstMac.toList :=
      List.take_of_length_le (by rw [hmac]; omega)
    have hsrc : srcMac.toList.take (offset - 6) = srcMac.toList :=
      List.take_of_length_le (by rw [hmac]; omega)
    rw [copyTo, List.take_append, hdst, hmac, List.take_append, hsrc, hmac,
      Nat.sub_sub]
    simp only [List.append_assoc]
  have haddressed : ∃ rest, copyTo 6 srcMac.toList
      (copyTo 0 dstMac.toList buffer.toList) =
        dstMac.toList ++ (srcMac.toList ++ rest) := by
    rw [hstart, copyTo_append (hmac dstMac), List.append_assoc]
    exact ⟨_, rfl⟩
  simp only [sendPingRequest]
  exact hbehind _ _ _ (by decide) (hbehind _ _ _ (by decide)
    (hbehind _ _ _ (by decide) haddressed))

/-! ## Pinging hosts -/

/-- A network whose hosts ping.  `home` is the interface whose IP is
`src_ip`. -/
structure Premises (Host : Type*) where
  site : Arp.Site Host
  home : Host → ServerDetails
  home_mem : ∀ h, home h ∈ site.interfaces h
  inetAddr : IpText → InAddr
  pid : Host → ℕ

/-- The ARP process has accepted the connection of `areq`, when it had
written `before` answers. -/
structure Acceptance where
  connfd : ℤ
  before : ℕ
  deriving DecidableEq

/-- Where the body of the `for` loop is: in the first `areq`, in the second
one, or in front of `send_ping_request`. -/
inductive PingStage where
  | resting
  | destination (target : IpText) (accepted : Option Acceptance)
  | source (target : IpText) (dest : Hwaddr) (accepted : Option Acceptance)
  | ready (target : IpText) (dest src : Hwaddr)
  deriving DecidableEq

/-- What `areq` was called for. -/
def PingStage.asks (srcIp : IpText) :
    PingStage → Option (IpText × Option Acceptance)
  | .destination target accepted => some (target, accepted)
  | .source _ _ accepted => some (srcIp, accepted)
  | .resting | .ready _ _ _ => none

def PingStage.accept (acceptance : Acceptance) : PingStage → PingStage
  | .destination target _ => .destination target (some acceptance)
  | .source target dest _ => .source target dest (some acceptance)
  | .resting => .resting
  | .ready target dest src => .ready target dest src

/-- `areq` returns. -/
def PingStage.returned (hwa : Hwaddr) : PingStage → PingStage
  | .destination target _ => .source target hwa none
  | .source target dest _ => .ready target dest hwa
  | .resting => .resting
  | .ready target dest src => .ready target dest src

structure SentPing (Host : Type*) where
  host : Host
  target : IpText
  frame : PingFrame

structure Pingers (Host : Type*) where
  network : Arp.Network Host
  stages : Host → PingStage
  seq : Host → ℤ
  sent : List (SentPing Host)

inductive PingersEvent (Host : Type*) where
  | network (event : NetworkEvent Host)
  | call (host : Host) (target : IpText)
  | accept (host : Host) (connfd : ℤ)
  | answer (host : Host) (w : Write)
  | timeout (host : Host)
  | send (host : Host) (now : TimeVal) (buffer : List.Vector UInt8 1514)

variable {Host : Type*} [DecidableEq Host]

def Pingers.setStage (state : Pingers Host) (host : Host)
    (stage : PingStage) : Pingers Host :=
  { state with stages := Function.update state.stages host stage }

/-- The call of `send_ping_request`. -/
def Premises.frame (premises : Premises Host) (host : Host) (seq : ℤ)
    (now : TimeVal) (target : IpText) (dest src : Hwaddr)
    (buffer : List.Vector UInt8 1514) : PingFrame :=
  sendPingRequest (premises.pid host) seq now (leadingMac dest.sllAddr)
    (leadingMac src.sllAddr) (premises.inetAddr (premises.home host).ip)
    (premises.inetAddr target) src.sllIfindex buffer

def Pingers.step (premises : Premises Host) (state : Pingers Host) :
    PingersEvent Host → Option (Pingers Host)
  | .network event =>
      (state.network.step event).map fun network =>
        { state with network := network }
  | .call host target =>
      if state.stages host = .resting then
        some (state.setStage host (.destination target none))
      else none
  | .accept host connfd =>
      match (state.stages host).asks (premises.home host).ip with
      | some (ip, none) =>
          (state.network.step (.client host connfd ip)).map fun network =>
            { state.setStage host ((state.stages host).accept
                ⟨connfd, (state.network host).written.length⟩) with
              network := network }
      | _ => none
  | .answer host w =>
      match (state.stages host).asks (premises.home host).ip with
      | some (ip, some acceptance) =>
          let written := (state.network host).written
          -- the newest answers are in front
          if w ∈ written.take (written.length - acceptance.before) ∧
              w.fd = acceptance.connfd ∧ w.asked = some ip then
            some (state.setStage host ((state.stages host).returned
              (areq (some w.hwaddr.image)).2))
          else none
      | _ => none
  | .timeout host =>
      match (state.stages host).asks (premises.home host).ip with
      | some _ => some (state.setStage host
          ((state.stages host).returned (areq none).2))
      | none => none
  | .send host now buffer =>
      match state.stages host with
      | .ready target dest src =>
          let frame := premises.frame host (state.seq host) now target dest
            src buffer
          some { state.setStage host .resting with
            seq := Function.update state.seq host frame.seq
            sent := ⟨host, target, frame⟩ :: state.sent }
      | _ => none

/-- All hosts have booted, and nobody pings yet. -/
def Premises.quiet (premises : Premises Host) : Pingers Host where
  network := fun h =>
    boot (premises.site.protocol h) (premises.site.interfaces h)
  stages := fun _ => .resting
  seq := fun _ => 0
  sent := []

def Premises.Initial (premises : Premises Host) (state : Pingers Host) :
    Prop :=
  state = premises.quiet

omit [DecidableEq Host] in
theorem Premises.quiet_initial (premises : Premises Host) :
    premises.Initial premises.quiet :=
  rfl

/-! ## Every request is addressed to its target -/

structure SentPing.Addressed (premises : Premises Host)
    (ping : SentPing Host) : Prop where
  destination : ∀ owner, premises.site.Owns ping.target owner →
    ping.frame.sllAddr = zeroMac ∨ ping.frame.sllAddr = owner
  ethDest : ping.frame.bytes.take 6 = ping.frame.sllAddr.toList
  ethSrc : (ping.frame.bytes.drop 6).take 6 = zeroMac.toList ∨
    (ping.frame.bytes.drop 6).take 6 =
      (premises.home ping.host).mac.toList

/-- What `areq` has returned so far. -/
def PingStage.Sound (Owns : IpText → Mac → Prop) (srcIp : IpText) :
    PingStage → Prop
  | .resting | .destination _ _ => True
  | .source target dest _ => dest.Names Owns target
  | .ready target dest src => dest.Names Owns target ∧ src.Names Owns srcIp

structure Pingers.Sound (premises : Premises Host) (state : Pingers Host) :
    Prop where
  tells : state.network.Tells premises.site
  stages : ∀ h, (state.stages h).Sound premises.site.Owns
    (premises.home h).ip
  sent : ∀ ping ∈ state.sent, ping.Addressed premises

section Sound

variable {Owns : IpText → Mac → Prop} {srcIp ip : IpText}
variable {stage : PingStage} {accepted : Option Acceptance}

theorem PingStage.Sound.accept
    (hsound : stage.Sound Owns srcIp) (acceptance : Acceptance) :
    (stage.accept acceptance).Sound Owns srcIp := by
  cases stage with
  | resting => exact hsound
  | destination target _ => exact hsound
  | source target dest _ => exact hsound
  | ready target dest src => exact hsound

theorem PingStage.Sound.returned
    (hsound : stage.Sound Owns srcIp)
    (hasks : stage.asks srcIp = some (ip, accepted)) {hwa : Hwaddr}
    (hnames : hwa.Names Owns ip) :
    (stage.returned hwa).Sound Owns srcIp := by
  cases stage with
  | resting => cases hasks
  | destination target _ =>
      cases hasks
      exact hnames
  | source target dest _ =>
      cases hasks
      exact ⟨hsound, hnames⟩
  | ready target dest src => cases hasks

omit [DecidableEq Host] in
theorem Premises.frame_addressed
    (premises : Premises Host) (host : Host) (seq : ℤ) (now : TimeVal)
    {target : IpText} {dest src : Hwaddr}
    (buffer : List.Vector UInt8 1514)
    (hdest : dest.Names premises.site.Owns target)
    (hsrc : src.Names premises.site.Owns (premises.home host).ip) :
    SentPing.Addressed premises ⟨host, target,
      premises.frame host seq now target dest src buffer⟩ := by
  obtain ⟨dstMac, hdstMac, hdestOwner⟩ := hdest
  obtain ⟨srcMac, hsrcMac, hsrcOwner⟩ := hsrc
  obtain ⟨rest, hbytes⟩ := sendPingRequest_ethernet (premises.pid host) seq
    now (leadingMac dest.sllAddr) (leadingMac src.sllAddr)
    (premises.inetAddr (premises.home host).ip) (premises.inetAddr target)
    src.sllIfindex buffer
  have hframe : (premises.frame host seq now target dest src buffer).bytes =
      dstMac.toList ++ (srcMac.toList ++ rest) := by
    rw [hdstMac, hsrcMac, leadingMac_addressBytes,
      leadingMac_addressBytes] at hbytes
    rw [Premises.frame, hdstMac, hsrcMac, leadingMac_addressBytes,
      leadingMac_addressBytes]
    exact hbytes
  have haddr : (premises.frame host seq now target dest src buffer).sllAddr =
      dstMac := by
    rw [Premises.frame, hdstMac, leadingMac_addressBytes]
    rfl
  have hmac : ∀ mac : Mac, mac.toList.length = 6 :=
    List.Vector.toList_length
  have hsource : ((premises.frame host seq now target dest src
      buffer).bytes.drop 6).take 6 = srcMac.toList := by
    rw [hframe, List.drop_left' (hmac dstMac), List.take_left' (hmac srcMac)]
  refine ⟨?_, ?_, ?_⟩
  · intro owner howner
    rw [haddr]
    exact hdestOwner owner howner
  · rw [haddr, hframe, List.take_left' (hmac dstMac)]
  · have hhome := premises.site.owns_interface (premises.home_mem host)
    rcases hsrcOwner _ hhome with rfl | rfl
    · exact .inl hsource
    · exact .inr hsource

theorem Pingers.Sound.setStage
    {premises : Premises Host} {state : Pingers Host}
    (hsound : state.Sound premises) {host : Host} {stage : PingStage}
    (hstage : stage.Sound premises.site.Owns (premises.home host).ip)
    (h : Host) :
    ((state.setStage host stage).stages h).Sound premises.site.Owns
      (premises.home h).ip := by
  simp only [Pingers.setStage]
  by_cases hh : h = host
  · subst hh
    rw [Function.update_self]
    exact hstage
  · rw [Function.update_of_ne hh]
    exact hsound.stages h

theorem Pingers.Sound.step
    {premises : Premises Host} {state next : Pingers Host}
    (hsound : state.Sound premises) {event : PingersEvent Host}
    (hstep : state.step premises event = some next) :
    next.Sound premises := by
  cases event with
  | network event =>
      obtain ⟨network, hnetwork, rfl⟩ := Option.map_eq_some_iff.mp hstep
      exact ⟨hsound.tells.step hnetwork, hsound.stages, hsound.sent⟩
  | call host target =>
      simp only [Pingers.step, Option.ite_none_right_eq_some,
        Option.some.injEq] at hstep
      obtain ⟨_, rfl⟩ := hstep
      exact ⟨hsound.tells, hsound.setStage trivial, hsound.sent⟩
  | accept host connfd =>
      simp only [Pingers.step] at hstep
      split at hstep
      next ip hasks =>
        obtain ⟨network, hnetwork, rfl⟩ :=
          Option.map_eq_some_iff.mp hstep
        exact ⟨hsound.tells.step hnetwork,
          hsound.setStage ((hsound.stages host).accept _), hsound.sent⟩
      next => cases hstep
  | answer host w =>
      simp only [Pingers.step] at hstep
      split at hstep
      next ip acceptance hasks =>
        simp only [Option.ite_none_right_eq_some, Option.some.injEq]
          at hstep
        obtain ⟨⟨hw, _, hasked⟩, rfl⟩ := hstep
        have hnames := hsound.tells.tells host w (List.mem_of_mem_take hw)
          ip hasked
        exact ⟨hsound.tells, hsound.setStage
          ((hsound.stages host).returned hasks hnames.areq), hsound.sent⟩
      next => cases hstep
  | timeout host =>
      simp only [Pingers.step] at hstep
      split at hstep
      next asked hasks =>
        simp only [Option.some.injEq] at hstep
        subst hstep
        have hnames := areq_timeout_names premises.site.Owns asked.1
        exact ⟨hsound.tells, hsound.setStage
          ((hsound.stages host).returned hasks hnames), hsound.sent⟩
      next => cases hstep
  | send host now buffer =>
      simp only [Pingers.step] at hstep
      split at hstep
      next target dest src hready =>
        simp only [Option.some.injEq] at hstep
        subst hstep
        have hstage := hsound.stages host
        rw [hready] at hstage
        refine ⟨hsound.tells, hsound.setStage trivial, ?_⟩
        intro ping hping
        rcases List.mem_cons.mp hping with rfl | hold
        · exact premises.frame_addressed host _ now buffer hstage.1 hstage.2
        · exact hsound.sent ping hold
      next => cases hstep

end Sound

/-- The host of the displayed runs pings its peer. -/
def peerPing : Premises Bool where
  site := twoHosts
  home := twoHosts.first
  home_mem := twoHosts.first_mem
  inetAddr := fun _ => ⟨[10, 0, 0, 1], rfl⟩
  pid := fun _ => 7

/-- The first lookup needs a request on the network, the second one does
not. -/
def peerPinged : List (PingersEvent Bool) :=
  [.call false peerIp, .accept false 5,
    .network (.deliver false true hostRequest),
    .network (.deliver true false ⟨hostInterface.mac, peerMac, 2, peerReply⟩),
    .answer false ⟨5, some peerIp,
      ⟨2, 1, strlenMac peerMac, addressBytes peerMac⟩⟩,
    .accept false 5,
    .answer false ⟨5, some hostInterface.ip,
      ⟨2, 1, strlenMac hostInterface.mac,
        addressBytes hostInterface.mac⟩⟩,
    .send false ⟨0, 0⟩ (List.Vector.replicate 1514 0)]

end NetworkProgramming.Tour
