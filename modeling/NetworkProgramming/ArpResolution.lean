import NetworkProgramming.ArpNetwork
import NetworkProgramming.TransitionLog

/-!
# Lookups on a network which loses nothing

A lookup leaves an incomplete entry and a broadcast request; the host which
is named by the IP answers it, and the answer completes the entry.  When
every frame has been received by the hosts it is for, no entry for the name
of a host is incomplete and nobody waits at it.
-/

namespace NetworkProgramming.Arp

open SlotTable Transition

/-! ## What stays in one process -/

/-- The entry is complete and nobody waits at it. -/
def Process.Resolved (process : Process) (ip : IpText) (mac : Mac) :
    Prop :=
  ∃ entry, process.entry ip = some entry ∧ entry.mac = mac ∧
    entry.fd = noFd

structure Process.Grows (process next : Process)
    (Owns : IpText → Mac → Prop) : Prop where
  sent : process.sent ⊆ next.sent
  entry : ∀ ip, process.entry ip ≠ none → next.entry ip ≠ none
  resolved : ∀ ip mac, Owns ip mac → process.Resolved ip mac →
    next.Resolved ip mac
  srcIp : next.srcIp = process.srcIp
  srcMac : next.srcMac = process.srcMac

section Grows

variable {Owns : IpText → Mac → Prop} {process next : Process}

theorem Process.Grows.refl (process : Process)
    (Owns : IpText → Mac → Prop) : process.Grows process Owns :=
  ⟨List.Subset.refl _, fun _ hsome => hsome, fun _ _ _ h => h, rfl, rfl⟩

/-- One entry is written, and it is resolved or was not resolved before. -/
theorem Process.Grows.put
    {ip : IpText} {entry : ArpCacheDetails}
    (hentry : ∀ other, next.entry other =
      if other = ip then some entry else process.entry other)
    (hresolved : ∀ mac, Owns ip mac → process.Resolved ip mac →
      entry.mac = mac ∧ entry.fd = noFd)
    (hsent : process.sent ⊆ next.sent)
    (hip : next.srcIp = process.srcIp)
    (hmac : next.srcMac = process.srcMac) :
    process.Grows next Owns := by
  refine ⟨hsent, ?_, ?_, hip, hmac⟩
  · intro other hsome
    rw [hentry]
    split
    · exact Option.some_ne_none entry
    · exact hsome
  · intro other mac howns hold
    by_cases hother : other = ip
    · subst hother
      refine ⟨entry, ?_, hresolved mac howns hold⟩
      rw [hentry, if_pos rfl]
    · obtain ⟨found, hfound, hrest⟩ := hold
      refine ⟨found, ?_, hrest⟩
      rw [hentry, if_neg hother]
      exact hfound

theorem Process.Resolved.entry_eq
    {ip : IpText} {mac : Mac} (hresolved : process.Resolved ip mac)
    {entry : ArpCacheDetails} (hentry : process.entry ip = some entry) :
    entry.mac = mac ∧ entry.fd = noFd := by
  obtain ⟨found, hfound, hrest⟩ := hresolved
  rw [hentry, Option.some.injEq] at hfound
  subst hfound
  exact hrest

theorem Process.Effect.grows
    {event : ArpEvent} (heffect : process.Effect event next)
    (hunique : ∀ ip mac mac', Owns ip mac → Owns ip mac' → mac = mac')
    (htruthful : event.Truthful Owns) :
    process.Grows next Owns := by
  cases heffect with
  | idle => exact .refl process Owns
  | overrunFrame =>
      exact ⟨List.Subset.refl _, fun _ h => h, fun _ _ _ h => h, rfl, rfl⟩
  | overrunClient =>
      exact ⟨List.Subset.refl _, fun _ h => h, fun _ _ _ h => h, rfl, rfl⟩
  | @answer connfd ip entry _ _ _ hreply =>
      refine .put hreply.entry_eq ?_ (fun _ h => hreply.sent_eq ▸ h)
        hreply.srcIp_eq hreply.srcMac_eq
      intro mac _ hresolved
      exact ⟨(hresolved.entry_eq hreply.found).1, rfl⟩
  | @request connfd ip inserted _ _ hnone hputs =>
      refine .put hputs.entry_eq ?_ ?_ hputs.srcIp_eq hputs.srcMac_eq
      · intro mac _ hresolved
        obtain ⟨found, hfound, _⟩ := hresolved
        rw [hnone] at hfound
        cases hfound
      · rw [Process.sendPacket, hputs.sent_eq]
        exact List.subset_cons_self _ _
  | @introduce frame inserted _ _ _ hputs =>
      refine .put hputs.entry_eq ?_ ?_ hputs.srcIp_eq hputs.srcMac_eq
      · intro mac howns _
        exact ⟨hunique _ _ _ htruthful howns, rfl⟩
      · rw [Process.sendPacket, Process.learn, hputs.sent_eq]
        exact List.subset_cons_self _ _
  | @overhear frame old updated hold hputs =>
      refine .put hputs.entry_eq ?_ (fun _ h => hputs.sent_eq ▸ h)
        hputs.srcIp_eq hputs.srcMac_eq
      intro mac howns hresolved
      refine ⟨hunique _ _ _ htruthful howns, ?_⟩
      rcases hold with hfound | ⟨_, rfl⟩
      · exact (hresolved.entry_eq hfound).2
      · rfl
  | @resolve frame old updated next hold hputs hreply =>
      have hentry : ∀ other, next.entry other =
          if other = frame.senderIp then
            some (old.resolve frame.senderEth).release
          else process.entry other := by
        intro other
        rw [hreply.entry_eq]
        split
        next => rfl
        next hother =>
          rw [entry_learn]
          exact hputs.entry_of_ne hother
      have hsent : next.sent = process.sent :=
        hreply.sent_eq.trans hputs.sent_eq
      refine .put hentry ?_ (fun _ h => hsent ▸ h)
        (hreply.srcIp_eq.trans hputs.srcIp_eq)
        (hreply.srcMac_eq.trans hputs.srcMac_eq)
      intro mac howns _
      exact ⟨hunique _ _ _ htruthful howns, rfl⟩

end Grows

/-! ## What a step adds -/

/-- The frame is a request as `send_req` broadcasts it. -/
structure SentFrame.Requests (frame : SentFrame) : Prop where
  dest : frame.destMac = broadcastMac
  op : frame.body.op = 1
  identification : frame.body.identification = Arp.identification

/-- The frame is an answer to the request. -/
structure SentFrame.Answers (frame : SentFrame) (request : ArpReqReply) :
    Prop where
  request_op : request.op = 1
  dest : frame.destMac = request.senderEth
  op : frame.body.op = 2
  identification : frame.body.identification = Arp.identification
  senderIp : frame.body.senderIp = request.targetIp

section Steps

variable {Owns : IpText → Mac → Prop} {process next : Process}
  {event : ArpEvent}

theorem Process.Effect.sent_cases
    (heffect : process.Effect event next) {frame : SentFrame}
    (hframe : frame ∈ next.sent) :
    frame ∈ process.sent ∨
      (frame.Requests ∧ next.entry frame.body.targetIp ≠ none) ∨
      ∃ request, event = .frame request ∧ frame.Answers request := by
  cases heffect with
  | idle => exact .inl hframe
  | overrunFrame => exact .inl hframe
  | overrunClient => exact .inl hframe
  | answer _ _ hreply => exact .inl (hreply.sent_eq ▸ hframe)
  | @request connfd ip inserted _ _ _ hputs =>
      rcases List.mem_cons.mp hframe with rfl | hold
      · refine .inr (.inl ⟨⟨rfl, rfl, rfl⟩, ?_⟩)
        change inserted.entry ip ≠ none
        rw [hputs.entry_self]
        exact Option.some_ne_none _
      · exact .inl (hputs.sent_eq ▸ hold)
  | @introduce request inserted hid hop _ hputs =>
      rcases List.mem_cons.mp hframe with rfl | hold
      · exact .inr (.inr ⟨request, rfl, hop, rfl, rfl, hid, rfl⟩)
      · exact .inl (hputs.sent_eq ▸ hold)
  | overhear _ hputs => exact .inl (hputs.sent_eq ▸ hframe)
  | resolve _ hputs hreply =>
      exact .inl ((hreply.sent_eq.trans hputs.sent_eq) ▸ hframe)

/-- Every entry for the address of an owner is complete or asked for. -/
def Process.Accounts (process : Process) (Owns : IpText → Mac → Prop) :
    Prop :=
  ∀ ip mac, Owns ip mac → process.entry ip ≠ none →
    process.Resolved ip mac ∨
      ∃ frame ∈ process.sent, frame.Requests ∧ frame.body.targetIp = ip

theorem Process.Effect.new_entry
    (heffect : process.Effect event next)
    (hunique : ∀ ip mac mac', Owns ip mac → Owns ip mac' → mac = mac')
    (htruthful : event.Truthful Owns) {ip : IpText} {mac : Mac}
    (howns : Owns ip mac) (hnone : process.entry ip = none)
    (hsome : next.entry ip ≠ none) :
    next.Resolved ip mac ∨
      ∃ frame ∈ next.sent, frame.Requests ∧ frame.body.targetIp = ip := by
  cases heffect with
  | idle => exact absurd hnone hsome
  | overrunFrame => exact absurd hnone hsome
  | overrunClient => exact absurd hnone hsome
  | @answer connfd asked entry _ _ _ hreply =>
      rw [hreply.entry_eq] at hsome
      split at hsome
      next hip =>
        have hfound : process.entry asked = some entry := hreply.found
        rw [← hip, hnone] at hfound
        cases hfound
      next => exact absurd hnone hsome
  | @request connfd asked inserted _ _ _ hputs =>
      have hentry : inserted.entry ip ≠ none := hsome
      rw [hputs.entry_eq] at hentry
      split at hentry
      next hip =>
        exact .inr ⟨_, List.mem_cons_self, ⟨rfl, rfl, rfl⟩, hip.symm⟩
      next => exact absurd hnone hentry
  | @introduce frame inserted _ _ _ hputs =>
      have hentry : inserted.entry ip ≠ none := hsome
      rw [hputs.entry_eq] at hentry
      split at hentry
      next hip =>
        subst hip
        exact .inl ⟨_, hputs.entry_self,
          hunique _ _ _ htruthful howns, rfl⟩
      next => exact absurd hnone hentry
  | @overhear frame old updated hold hputs =>
      have hentry : updated.entry ip ≠ none := hsome
      rw [hputs.entry_eq] at hentry
      split at hentry
      next hip =>
        subst hip
        refine .inl ⟨_, hputs.entry_self,
          hunique _ _ _ htruthful howns, ?_⟩
        rcases hold with hfound | ⟨_, rfl⟩
        · rw [hnone] at hfound
          cases hfound
        · rfl
      next => exact absurd hnone hentry
  | @resolve frame old updated _ _ hputs hreply =>
      rw [hreply.entry_eq] at hsome
      split at hsome
      next hip =>
        subst hip
        refine .inl ⟨(old.resolve frame.senderEth).release, ?_,
          hunique _ _ _ htruthful howns, rfl⟩
        rw [hreply.entry_eq, if_pos rfl]
      next hip =>
        have hentry : updated.entry ip ≠ none := hsome
        rw [hputs.entry_of_ne hip] at hentry
        exact absurd hnone hentry

theorem Process.Accounts.effect
    (haccounts : process.Accounts Owns)
    (heffect : process.Effect event next)
    (hunique : ∀ ip mac mac', Owns ip mac → Owns ip mac' → mac = mac')
    (htruthful : event.Truthful Owns) :
    next.Accounts Owns := by
  intro ip mac howns hsome
  have hgrows := heffect.grows hunique htruthful
  by_cases hnone : process.entry ip = none
  · exact heffect.new_entry hunique htruthful howns hnone hsome
  · rcases haccounts ip mac howns hnone with
      hresolved | ⟨frame, hframe, hrest⟩
    · exact .inl (hgrows.resolved ip mac howns hresolved)
    · exact .inr ⟨frame, hgrows.sent hframe, hrest⟩

/-! ### What is done with a frame for the host -/

theorem step_frame_eq
    {frame : ArpReqReply}
    (hstep : process.step (.frame frame) = some next)
    (hid : frame.identification = Arp.identification) :
    next = if frame.op = 1 then process.handleRequest frame
      else if frame.op = 2 then process.handleResponse frame
      else process := by
  simp only [Process.step, Option.ite_none_right_eq_some,
    Option.some.injEq] at hstep
  rw [← hstep.2, Process.processFrame, if_neg (not_not.mpr hid)]

theorem step_answers
    (hpacked : Packed process.cache) {frame : ArpReqReply}
    (hstep : process.step (.frame frame) = some next)
    (hid : frame.identification = Arp.identification)
    (hop : frame.op = 1) (htarget : process.srcIp = frame.targetIp)
    (hfits : next.overrun = false) :
    ∃ answer ∈ next.sent, answer.Answers frame := by
  have hnext := step_frame_eq hstep hid
  rw [if_pos hop] at hnext
  rcases handleRequest_cases hpacked frame with
    ⟨_, _, heq⟩ | ⟨_, inserted, _, heq⟩ | ⟨hother, _⟩
  · rw [hnext, heq] at hfits
    cases hfits
  · rw [hnext, heq]
    exact ⟨_, List.mem_cons_self, hop, rfl, rfl, hid, rfl⟩
  · exact absurd htarget hother

theorem step_resolves
    (hpacked : Packed process.cache) {frame : ArpReqReply}
    (hstep : process.step (.frame frame) = some next)
    (hid : frame.identification = Arp.identification)
    (hop : frame.op = 2) (hsome : process.entry frame.senderIp ≠ none) :
    next.Resolved frame.senderIp frame.senderEth := by
  have hnext := step_frame_eq hstep hid
  rw [if_neg (by omega), if_pos hop] at hnext
  rcases handleResponse_cases hpacked frame with
    ⟨_, _, hnone, _⟩ | ⟨i, updated, _, _, _, _, hreply⟩
  · exact absurd hnone hsome
  · rw [hnext]
    refine ⟨((process.cache i).resolve frame.senderEth).release, ?_, rfl,
      rfl⟩
    rw [hreply.entry_eq, if_pos rfl]

theorem step_asked
    (hpacked : Packed process.cache) {connfd : ℤ} {ip : IpText}
    (hstep : process.step (.client connfd ip) = some next)
    (hfits : next.overrun = false) :
    next.entry ip ≠ none := by
  simp only [Process.step, Option.ite_none_right_eq_some,
    Option.some.injEq] at hstep
  rcases serveClient_cases hpacked ip hstep.1.2.1 with
    ⟨entry, hreply⟩ | ⟨_, _, inserted, hputs, heq⟩ | ⟨_, heq⟩
  · rw [← hstep.2, hreply.entry_eq, if_pos rfl]
    exact Option.some_ne_none _
  · rw [← hstep.2, heq]
    change inserted.entry ip ≠ none
    rw [hputs.entry_self]
    exact Option.some_ne_none _
  · rw [← hstep.2, heq] at hfits
    cases hfits

end Steps

/-! ## The network -/

section Network

variable {Host : Type*} {site : Site Host}

/-- A request has left an entry at its sender, and so has, at the host which
it goes to, the request which an answer is for. -/
def Network.Traced (site : Site Host) (network : Network Host) (h : Host)
    (frame : SentFrame) : Prop :=
  (frame.Requests ∧ (network h).entry frame.body.targetIp ≠ none) ∨
    (frame.body.op = 2 ∧
      frame.body.identification = Arp.identification ∧
      ∃ g, frame.destMac = (site.first g).mac ∧
        (network g).entry frame.body.senderIp ≠ none)

theorem Network.Traced.grows
    {network next : Network Host} {h : Host} {frame : SentFrame}
    (htraced : network.Traced site h frame)
    (hgrows : ∀ g, (network g).Grows (next g) site.Owns) :
    next.Traced site h frame := by
  rcases htraced with
    ⟨hrequests, hentry⟩ | ⟨hop, hid, g, hdest, hentry⟩
  · exact .inl ⟨hrequests, (hgrows h).entry _ hentry⟩
  · exact .inr ⟨hop, hid, g, hdest, (hgrows g).entry _ hentry⟩

theorem Network.Traced.identification_eq
    {network : Network Host} {h : Host} {frame : SentFrame}
    (htraced : network.Traced site h frame) :
    frame.body.identification = Arp.identification := by
  rcases htraced with ⟨hrequests, _⟩ | ⟨_, hid, _⟩
  · exact hrequests.identification
  · exact hid

structure Network.Tracked (site : Site Host) (network : Network Host) :
    Prop where
  agrees : network.Agrees site
  accounts : ∀ h, (network h).Accounts site.Owns
  traced : ∀ h, ∀ frame ∈ (network h).sent, network.Traced site h frame

theorem Network.Tracked.initial
    {network : Network Host} (hinit : network.Initial site) :
    network.Tracked site := by
  refine ⟨.initial hinit, ?_, ?_⟩
  · intro h ip mac howns hsome
    have hsound := sound_boot (site.protocol h) (site.interfaces h)
    have hidle := boot_untouched (site.protocol h) (site.interfaces h)
    rw [hinit] at hsome ⊢
    obtain ⟨entry, hentry⟩ := Option.ne_none_iff_exists'.mp hsome
    refine .inl ⟨entry, hentry, ?_, ?_⟩
    · obtain ⟨sv, hsv, rfl, hmac⟩ :=
        (site.booted h).only ip entry hentry
      rw [← hmac]
      exact (site.owns_interface hsv).unique howns
    · by_contra hwaits
      have hmem := hsound.waiting ip entry hentry hwaits
      rw [hidle.2] at hmem
      cases hmem
  · intro h frame hframe
    rw [hinit, (site.booted h).sent] at hframe
    cases hframe

variable [DecidableEq Host] {network next : Network Host}
  {event : NetworkEvent Host}

/-- The host which acts, and what it does. -/
theorem Network.Agrees.acts
    (hagrees : network.Agrees site)
    (hstep : network.step event = some next) :
    ∃ h process own, next = Function.update network h process ∧
      (network h).step own = some process ∧
      (network h).Effect own process ∧ own.Truthful site.Owns ∧
      (∀ frame, own = .frame frame → ∃ sender sent,
        event = .deliver sender h sent ∧ sent ∈ (network sender).sent ∧
        sent.body = frame) := by
  cases event with
  | client host connfd ip =>
      obtain ⟨process, hprocess, rfl⟩ := Option.map_eq_some_iff.mp hstep
      refine ⟨host, process, _, rfl, hprocess,
        step_effect (hagrees.process host).packed hprocess, trivial, ?_⟩
      intro frame hframe
      cases hframe
  | deliver sender receiver sent =>
      simp only [Network.step, Option.ite_none_right_eq_some,
        Option.map_eq_some_iff] at hstep
      obtain ⟨hsent, process, hprocess, rfl⟩ := hstep
      refine ⟨receiver, process, _, rfl, hprocess,
        step_effect (hagrees.process receiver).packed hprocess,
        hagrees.truthful hsent, ?_⟩
      intro frame hframe
      rw [ArpEvent.frame.injEq] at hframe
      exact ⟨sender, sent, rfl, hsent, hframe⟩

theorem Network.Agrees.grows
    (hagrees : network.Agrees site)
    (hstep : network.step event = some next) (h : Host) :
    (network h).Grows (next h) site.Owns := by
  obtain ⟨host, process, own, rfl, _, heffect, htruthful, _⟩ :=
    hagrees.acts hstep
  by_cases hh : h = host
  · subst hh
    rw [Function.update_self]
    exact heffect.grows (fun _ _ _ howns howns' => howns.unique howns')
      htruthful
  · rw [Function.update_of_ne hh]
    exact .refl _ _

theorem Network.Tracked.step
    (htracked : network.Tracked site)
    (hstep : network.step event = some next) :
    next.Tracked site := by
  have hagrees := htracked.agrees
  have hgrows := hagrees.grows hstep
  obtain ⟨host, process, own, rfl, _, heffect, htruthful, hframes⟩ :=
    hagrees.acts hstep
  refine ⟨hagrees.step hstep, ?_, ?_⟩
  · intro h
    by_cases hh : h = host
    · subst hh
      rw [Function.update_self]
      exact (htracked.accounts h).effect heffect
        (fun _ _ _ howns howns' => howns.unique howns') htruthful
    · rw [Function.update_of_ne hh]
      exact htracked.accounts h
  · intro h frame hframe
    by_cases hh : h = host
    · subst hh
      rw [Function.update_self] at hframe
      rcases heffect.sent_cases hframe with
        hold | ⟨hrequests, hentry⟩ | ⟨request, hown, hanswers⟩
      · exact (htracked.traced h frame hold).grows hgrows
      · refine .inl ⟨hrequests, ?_⟩
        rw [Function.update_self]
        exact hentry
      · obtain ⟨sender, sent, _, hsent, hbody⟩ := hframes request hown
        refine .inr ⟨hanswers.op, hanswers.identification, sender, ?_, ?_⟩
        · rw [hanswers.dest, ← hbody, ← hagrees.srcMac]
          exact ((hagrees.process sender).sent sent hsent).2
        · rcases htracked.traced sender sent hsent with
            ⟨_, hentry⟩ | ⟨hop, _⟩
          · rw [hanswers.senderIp, ← hbody]
            exact (hgrows sender).entry _ hentry
          · have hrequest := hanswers.request_op
            rw [← hbody, hop] at hrequest
            cases hrequest
    · rw [Function.update_of_ne hh] at hframe
      exact (htracked.traced h frame hframe).grows hgrows

/-! ## What is left behind by an event -/

/-- As long as the cache of the host did not overflow: a client has its
entry, a request for the host its answer, and an answer for the host has
completed the entry. -/
def Network.Settles (site : Site Host) :
    NetworkEvent Host → Network Host → Prop
  | .client h _ ip, network => (network h).overrun = false →
      (network h).entry ip ≠ none
  | .deliver _ h frame, network =>
      site.Owns frame.body.senderIp frame.body.senderEth ∧
        ((network h).overrun = false →
          (frame.body.op = 1 → (network h).srcIp = frame.body.targetIp →
            ∃ answer ∈ (network h).sent, answer.Answers frame.body) ∧
          (frame.body.op = 2 → frame.destMac = (network h).srcMac →
            (network h).Resolved frame.body.senderIp
              frame.body.senderEth))

theorem Network.Tracked.settles
    (htracked : network.Tracked site)
    (hmac : Function.Injective fun h => (site.first h).mac)
    (hstep : network.step event = some next) :
    next.Settles site event := by
  have hagrees := htracked.agrees
  have hgrows := hagrees.grows hstep
  cases event with
  | client h connfd ip =>
      obtain ⟨process, hprocess, rfl⟩ := Option.map_eq_some_iff.mp hstep
      intro hfits
      rw [Function.update_self] at hfits ⊢
      exact step_asked (hagrees.process h).packed hprocess hfits
  | deliver sender h frame =>
      simp only [Network.step, Option.ite_none_right_eq_some,
        Option.map_eq_some_iff] at hstep
      obtain ⟨hsent, process, hprocess, rfl⟩ := hstep
      have htraced := htracked.traced sender frame hsent
      have hpacked := (hagrees.process h).packed
      have hid := htraced.identification_eq
      refine ⟨hagrees.truthful hsent, fun hfits => ⟨?_, ?_⟩⟩
      · intro hop htarget
        rw [(hgrows h).srcIp] at htarget
        rw [Function.update_self] at hfits ⊢
        exact step_answers hpacked hprocess hid hop htarget hfits
      · intro hop hdest
        rw [(hgrows h).srcMac, hagrees.srcMac] at hdest
        rw [Function.update_self]
        refine step_resolves hpacked hprocess hid hop ?_
        rcases htraced with ⟨hrequests, _⟩ | ⟨_, _, g, hg, hentry⟩
        · rw [hrequests.op] at hop
          cases hop
        · obtain rfl : g = h := hmac (hg.symm.trans hdest)
          exact hentry

/-- Only a host which did not overflow acts. -/
theorem Network.Agrees.overrun_eq
    (hagrees : network.Agrees site)
    (hstep : network.step event = some next) {h : Host}
    (hfits : (next h).overrun = false) : (network h).overrun = false := by
  obtain ⟨host, process, own, rfl, hprocess, _⟩ := hagrees.acts hstep
  by_cases hh : h = host
  · subst hh
    cases own <;>
      simp only [Process.step, Option.ite_none_right_eq_some] at hprocess
    · exact hprocess.1.1
    · exact hprocess.1
  · rwa [Function.update_of_ne hh] at hfits

theorem Network.Agrees.keeps_settled
    (hagrees : network.Agrees site)
    (hstep : network.step event = some next)
    {earlier : NetworkEvent Host}
    (hsettles : network.Settles site earlier) :
    next.Settles site earlier := by
  cases earlier with
  | client h connfd ip =>
      intro hfits
      exact (hagrees.grows hstep h).entry ip
        (hsettles (hagrees.overrun_eq hstep hfits))
  | deliver sender h frame =>
      have hgrows := hagrees.grows hstep h
      obtain ⟨howns, hrest⟩ := hsettles
      refine ⟨howns, fun hfits => ?_⟩
      obtain ⟨hanswers, hresolves⟩ := hrest (hagrees.overrun_eq hstep hfits)
      rw [hgrows.srcIp, hgrows.srcMac]
      refine ⟨?_, ?_⟩
      · intro hop htarget
        obtain ⟨answer, hanswer, hanswers⟩ := hanswers hop htarget
        exact ⟨answer, hgrows.sent hanswer, hanswers⟩
      · intro hop hdest
        exact hgrows.resolved _ _ howns (hresolves hop hdest)

/-- Every frame has been received by every other host which its destination
names. -/
def Network.AtRest
    (current : Logged (Network Host) (NetworkEvent Host)) : Prop :=
  ∀ sender, ∀ frame ∈ (current.state sender).sent, ∀ h, h ≠ sender →
    (frame.destMac = broadcastMac ∨
      frame.destMac = (current.state h).srcMac) →
    .deliver sender h frame ∈ current.log

end Network

deriving instance DecidableEq for NetworkEvent

end NetworkProgramming.Arp
