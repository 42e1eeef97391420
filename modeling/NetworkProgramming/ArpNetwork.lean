import NetworkProgramming.ArpReplies
import Mathlib.Data.List.TakeWhile

/-!
# Agreement of the ARP caches of a network

All hosts of a network run the ARP process, and every frame on the network
was sent by one of them.  A frame once sent can be delivered at any time, any
number of times and to any host, or never.  The caches and the frames keep
one invariant together: a frame carries the IP and the hardware address of
its sender, and an entry for the IP of a host holds either the zeroed address
of a pending request or the address of that host.
-/

namespace NetworkProgramming.Arp

open SlotTable

/-- The hosts of a network and their interfaces.  The kernel numbers
interfaces from 1, and the first interface names the host. -/
structure Site (Host : Type*) where
  protocol : Host → ℕ
  first : Host → ServerDetails
  others : Host → List ServerDetails
  length_lt : ∀ h, (others h).length < 20
  index_pos : ∀ h, 0 < (first h).index
  ip_ne : ∀ h, ∀ sv ∈ first h :: others h, sv.ip ≠ emptyIp
  nodup : ∀ h, ((first h :: others h).map ServerDetails.ip).Nodup
  disjoint : ∀ g h, g ≠ h → ∀ sv ∈ first g :: others g,
    ∀ sv' ∈ first h :: others h, sv.ip ≠ sv'.ip

variable {Host : Type*}

def Site.interfaces (site : Site Host) (h : Host) : List ServerDetails :=
  site.first h :: site.others h

/-- The address belongs to an interface with the IP. -/
def Site.Owns (site : Site Host) (ip : IpText) (mac : Mac) : Prop :=
  ∃ h, ∃ sv ∈ site.interfaces h, sv.ip = ip ∧ sv.mac = mac

theorem Site.Owns.unique
    {site : Site Host} {ip : IpText} {mac mac' : Mac}
    (howns : site.Owns ip mac) (howns' : site.Owns ip mac') :
    mac = mac' := by
  obtain ⟨g, sv, hsv, hip, hmac⟩ := howns
  obtain ⟨h, sv', hsv', hip', hmac'⟩ := howns'
  by_cases hhost : g = h
  · subst hhost
    have heq := List.inj_on_of_nodup_map (site.nodup g) hsv hsv'
      (hip.trans hip'.symm)
    rw [← hmac, ← hmac', heq]
  · exact absurd (hip.trans hip'.symm)
      (site.disjoint g h hhost sv hsv sv' hsv')

theorem Site.owns_interface
    (site : Site Host) {h : Host} {sv : ServerDetails}
    (hsv : sv ∈ site.interfaces h) :
    site.Owns sv.ip sv.mac :=
  ⟨h, sv, hsv, rfl, rfl⟩

theorem Site.first_mem (site : Site Host) (h : Host) :
    site.first h ∈ site.interfaces h :=
  List.mem_cons_self

abbrev Network (Host : Type*) := Host → Process

inductive NetworkEvent (Host : Type*) where
  | client (host : Host) (connfd : ℤ) (ip : IpText)
  | deliver (sender receiver : Host) (frame : SentFrame)

def Network.step [DecidableEq Host] (network : Network Host) :
    NetworkEvent Host → Option (Network Host)
  | .client host connfd ip =>
      ((network host).step (.client connfd ip)).map
        (Function.update network host)
  | .deliver sender receiver frame =>
      if frame ∈ (network sender).sent then
        ((network receiver).step (.frame frame.body)).map
          (Function.update network receiver)
      else none

def Network.Initial (site : Site Host) (network : Network Host) : Prop :=
  network = fun h => boot (site.protocol h) (site.interfaces h)

/-! ## One host -/

/-- What one host contributes to the agreement.  `own` lists the interfaces
of the host. -/
structure Process.Agrees (process : Process)
    (Owns : IpText → Mac → Prop) (own : List ServerDetails) : Prop where
  packed : Packed process.cache
  entries : ∀ ip entry mac, process.entry ip = some entry →
    Owns ip mac → entry.mac = zeroMac ∨ entry.mac = mac
  own : ∀ sv ∈ own, ∃ entry, process.entry sv.ip = some entry ∧
    entry.mac = sv.mac
  sent : ∀ frame ∈ process.sent,
    frame.body.senderIp = process.srcIp ∧
      frame.body.senderEth = process.srcMac

section Agrees

variable {Owns : IpText → Mac → Prop} {own : List ServerDetails}

theorem Process.Agrees.of_eq
    {process next : Process} (hagrees : process.Agrees Owns own)
    (hcache : next.cache = process.cache)
    (hsent : next.sent = process.sent)
    (hip : next.srcIp = process.srcIp)
    (hmac : next.srcMac = process.srcMac) :
    next.Agrees Owns own := by
  have hentry : next.entry = process.entry := by
    funext ip
    rw [Process.entry, Process.entry, hcache]
  constructor
  case packed =>
    rw [hcache]
    exact hagrees.packed
  case entries =>
    rw [hentry]
    exact hagrees.entries
  case own =>
    rw [hentry]
    exact hagrees.own
  case sent =>
    rw [hsent, hip, hmac]
    exact hagrees.sent

/-- Mapping one IP to an entry which agrees with the owners. -/
theorem Process.Agrees.put
    {process next : Process} {ip : IpText} {entry : ArpCacheDetails}
    (hagrees : process.Agrees Owns own) (hpacked : Packed next.cache)
    (hentry : ∀ other, next.entry other =
      if other = ip then some entry else process.entry other)
    (howner : ∀ mac, Owns ip mac → entry.mac = zeroMac ∨ entry.mac = mac)
    (hown : ∀ sv ∈ own, sv.ip = ip → entry.mac = sv.mac)
    (hsent : next.sent = process.sent)
    (hip : next.srcIp = process.srcIp)
    (hmac : next.srcMac = process.srcMac) :
    next.Agrees Owns own := by
  constructor
  case packed => exact hpacked
  case entries =>
    intro other found mac hfound hmac
    rw [hentry] at hfound
    split at hfound
    next hother =>
      rw [Option.some.injEq] at hfound
      subst hfound
      exact howner mac (hother ▸ hmac)
    next => exact hagrees.entries other found mac hfound hmac
  case own =>
    intro sv hsv
    rw [hentry]
    split
    next hother => exact ⟨entry, rfl, hown sv hsv hother⟩
    next => exact hagrees.own sv hsv
  case sent =>
    rw [hsent, hip, hmac]
    exact hagrees.sent

/-- Writing the address of the owner of the IP. -/
theorem Process.Agrees.putsOwned
    {process next : Process} {ip : IpText} {entry : ArpCacheDetails}
    (hagrees : process.Agrees Owns own)
    (hunique : ∀ ip mac mac', Owns ip mac → Owns ip mac' → mac = mac')
    (hown : ∀ sv ∈ own, Owns sv.ip sv.mac)
    (hputs : process.Puts next ip entry)
    (howns : Owns ip entry.mac) :
    next.Agrees Owns own := by
  apply hagrees.put hputs.packed hputs.entry_eq _ _ hputs.sent_eq
    hputs.srcIp_eq hputs.srcMac_eq
  · intro mac hmac
    exact .inr (hunique _ _ _ howns hmac)
  · intro sv hsv hip
    exact hunique _ _ _ howns (hip ▸ hown sv hsv)

/-- The incomplete entry for an IP which had none, so for no own IP. -/
theorem Process.Agrees.putsPending
    {process next : Process} {ip : IpText} {entry : ArpCacheDetails}
    (hagrees : process.Agrees Owns own)
    (hputs : process.Puts next ip entry)
    (hnone : process.entry ip = none) (hzero : entry.mac = zeroMac) :
    next.Agrees Owns own := by
  apply hagrees.put hputs.packed hputs.entry_eq _ _ hputs.sent_eq
    hputs.srcIp_eq hputs.srcMac_eq
  · intro mac _
    exact .inl hzero
  · intro sv hsv hip
    obtain ⟨found, hfound, _⟩ := hagrees.own sv hsv
    rw [hip, hnone] at hfound
    contradiction

theorem Process.Agrees.reply
    {process next : Process} {ip : IpText} {entry : ArpCacheDetails}
    {fd : ℤ} (hagrees : process.Agrees Owns own)
    (hreply : process.Replies next ip entry fd) :
    next.Agrees Owns own := by
  apply hagrees.put hreply.packed hreply.entry_eq _ _ hreply.sent_eq
    hreply.srcIp_eq hreply.srcMac_eq
  · intro mac hmac
    exact hagrees.entries ip entry mac hreply.found hmac
  · intro sv hsv hip
    obtain ⟨found, hfound, hmac⟩ := hagrees.own sv hsv
    rw [hip, hreply.found, Option.some.injEq] at hfound
    subst hfound
    exact hmac

theorem Process.Agrees.sendPacket
    {process : Process} (hagrees : process.Agrees Owns own)
    {mac : Mac} {body : ArpReqReply}
    (hip : body.senderIp = process.srcIp)
    (hmac : body.senderEth = process.srcMac) :
    (process.sendPacket mac body).Agrees Owns own := by
  refine ⟨hagrees.packed, hagrees.entries, hagrees.own, ?_⟩
  intro frame hframe
  simp only [Process.sendPacket, List.mem_cons] at hframe
  rcases hframe with rfl | hframe
  · exact ⟨hip, hmac⟩
  · exact hagrees.sent frame hframe

/-- The sender of the frame is named as its owner names it. -/
def ArpEvent.Truthful (Owns : IpText → Mac → Prop) : ArpEvent → Prop
  | .client _ _ => True
  | .frame received => Owns received.senderIp received.senderEth

theorem Process.Agrees.effect
    {process next : Process} {event : ArpEvent}
    (hagrees : process.Agrees Owns own)
    (hunique : ∀ ip mac mac', Owns ip mac → Owns ip mac' → mac = mac')
    (hown : ∀ sv ∈ own, Owns sv.ip sv.mac)
    (htruthful : event.Truthful Owns)
    (heffect : process.Effect event next) :
    next.Agrees Owns own := by
  cases heffect with
  | idle => exact hagrees
  | overrunFrame => exact hagrees.of_eq rfl rfl rfl rfl
  | overrunClient => exact hagrees.of_eq rfl rfl rfl rfl
  | @answer connfd ip entry _ _ _ hreply =>
      have haccept : (process.accept connfd ip).Agrees Owns own :=
        hagrees.of_eq rfl rfl rfl rfl
      exact haccept.reply hreply
  | @request connfd ip inserted _ _ hnone hputs =>
      have haccept : (process.accept connfd ip).Agrees Owns own :=
        hagrees.of_eq rfl rfl rfl rfl
      exact (haccept.putsPending hputs hnone rfl).sendPacket
        hputs.srcIp_eq.symm hputs.srcMac_eq.symm
  | @introduce frame inserted _ _ htarget hputs =>
      have hinserted :=
        hagrees.putsOwned hunique hown hputs htruthful
      have hlearned : (inserted.learn frame.senderIp
          frame.senderEth).Agrees Owns own :=
        hinserted.of_eq rfl rfl rfl rfl
      exact hlearned.sendPacket
        (htarget.symm.trans hputs.srcIp_eq.symm) hputs.srcMac_eq.symm
  | overhear _ hputs =>
      exact (hagrees.putsOwned hunique hown hputs htruthful).of_eq
        rfl rfl rfl rfl
  | @resolve frame old updated _ _ hputs hreply =>
      have hupdated :=
        hagrees.putsOwned hunique hown hputs htruthful
      have hlearned : (updated.learn frame.senderIp
          frame.senderEth).Agrees Owns own :=
        hupdated.of_eq rfl rfl rfl rfl
      exact hlearned.reply hreply

end Agrees

/-- No event after boot renames the host. -/
theorem Process.Effect.source_eq
    {process next : Process} {event : ArpEvent}
    (heffect : process.Effect event next) :
    next.srcIp = process.srcIp ∧ next.srcMac = process.srcMac := by
  cases heffect with
  | idle => exact ⟨rfl, rfl⟩
  | overrunFrame => exact ⟨rfl, rfl⟩
  | overrunClient => exact ⟨rfl, rfl⟩
  | answer _ _ hreply => exact ⟨hreply.srcIp_eq, hreply.srcMac_eq⟩
  | request _ _ _ hputs => exact ⟨hputs.srcIp_eq, hputs.srcMac_eq⟩
  | introduce _ _ _ hputs => exact ⟨hputs.srcIp_eq, hputs.srcMac_eq⟩
  | overhear _ hputs => exact ⟨hputs.srcIp_eq, hputs.srcMac_eq⟩
  | resolve _ hputs hreply =>
      exact ⟨hreply.srcIp_eq.trans hputs.srcIp_eq,
        hreply.srcMac_eq.trans hputs.srcMac_eq⟩

/-! ## Boot of one host -/

/-- The interfaces `done` of `all` are in the cache, and nothing else is. -/
structure Process.Booted (process : Process)
    (done all : List ServerDetails) : Prop where
  packed : Packed process.cache
  found : ∀ sv ∈ done, ∃ entry, process.entry sv.ip = some entry ∧
    entry.mac = sv.mac
  only : ∀ ip entry, process.entry ip = some entry →
    ∃ sv ∈ all, sv.ip = ip ∧ sv.mac = entry.mac
  sent : process.sent = []

theorem Process.Booted.exists_free
    {process : Process} {done all : List ServerDetails}
    (hbooted : process.Booted done all) (hlength : all.length < 40) :
    ∃ i, (process.cache i).filled = false := by
  refine hbooted.packed.exists_free (all.map ServerDetails.ip).toFinset
    ?_ ?_
  · intro i hfilled
    have hentry := lookup_of_filled hbooted.packed hfilled
    obtain ⟨sv, hsv, hip, _⟩ := hbooted.only _ _ hentry
    simp only [List.mem_toFinset, List.mem_map]
    exact ⟨sv, hsv, hip⟩
  · have hcard := List.toFinset_card_le (all.map ServerDetails.ip)
    rw [List.length_map] at hcard
    omega

theorem Process.Booted.bootEntry
    {process : Process} {done all : List ServerDetails}
    (hbooted : process.Booted done all) (hlength : all.length < 40)
    {sv : ServerDetails} (hsv : sv ∈ all)
    (hnew : sv.ip ∉ done.map ServerDetails.ip) :
    (process.bootEntry sv).Booted (sv :: done) all := by
  obtain ⟨_, _, _, hset⟩ := setSource_eq process sv
  rcases bootEntry_cases hbooted.packed sv with
    ⟨inserted, hputs, hboot⟩ | ⟨hfull, _⟩
  · rw [hboot]
    constructor
    case packed => exact hputs.packed
    case found =>
      intro other hother
      rw [List.mem_cons] at hother
      rcases hother with rfl | hother
      · exact ⟨_, hputs.entry_self, rfl⟩
      · have hne : other.ip ≠ sv.ip := by
          intro heq
          exact hnew (heq ▸ List.mem_map_of_mem hother)
        rw [entry_learn, hputs.entry_of_ne hne, entry_setSource]
        exact hbooted.found other hother
    case only =>
      intro ip entry hentry
      rw [entry_learn] at hentry
      by_cases hip : ip = sv.ip
      · subst hip
        rw [hputs.entry_self, Option.some.injEq] at hentry
        subst hentry
        exact ⟨sv, hsv, rfl, rfl⟩
      · rw [hputs.entry_of_ne hip, entry_setSource] at hentry
        exact hbooted.only ip entry hentry
    case sent =>
      change inserted.sent = []
      rw [hputs.sent_eq, hset]
      exact hbooted.sent
  · obtain ⟨i, hfree⟩ := hbooted.exists_free hlength
    have hfilled : (process.cache i).filled = true :=
      (scan_eq_none_iff.mp hfull i).1
    rw [hfree] at hfilled
    contradiction

theorem Process.Booted.foldl
    {all rest : List ServerDetails} (hlength : all.length < 40)
    (hrest : rest ⊆ all) {process : Process} {done : List ServerDetails}
    (hbooted : process.Booted done all)
    (hnodup : ((rest.reverse ++ done).map ServerDetails.ip).Nodup) :
    (rest.foldl Process.bootEntry process).Booted
      (rest.reverse ++ done) all := by
  induction rest generalizing process done with
  | nil => exact hbooted
  | cons sv rest ih =>
      simp only [List.reverse_cons, List.append_assoc,
        List.singleton_append] at hnodup ⊢
      have hnew : sv.ip ∉ done.map ServerDetails.ip := by
        rw [List.map_append, List.map_cons] at hnodup
        exact (List.nodup_cons.mp hnodup.of_append_right).1
      have hstep := hbooted.bootEntry hlength
        (hrest List.mem_cons_self) hnew
      exact ih (fun _ h => hrest (List.mem_cons_of_mem _ h)) hstep hnodup

/-- The host is named and no later interface renames it. -/
structure Process.NamedBy (process : Process) (sv : ServerDetails) :
    Prop where
  ip : process.srcIp = sv.ip
  mac : process.srcMac = sv.mac
  index : process.srcIfindex ≠ -1

theorem bootEntry_source
    {process : Process} (hpacked : Packed process.cache)
    (svd : ServerDetails) :
    (process.bootEntry svd).srcIp = (process.setSource svd).srcIp ∧
      (process.bootEntry svd).srcMac = (process.setSource svd).srcMac ∧
      (process.bootEntry svd).srcIfindex =
        (process.setSource svd).srcIfindex := by
  rcases bootEntry_cases hpacked svd with
    ⟨inserted, hputs, hboot⟩ | ⟨_, hboot⟩
  · rw [hboot]
    exact ⟨hputs.srcIp_eq, hputs.srcMac_eq, hputs.srcIfindex_eq⟩
  · rw [hboot]
    exact ⟨rfl, rfl, rfl⟩

theorem packed_bootEntry
    {process : Process} (hpacked : Packed process.cache)
    (svd : ServerDetails) :
    Packed (process.bootEntry svd).cache := by
  rcases bootEntry_cases hpacked svd with
    ⟨inserted, hputs, hboot⟩ | ⟨_, hboot⟩
  · rw [hboot]
    exact hputs.packed
  · rw [hboot]
    simpa using hpacked

theorem Process.NamedBy.foldl
    {process : Process} {sv : ServerDetails} (hnamed : process.NamedBy sv)
    (hpacked : Packed process.cache) (rest : List ServerDetails) :
    (rest.foldl Process.bootEntry process).NamedBy sv := by
  induction rest generalizing process with
  | nil => exact hnamed
  | cons other rest ih =>
      refine ih ?_ (packed_bootEntry hpacked other)
      have hsource := bootEntry_source hpacked other
      have hset : process.setSource other = process :=
        if_neg hnamed.index
      rw [hset] at hsource
      exact ⟨hsource.1.trans hnamed.ip, hsource.2.1.trans hnamed.mac,
        hsource.2.2 ▸ hnamed.index⟩

theorem Site.boot_eq (site : Site Host) (h : Host) :
    boot (site.protocol h) (site.interfaces h) =
      (site.interfaces h).foldl Process.bootEntry
        (Process.zeroed (site.protocol h)) := by
  have hlength : (site.interfaces h).length ≤ 20 := by
    have hlt := site.length_lt h
    simp only [Site.interfaces, List.length_cons]
    omega
  have hnonempty : (site.interfaces h).takeWhile
      (fun sv => decide (sv.ip ≠ emptyIp)) = site.interfaces h := by
    rw [List.takeWhile_eq_self_iff]
    intro sv hsv
    simpa using site.ip_ne h sv hsv
  rw [boot, Process.bootCache, List.take_of_length_le hlength, hnonempty]

theorem Site.booted (site : Site Host) (h : Host) :
    (boot (site.protocol h) (site.interfaces h)).Booted
      (site.interfaces h).reverse (site.interfaces h) := by
  have hzeroed : (Process.zeroed (site.protocol h)).Booted []
      (site.interfaces h) := by
    refine ⟨packed_empty, by simp, ?_, rfl⟩
    intro ip entry hentry
    have hnone : (Process.zeroed (site.protocol h)).entry ip = none :=
      lookup_empty ip
    rw [hnone] at hentry
    contradiction
  have hlength : (site.interfaces h).length < 40 := by
    have hlt := site.length_lt h
    simp only [Site.interfaces, List.length_cons]
    omega
  have hnodup : (((site.interfaces h).reverse ++ []).map
      ServerDetails.ip).Nodup := by
    rw [List.append_nil, List.map_reverse, List.nodup_reverse]
    exact site.nodup h
  have hfold := hzeroed.foldl hlength (List.Subset.refl _) hnodup
  rw [List.append_nil] at hfold
  rw [site.boot_eq]
  exact hfold

theorem Site.boot_named (site : Site Host) (h : Host) :
    (boot (site.protocol h) (site.interfaces h)).NamedBy
      (site.first h) := by
  rw [site.boot_eq, Site.interfaces, List.foldl_cons]
  have hpacked : Packed (Process.zeroed (site.protocol h)).cache :=
    packed_empty
  have hsource := bootEntry_source hpacked (site.first h)
  refine Process.NamedBy.foldl ?_
    (packed_bootEntry hpacked (site.first h)) _
  refine ⟨hsource.1, hsource.2.1, ?_⟩
  rw [hsource.2.2]
  have hpos := site.index_pos h
  change (site.first h).index ≠ -1
  omega

theorem Site.boot_agrees (site : Site Host) (h : Host) :
    (boot (site.protocol h) (site.interfaces h)).Agrees site.Owns
      (site.interfaces h) := by
  have hbooted := site.booted h
  constructor
  case packed => exact hbooted.packed
  case entries =>
    intro ip entry mac hentry hmac
    obtain ⟨sv, hsv, rfl, hsvMac⟩ := hbooted.only ip entry hentry
    have howns := site.owns_interface hsv
    exact .inr (hsvMac.symm.trans (howns.unique hmac))
  case own =>
    intro sv hsv
    exact hbooted.found sv (List.mem_reverse.mpr hsv)
  case sent =>
    intro frame hframe
    rw [hbooted.sent] at hframe
    contradiction

/-! ## The network -/

structure Network.Agrees (site : Site Host) (network : Network Host) :
    Prop where
  process : ∀ h, (network h).Agrees site.Owns (site.interfaces h)
  srcIp : ∀ h, (network h).srcIp = (site.first h).ip
  srcMac : ∀ h, (network h).srcMac = (site.first h).mac

theorem Network.Agrees.initial
    {site : Site Host} {network : Network Host}
    (hinit : network.Initial site) :
    network.Agrees site := by
  subst hinit
  exact ⟨site.boot_agrees, fun h => (site.boot_named h).ip,
    fun h => (site.boot_named h).mac⟩

/-- A frame on the network names its sender as the site does. -/
theorem Network.Agrees.truthful
    {site : Site Host} {network : Network Host}
    (hagrees : network.Agrees site)
    {sender : Host} {frame : SentFrame}
    (hsent : frame ∈ (network sender).sent) :
    (ArpEvent.frame frame.body).Truthful site.Owns := by
  have hnamed := (hagrees.process sender).sent frame hsent
  have hfirst := site.owns_interface (site.first_mem sender)
  change site.Owns frame.body.senderIp frame.body.senderEth
  rw [hnamed.1, hnamed.2, hagrees.srcIp, hagrees.srcMac]
  exact hfirst

theorem Network.Agrees.update [DecidableEq Host]
    {site : Site Host} {network : Network Host}
    (hagrees : network.Agrees site)
    {host : Host} {event : ArpEvent} {next : Process}
    (htruthful : event.Truthful site.Owns)
    (hstep : (network host).step event = some next) :
    Network.Agrees site (Function.update network host next) := by
  have hhost := hagrees.process host
  have heffect := step_effect hhost.packed hstep
  have hnext := hhost.effect
    (fun _ _ _ howns howns' => howns.unique howns')
    (fun _ hsv => site.owns_interface hsv) htruthful heffect
  have hsource := heffect.source_eq
  constructor
  case process =>
    intro h
    by_cases hh : h = host
    · subst hh
      rw [Function.update_self]
      exact hnext
    · rw [Function.update_of_ne hh]
      exact hagrees.process h
  case srcIp =>
    intro h
    by_cases hh : h = host
    · subst hh
      rw [Function.update_self, hsource.1]
      exact hagrees.srcIp h
    · rw [Function.update_of_ne hh]
      exact hagrees.srcIp h
  case srcMac =>
    intro h
    by_cases hh : h = host
    · subst hh
      rw [Function.update_self, hsource.2]
      exact hagrees.srcMac h
    · rw [Function.update_of_ne hh]
      exact hagrees.srcMac h

theorem Network.Agrees.step [DecidableEq Host]
    {site : Site Host} {network next : Network Host}
    (hagrees : network.Agrees site) {event : NetworkEvent Host}
    (hstep : network.step event = some next) :
    next.Agrees site := by
  cases event with
  | client host connfd ip =>
      obtain ⟨process, hprocess, rfl⟩ := Option.map_eq_some_iff.mp hstep
      have htruthful : (ArpEvent.client connfd ip).Truthful site.Owns :=
        trivial
      exact hagrees.update htruthful hprocess
  | deliver sender receiver frame =>
      simp only [Network.step, Option.ite_none_right_eq_some,
        Option.map_eq_some_iff] at hstep
      obtain ⟨hsent, process, hprocess, rfl⟩ := hstep
      exact hagrees.update (hagrees.truthful hsent) hprocess

/-- In every reachable state of the network an entry for the IP of a host
holds the zeroed address or the address of that host, at every node, and the
cache of each node has its own IP with its own address. -/
theorem network_caches_agree [DecidableEq Host]
    {site : Site Host} {network : Network Host}
    (hreach : Transition.Reachable Network.step Transition.Unrestricted
      (Network.Initial site) network) :
    (∀ node h i, ((network node).cache i).filled = true →
      ((network node).cache i).ip = (network h).srcIp →
      ((network node).cache i).mac = zeroMac ∨
        ((network node).cache i).mac = (network h).srcMac) ∧
    (∀ node, ∃ i, ((network node).cache i).filled = true ∧
      ((network node).cache i).ip = (network node).srcIp) ∧
    (∀ node i, ((network node).cache i).filled = true →
      ((network node).cache i).ip = (network node).srcIp →
      ((network node).cache i).mac = (network node).srcMac) ∧
    ∀ h, (network h).srcIp = (site.first h).ip ∧
      (network h).srcMac = (site.first h).mac := by
  have hagrees := hreach.invariant (Network.Agrees site)
    (fun _ hinit => .initial hinit)
    fun _ _ _ hstate _ hstep => hstate.step hstep
  have howns : ∀ h, site.Owns (network h).srcIp (network h).srcMac := by
    intro h
    rw [hagrees.srcIp, hagrees.srcMac]
    exact site.owns_interface (site.first_mem h)
  have hown : ∀ node, ∃ entry,
      (network node).entry (network node).srcIp = some entry ∧
        entry.mac = (network node).srcMac := by
    intro node
    rw [hagrees.srcIp, hagrees.srcMac]
    exact (hagrees.process node).own _ (site.first_mem node)
  refine ⟨?_, ?_, ?_, fun h => ⟨hagrees.srcIp h, hagrees.srcMac h⟩⟩
  · intro node h i hfilled hip
    have hnode := hagrees.process node
    have hentry : (network node).entry ((network node).cache i).ip =
        some ((network node).cache i) :=
      lookup_of_filled hnode.packed hfilled
    exact hnode.entries _ _ _ hentry (hip ▸ howns h)
  · intro node
    obtain ⟨entry, hentry, _⟩ := hown node
    obtain ⟨i, hi, hfilled, hip⟩ :=
      (lookup_eq_some_iff (hagrees.process node).packed).mp hentry
    subst hi
    exact ⟨i, hfilled, hip⟩
  · intro node i hfilled hip
    obtain ⟨entry, hentry, hmac⟩ := hown node
    have hcached : (network node).entry ((network node).cache i).ip =
        some ((network node).cache i) :=
      lookup_of_filled (hagrees.process node).packed hfilled
    rw [hip, hentry, Option.some.injEq] at hcached
    rw [← hcached, hmac]

/-- The host and its peer of the displayed runs. -/
def twoHosts : Site Bool where
  protocol := fun _ => 7
  first := fun h => if h then ⟨peerIp, peerMac, 2⟩ else hostInterface
  others := fun _ => []
  length_lt := by decide
  index_pos := by decide
  ip_ne := by decide
  nodup := by decide
  disjoint := by decide

def hostRequest : SentFrame :=
  ⟨broadcastMac, hostInterface.mac, 2,
    { peerReply with
      ethDest := zeroMac
      ethSrc := hostInterface.mac
      op := 1
      senderEth := hostInterface.mac
      senderIp := hostInterface.ip
      targetEth := zeroMac
      targetIp := peerIp }⟩

/-- A lookup, the request and the reply: both hosts know each other. -/
theorem network_caches_agree_afterReply :
    ∃ network : Network Bool,
      Transition.Reachable Network.step Transition.Unrestricted
        (Network.Initial twoHosts) network ∧
      ((network false).cache 1).filled = true ∧
      ((network false).cache 1).ip = (network true).srcIp ∧
      ((network false).cache 1).mac ≠ zeroMac ∧
      (((network false).cache 1).mac = zeroMac ∨
        ((network false).cache 1).mac = (network true).srcMac) := by
  have hinit : Network.Initial twoHosts
      (fun h => boot (twoHosts.protocol h) (twoHosts.interfaces h)) := rfl
  obtain ⟨network, hreach, htest⟩ :=
    Transition.exists_reachable_of_replay Network.step
      Transition.Unrestricted hinit
      [.client false 5 peerIp, .deliver false true hostRequest,
        .deliver true false ⟨hostInterface.mac, peerMac, 2, peerReply⟩]
      (fun state => decide (((state false).cache 1).filled = true) &&
        decide (((state false).cache 1).ip = (state true).srcIp) &&
        decide (((state false).cache 1).mac ≠ zeroMac))
      (by decide +kernel)
  simp only [Bool.and_eq_true, decide_eq_true_eq] at htest
  have hagree := (network_caches_agree hreach).1 false true 1
    htest.1.1 htest.1.2
  exact ⟨network, hreach, htest.1.1, htest.1.2, htest.2, hagree⟩

end NetworkProgramming.Arp
