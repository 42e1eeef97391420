import NetworkProgramming.ArpReplies

/-!
# The three loops over the ARP cache

`insert_into_cache` and `send_reply` stop at the first entry which is not
filled, `update_response_in_cache` looks at all forty.  Every function of the
process writes at most one entry, for the IP of the event and at the place
where the first two loops stop for that IP.  So the cache stays packed and
all three loops find the same entry, as long as there is room for the IPs of
the run.
-/

namespace NetworkProgramming.Arp

open SlotTable

/-- The IP which is looked up in the cache. -/
def ArpEvent.ip : ArpEvent → IpText
  | .client _ ip => ip
  | .frame arp => arp.senderIp

/-- An entry for the IP or an unused one. -/
def Process.RoomFor (process : Process) (ip : IpText) : Prop :=
  ∃ i, (process.cache i).filled = false ∨ (process.cache i).ip = ip

instance (process : Process) (ip : IpText) :
    Decidable (process.RoomFor ip) :=
  inferInstanceAs (Decidable (∃ _, _ ∨ _))

/-- A client without an entry and a request addressed to the host make an
entry. -/
def Process.HasRoom (process : Process) : ArpEvent → Prop
  | .client _ ip => process.RoomFor ip
  | .frame frame =>
      frame.identification = identification → frame.op = 1 →
        process.srcIp = frame.targetIp → process.RoomFor frame.senderIp

instance (process : Process) (event : ArpEvent) :
    Decidable (process.HasRoom event) :=
  match event with
  | .client _ ip => inferInstanceAs (Decidable (process.RoomFor ip))
  | .frame _ => inferInstanceAs (Decidable (_ → _ → _ → _))

theorem roomFor_iff_scan {process : Process} {ip : IpText} :
    process.RoomFor ip ↔ (scan process.cache ip).isSome = true := by
  have hscan : (scan process.cache ip).isSome = true ↔ _ :=
    scan_isSome_iff
  exact hscan.symm

theorem not_roomFor_of_scan
    {process : Process} {ip : IpText}
    (hscan : scan process.cache ip = none) :
    ¬ process.RoomFor ip := by
  rw [roomFor_iff_scan, hscan]
  decide

/-! ## What one event writes -/

/-- At most one entry of the cache is written, and in the cache. -/
structure Process.Stored (process : Process) (ip : IpText)
    (next : Process) : Prop where
  cache : Stores process.cache ip next.cache
  overrun : next.overrun = process.overrun

theorem Process.Stored.trans
    {process middle next : Process} {ip : IpText}
    (hpacked : Packed process.cache)
    (hfirst : process.Stored ip middle) (hsecond : middle.Stored ip next) :
    process.Stored ip next where
  cache := hfirst.cache.trans hpacked hsecond.cache
  overrun := hsecond.overrun.trans hfirst.overrun

theorem insertIntoCache_stored
    {process next : Process} {svd : ServerDetails} {fd : ℤ}
    (hinsert : process.insertIntoCache svd fd = some next) :
    process.Stored svd.ip next ∧ process.RoomFor svd.ip := by
  obtain ⟨i, hscan, hnext⟩ := Option.map_eq_some_iff.mp hinsert
  subst hnext
  refine ⟨⟨.put hscan rfl rfl, rfl⟩, ?_⟩
  rw [roomFor_iff_scan, hscan]
  rfl

theorem overrun_replyFrom (process : Process) (i : Fin 40) (fd : ℤ) :
    (process.replyFrom i fd).overrun = process.overrun := by
  rw [replyFrom_eq]

theorem sendReply_stored
    {process next : Process} {ip : IpText} {fd : ℤ}
    (hreply : process.sendReply ip fd = some next) :
    process.Stored ip next ∧ process.RoomFor ip := by
  unfold Process.sendReply at hreply
  split at hreply
  next i hscan =>
    split at hreply
    next hfilled =>
      simp only [Option.some.injEq] at hreply
      subst hreply
      have hip : (process.cache i).ip = ip := by
        have hstop := (scan_eq_some_iff.mp hscan).1
        have hused : KeyedSlot.filled (process.cache i) = true := hfilled
        simp only [hused, Bool.true_eq_false, false_or] at hstop
        exact hstop
      refine ⟨⟨?_, overrun_replyFrom process i fd⟩, ⟨i, .inr hip⟩⟩
      exact Stores.put hscan hip hfilled
    next => contradiction
  next => contradiction

theorem updateResponseInCache_stored
    {process next : Process} (hpacked : Packed process.cache)
    {frame : ArpReqReply}
    (hupdate : process.updateResponseInCache frame = some next) :
    process.Stored frame.senderIp next := by
  obtain ⟨i, hall, hnext⟩ := Option.map_eq_some_iff.mp hupdate
  subst hnext
  have hip : (process.cache i).ip = frame.senderIp :=
    (scanAll_eq_some_iff.mp hall).1
  exact ⟨.put (scan_of_scanAll hpacked hall) hip rfl, rfl⟩

/-- An event with room for its IP writes at most one entry, and any other
one writes past the end. -/
inductive Process.Touches (process : Process) (event : ArpEvent)
    (next : Process) : Prop
  | stored (hroom : process.HasRoom event)
      (hstored : process.Stored event.ip next)
  | overran (hfull : ¬ process.HasRoom event)
      (hcache : next.cache = process.cache) (hoverrun : next.overrun = true)

theorem serveClient_touches
    (process : Process) (connfd : ℤ) (ip : IpText) :
    process.Touches (.client connfd ip) (process.serveClient connfd ip) := by
  simp only [Process.serveClient]
  cases hreply : (process.accept connfd ip).sendReply ip connfd with
  | some next =>
      obtain ⟨hstored, hroom⟩ := sendReply_stored hreply
      exact .stored hroom ⟨hstored.cache, hstored.overrun⟩
  | none =>
      simp only [Option.getD_none, Process.sendReq, Process.orOverrun]
      cases hinsert : (process.accept connfd ip).insertIntoCache
          ⟨ip, zeroMac, 0⟩ connfd with
      | some inserted =>
          obtain ⟨hstored, hroom⟩ := insertIntoCache_stored hinsert
          exact .stored hroom ⟨hstored.cache, hstored.overrun⟩
      | none =>
          have hscan := Option.map_eq_none_iff.mp hinsert
          exact .overran (not_roomFor_of_scan hscan) rfl rfl

theorem handleRequest_touches
    {process : Process} (hpacked : Packed process.cache)
    {frame : ArpReqReply}
    (hid : frame.identification = identification) (hop : frame.op = 1) :
    process.Touches (.frame frame) (process.handleRequest frame) := by
  unfold Process.handleRequest
  split
  next htarget =>
    simp only [Process.orOverrun]
    cases hinsert : process.insertIntoCache
        ⟨frame.senderIp, frame.senderEth, 0⟩ noFd with
    | some inserted =>
        obtain ⟨hstored, hroom⟩ := insertIntoCache_stored hinsert
        exact .stored (fun _ _ _ => hroom) ⟨hstored.cache, hstored.overrun⟩
    | none =>
        have hscan := Option.map_eq_none_iff.mp hinsert
        refine .overran ?_ rfl rfl
        intro hroom
        exact not_roomFor_of_scan hscan (hroom hid hop htarget)
  next hother =>
    have hroom : process.HasRoom (.frame frame) :=
      fun _ _ htarget => absurd htarget hother
    cases hupdate : process.updateResponseInCache frame with
    | some next =>
        exact .stored hroom (updateResponseInCache_stored hpacked hupdate)
    | none => exact .stored hroom ⟨.keep, rfl⟩

theorem handleResponse_stored
    {process : Process} (hpacked : Packed process.cache)
    (frame : ArpReqReply) :
    process.Stored frame.senderIp (process.handleResponse frame) := by
  have hupdated : process.Stored frame.senderIp
      ((process.updateResponseInCache frame).getD process) := by
    cases hupdate : process.updateResponseInCache frame with
    | some next => exact updateResponseInCache_stored hpacked hupdate
    | none => exact ⟨.keep, rfl⟩
  simp only [Process.handleResponse]
  generalize (process.updateResponseInCache frame).getD process = updated
    at hupdated ⊢
  cases hreply : updated.sendReply frame.senderIp (-1) with
  | some next => exact hupdated.trans hpacked (sendReply_stored hreply).1
  | none => exact hupdated

theorem step_touches
    {process next : Process} (hpacked : Packed process.cache)
    {event : ArpEvent} (hstep : process.step event = some next) :
    process.Touches event next := by
  cases step_runs hstep with
  | @client connfd ip => exact serveClient_touches process connfd ip
  | @ignored frame hignored =>
      refine .stored ?_ ⟨.keep, rfl⟩
      intro hid hop
      exact absurd hop (hignored hid).1
  | request hid hop => exact handleRequest_touches hpacked hid hop
  | @response frame hid hop =>
      refine .stored ?_ (handleResponse_stored hpacked frame)
      intro _ hrequest
      rw [hop] at hrequest
      cases hrequest

theorem bootEntry_stored
    {process : Process} {sv : ServerDetails}
    (hroom : process.RoomFor sv.ip) :
    process.Stored sv.ip (process.bootEntry sv) := by
  have hset : (process.setSource sv).cache = process.cache :=
    cache_setSource process sv
  have hoverrun : (process.setSource sv).overrun = process.overrun := by
    obtain ⟨_, _, _, hsource⟩ := setSource_eq process sv
    rw [hsource]
  simp only [Process.bootEntry, Process.orOverrun]
  cases hinsert : (process.setSource sv).insertIntoCache sv noFd with
  | some inserted =>
      have hstored := (insertIntoCache_stored hinsert).1
      exact ⟨hset ▸ hstored.cache, hstored.overrun.trans hoverrun⟩
  | none =>
      have hscan := Option.map_eq_none_iff.mp hinsert
      rw [hset] at hscan
      exact absurd hroom (not_roomFor_of_scan hscan)

/-! ## A bounded set of IPs -/

/-- Nothing was written past the end, and the entries are for IPs of the
set. -/
structure Process.Confined (process : Process) (ips : Finset IpText) :
    Prop where
  packed : Packed process.cache
  inside : process.overrun = false
  known : ∀ i, (process.cache i).filled = true →
    (process.cache i).ip ∈ ips

/-- An entry once filled stays filled and keeps its IP. -/
def Process.EntriesKept (process later : Process) : Prop :=
  ∀ i, (process.cache i).filled = true →
    (later.cache i).filled = true ∧
      (later.cache i).ip = (process.cache i).ip

theorem Process.EntriesKept.refl (process : Process) :
    process.EntriesKept process :=
  fun _ hfilled => ⟨hfilled, rfl⟩

theorem Process.EntriesKept.trans
    {process middle later : Process}
    (hfirst : process.EntriesKept middle)
    (hsecond : middle.EntriesKept later) :
    process.EntriesKept later := by
  intro i hfilled
  obtain ⟨hmiddle, hip⟩ := hfirst i hfilled
  obtain ⟨hlater, hip'⟩ := hsecond i hmiddle
  exact ⟨hlater, hip'.trans hip⟩

theorem Process.Stored.entriesKept
    {process next : Process} {ip : IpText}
    (hstored : process.Stored ip next) :
    process.EntriesKept next :=
  fun _ hfilled => hstored.cache.keeps hfilled

section Confined

variable {process next : Process} {ips : Finset IpText} {ip : IpText}

theorem Process.Confined.roomFor
    (hconfined : process.Confined ips) (hcard : ips.card ≤ 40)
    (hip : ip ∈ ips) :
    process.RoomFor ip := by
  rw [roomFor_iff_scan]
  exact hconfined.packed.scan_isSome hconfined.known hcard hip

theorem Process.Confined.stored
    (hconfined : process.Confined ips) (hip : ip ∈ ips)
    (hstored : process.Stored ip next) :
    next.Confined ips where
  packed := hstored.cache.packed hconfined.packed
  inside := hstored.overrun.trans hconfined.inside
  known := by
    intro i hfilled
    rcases hstored.cache.key_of_filled hfilled with hkey | ⟨hused, hkey⟩
    · have hnew : (next.cache i).ip = ip := hkey
      exact hnew ▸ hip
    · have hold : (next.cache i).ip = (process.cache i).ip := hkey
      exact hold ▸ hconfined.known i hused

theorem confined_zeroed (protocol : ℕ) (ips : Finset IpText) :
    (Process.zeroed protocol).Confined ips where
  packed := packed_empty
  inside := rfl
  known := by
    intro i hfilled
    cases hfilled

theorem Process.Confined.foldl
    {interfaces : List ServerDetails} (hcard : ips.card ≤ 40)
    (hips : ∀ sv ∈ interfaces, sv.ip ∈ ips)
    (hconfined : process.Confined ips) :
    (interfaces.foldl Process.bootEntry process).Confined ips ∧
      process.EntriesKept
        (interfaces.foldl Process.bootEntry process) := by
  induction interfaces generalizing process with
  | nil => exact ⟨hconfined, .refl process⟩
  | cons sv rest ih =>
      have hip : sv.ip ∈ ips := hips sv List.mem_cons_self
      have hstored := bootEntry_stored (hconfined.roomFor hcard hip)
      obtain ⟨hrest, hkept⟩ := ih
        (fun other hother => hips other (List.mem_cons_of_mem sv hother))
        (hconfined.stored hip hstored)
      exact ⟨hrest, hstored.entriesKept.trans hkept⟩

theorem confined_boot
    (protocol : ℕ) {svd : List ServerDetails} (hcard : ips.card ≤ 40)
    (hips : ∀ sv ∈ svd.take 20, sv.ip ∈ ips) :
    (boot protocol svd).Confined ips := by
  apply (Process.Confined.foldl hcard ?_ (confined_zeroed protocol ips)).1
  intro sv hsv
  exact hips sv (List.takeWhile_subset _ hsv)

theorem takeWhile_of_isPrefix
    {α : Type*} {first whole : List α} (hfirst : first <+: whole)
    (p : α → Bool) :
    first.takeWhile p <+: whole.takeWhile p := by
  obtain ⟨rest, rfl⟩ := hfirst
  rw [List.takeWhile_append]
  split
  next hall =>
    rw [(List.takeWhile_prefix p).eq_of_length hall]
    exact List.prefix_append _ _
  next => exact List.prefix_rfl

/-- `boot` with fewer interfaces is a state on the way to the whole boot. -/
theorem boot_take_entriesKept
    {protocol : ℕ} {svd : List ServerDetails} (hcard : ips.card ≤ 40)
    (hips : ∀ sv ∈ svd.take 20, sv.ip ∈ ips) (k : ℕ) :
    (boot protocol (svd.take k)).EntriesKept (boot protocol svd) := by
  have hfirst : (svd.take k).take 20 <+: svd.take 20 := by
    rw [List.take_take, min_comm, ← List.take_take]
    exact List.take_prefix k _
  obtain ⟨rest, hrest⟩ := takeWhile_of_isPrefix hfirst
    fun sv => decide (sv.ip ≠ emptyIp)
  have hsome : (boot protocol (svd.take k)).Confined ips := by
    apply confined_boot protocol hcard
    intro sv hsv
    exact hips sv (hfirst.subset hsv)
  have hwhole : boot protocol svd =
      rest.foldl Process.bootEntry (boot protocol (svd.take k)) := by
    simp only [boot, Process.bootCache]
    rw [← hrest, List.foldl_append]
  rw [hwhole]
  apply (hsome.foldl hcard ?_).2
  intro sv hsv
  apply hips sv
  apply List.takeWhile_subset fun sv => decide (sv.ip ≠ emptyIp)
  rw [← hrest]
  exact List.mem_append_right _ hsv

theorem Process.Confined.step
    {event : ArpEvent} (hconfined : process.Confined ips)
    (hcard : ips.card ≤ 40) (hip : event.ip ∈ ips)
    (hstep : process.step event = some next) :
    next.Confined ips ∧ process.EntriesKept next := by
  have hroom := hconfined.roomFor hcard hip
  cases step_touches hconfined.packed hstep with
  | stored _ hstored =>
      exact ⟨hconfined.stored hip hstored, hstored.entriesKept⟩
  | overran hfull =>
      -- no more IPs than entries, so there is room for this one
      refine absurd ?_ hfull
      cases event with
      | client connfd ip => exact hroom
      | frame frame => exact fun _ _ _ => hroom

end Confined

/-! ## The three loops -/

/-- All three loops find this entry for the IP. -/
structure Process.AllFind (process : Process) (ip : IpText) (i : Fin 40) :
    Prop where
  filled : (process.cache i).filled = true
  ip_eq : (process.cache i).ip = ip
  insert : ∀ (svd : ServerDetails) (fd : ℤ), svd.ip = ip →
    process.insertIntoCache svd fd =
      some (process.updateCacheEntry svd i fd)
  reply : ∀ fd : ℤ,
    process.sendReply ip fd = some (process.replyFrom i fd)
  update : ∀ frame : ArpReqReply, frame.senderIp = ip →
    process.updateResponseInCache frame =
      some ({ process with
        cache := Function.update process.cache i
          ((process.cache i).resolve frame.senderEth) }.learn
            frame.senderIp frame.senderEth)

/-- No loop finds an entry for the IP; `insert_into_cache` can only take an
unused one. -/
structure Process.NoneFinds (process : Process) (ip : IpText) : Prop where
  absent : ∀ i, (process.cache i).filled = true →
    (process.cache i).ip ≠ ip
  insert : ∀ (svd : ServerDetails) (fd : ℤ) (next : Process),
    svd.ip = ip → process.insertIntoCache svd fd = some next →
    ∃ i, (process.cache i).filled = false ∧
      next = process.updateCacheEntry svd i fd
  reply : ∀ fd : ℤ, process.sendReply ip fd = none
  update : ∀ frame : ArpReqReply, frame.senderIp = ip →
    process.updateResponseInCache frame = none

theorem allFind_of_scan
    {process : Process} {ip : IpText} {i : Fin 40}
    (hscan : scan process.cache ip = some i)
    (hfilled : (process.cache i).filled = true) :
    process.AllFind ip i where
  filled := hfilled
  ip_eq := (scanAll_eq_some_iff.mp (scanAll_of_scan hscan hfilled)).1
  insert := by
    intro svd fd hip
    rw [Process.insertIntoCache, hip, hscan]
    rfl
  reply := by
    intro fd
    simp only [Process.sendReply, hscan, if_pos hfilled]
  update := by
    intro frame hip
    rw [Process.updateResponseInCache, hip, scanAll_of_scan hscan hfilled]
    rfl

theorem exists_allFind
    {process : Process} {ip : IpText} {entry : ArpCacheDetails}
    (hentry : process.entry ip = some entry) :
    ∃ i, process.cache i = entry ∧ process.AllFind ip i := by
  obtain ⟨i, hscan, hslot⟩ := Option.bind_eq_some_iff.mp hentry
  split at hslot
  next hfilled =>
    exact ⟨i, Option.some.inj hslot, allFind_of_scan hscan hfilled⟩
  next => cases hslot

theorem noneFinds_of_entry
    {process : Process} (hpacked : Packed process.cache) {ip : IpText}
    (hip : ip ≠ emptyIp) (hnone : process.entry ip = none) :
    process.NoneFinds ip where
  absent := (lookup_eq_none_iff hpacked).mp hnone
  insert := by
    intro svd fd next hsvd hinsert
    obtain ⟨i, hscan, hnext⟩ := Option.map_eq_some_iff.mp hinsert
    rw [hsvd] at hscan
    refine ⟨i, ?_, hnext.symm⟩
    rcases lookup_of_scan hpacked hscan with hfound | hfree
    · have hsome : process.entry ip = some (process.cache i) := hfound.1
      rw [hnone] at hsome
      cases hsome
    · rw [hfree.2]
      rfl
  reply := by
    intro fd
    cases hreply : process.sendReply ip fd with
    | none => rfl
    | some next =>
        obtain ⟨entry, hreplies⟩ := sendReply_replies hpacked hreply
        rw [hreplies.found] at hnone
        cases hnone
  update := by
    intro frame hframe
    rw [Process.updateResponseInCache, hframe,
      scanAll_of_lookup_none hpacked hip hnone]
    rfl

structure Process.LookupsAgree (process : Process) : Prop where
  inside : process.overrun = false
  filled_first : ∀ i j, i ≤ j → (process.cache j).filled = true →
    (process.cache i).filled = true
  distinct : ∀ i j, (process.cache i).filled = true →
    (process.cache j).filled = true →
    (process.cache i).ip = (process.cache j).ip → i = j
  unfilled : ∀ i, (process.cache i).filled = false →
    (process.cache i).ip = emptyIp
  lookups : ∀ ip, ip ≠ emptyIp →
    (∃ i, process.AllFind ip i) ∨ process.NoneFinds ip

theorem Process.Confined.lookupsAgree
    {process : Process} {ips : Finset IpText}
    (hconfined : process.Confined ips) :
    process.LookupsAgree where
  inside := hconfined.inside
  filled_first := hconfined.packed.filled_of_le
  distinct := hconfined.packed.inj
  unfilled := by
    intro i hfree
    have hunused : process.cache i = unusedEntry :=
      hconfined.packed.eq_empty i hfree
    rw [hunused]
    rfl
  lookups := by
    intro ip hip
    cases hentry : process.entry ip with
    | none => exact .inr (noneFinds_of_entry hconfined.packed hip hentry)
    | some entry =>
        obtain ⟨i, _, hfind⟩ := exists_allFind hentry
        exact .inl ⟨i, hfind⟩

/-- The events of a run in which only IPs of a set occur. -/
def AmongIps (ips : Finset IpText) (_ : Process) (event : ArpEvent) :
    Prop :=
  event.ip ∈ ips

instance (ips : Finset IpText) (process : Process) (event : ArpEvent) :
    Decidable (AmongIps ips process event) :=
  inferInstanceAs (Decidable (_ ∈ _))

theorem Process.Confined.run
    {process later : Process} {ips : Finset IpText}
    (hconfined : process.Confined ips) (hcard : ips.card ≤ 40)
    (hrun : Transition.Run Process.step (AmongIps ips) process later) :
    later.Confined ips ∧ process.EntriesKept later := by
  refine hrun.invariant
    (fun later => later.Confined ips ∧ process.EntriesKept later)
    ⟨hconfined, .refl process⟩ ?_
  intro state event next hstate hip hstep
  obtain ⟨hnext, hkept⟩ := hstate.1.step hcard hip hstep
  exact ⟨hnext, hstate.2.trans hkept⟩

/-- In every run in which the interfaces, the clients and the senders of
frames name at most forty different IPs, the three loops agree, and entries
once filled are kept: those of every state of the boot and those of every
state of the run. -/
theorem cacheLookups_agree
    {ips : Finset IpText} (hcard : ips.card ≤ 40)
    {protocol : ℕ} {svd : List ServerDetails}
    (hsvd : ∀ sv ∈ svd.take 20, sv.ip ∈ ips) {process : Process}
    (hrun : Transition.Run Process.step (AmongIps ips)
      (boot protocol svd) process) :
    process.LookupsAgree ∧
    (∀ k, (boot protocol (svd.take k)).EntriesKept process) ∧
    ∀ later, Transition.Run Process.step (AmongIps ips) process later →
      process.EntriesKept later := by
  have hboot := confined_boot protocol hcard hsvd
  obtain ⟨hconfined, hkept⟩ := hboot.run hcard hrun
  refine ⟨hconfined.lookupsAgree, ?_, ?_⟩
  · intro k
    exact (boot_take_entriesKept hcard hsvd k).trans hkept
  · intro later hlater
    exact (hconfined.run hcard hlater).2

theorem cacheLookups_agree_afterReply :
    ∃ process, Transition.Run Process.step
        (AmongIps {hostInterface.ip, peerIp, emptyIp})
        (boot 7 [hostInterface]) process ∧
      (process.cache 1).ip = peerIp ∧ (process.cache 2).filled = true ∧
      process.LookupsAgree := by
  obtain ⟨process, hreach, htest⟩ :=
    Transition.exists_reachable_of_replay Process.step
      (AmongIps {hostInterface.ip, peerIp, emptyIp})
      (Eq.refl (boot 7 [hostInterface]))
      [.client 5 peerIp, .frame peerReply,
        .frame { peerReply with senderIp := emptyIp }]
      (fun state : Process => decide ((state.cache 1).ip = peerIp) &&
        (state.cache 2).filled)
      (by decide +kernel)
  simp only [Bool.and_eq_true, decide_eq_true_eq] at htest
  obtain ⟨start, hstart, hrun⟩ := hreach
  subst hstart
  exact ⟨process, hrun, htest.1, htest.2,
    (cacheLookups_agree (by decide) (by decide) hrun).1⟩

end NetworkProgramming.Arp
