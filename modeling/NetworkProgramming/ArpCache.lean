import NetworkProgramming.ArpProcess

/-!
# The ARP cache as a map

The three loops over the cache have two different stopping rules.  On a
packed cache they all read and write the same map from IPs to entries, and
the effect of each function of the process is stated on that map.
-/

namespace NetworkProgramming.Arp

open SlotTable

/-! ## Single operations -/

@[simp]
theorem entry_learn (process : Process) (ip other : IpText) (mac : Mac) :
    (process.learn ip mac).entry other = process.entry other :=
  rfl

@[simp]
theorem entry_accept
    (process : Process) (fd : ℤ) (ip other : IpText) :
    (process.accept fd ip).entry other = process.entry other :=
  rfl

/-- `next` differs from `process` only in the cache, which is still packed
and now maps `ip` to `entry`. -/
structure Process.Puts (process next : Process) (ip : IpText)
    (entry : ArpCacheDetails) : Prop where
  packed : Packed next.cache
  entry_eq : ∀ other, next.entry other =
    if other = ip then some entry else process.entry other
  rest : next = { process with cache := next.cache }

theorem Process.Puts.entry_self
    {process next : Process} {ip : IpText} {entry : ArpCacheDetails}
    (hputs : process.Puts next ip entry) :
    next.entry ip = some entry := by
  rw [hputs.entry_eq, if_pos rfl]

theorem Process.Puts.entry_of_ne
    {process next : Process} {ip other : IpText} {entry : ArpCacheDetails}
    (hputs : process.Puts next ip entry) (hne : other ≠ ip) :
    next.entry other = process.entry other := by
  rw [hputs.entry_eq, if_neg hne]

theorem Process.Puts.connections_eq
    {process next : Process} {ip : IpText} {entry : ArpCacheDetails}
    (h : process.Puts next ip entry) :
    next.connections = process.connections := by
  rw [h.rest]

theorem Process.Puts.written_eq
    {process next : Process} {ip : IpText} {entry : ArpCacheDetails}
    (h : process.Puts next ip entry) :
    next.written = process.written := by
  rw [h.rest]

theorem Process.Puts.sent_eq
    {process next : Process} {ip : IpText} {entry : ArpCacheDetails}
    (h : process.Puts next ip entry) :
    next.sent = process.sent := by
  rw [h.rest]

theorem Process.Puts.learned_eq
    {process next : Process} {ip : IpText} {entry : ArpCacheDetails}
    (h : process.Puts next ip entry) :
    next.learned = process.learned := by
  rw [h.rest]

theorem Process.Puts.srcIp_eq
    {process next : Process} {ip : IpText} {entry : ArpCacheDetails}
    (h : process.Puts next ip entry) :
    next.srcIp = process.srcIp := by
  rw [h.rest]

theorem Process.Puts.srcMac_eq
    {process next : Process} {ip : IpText} {entry : ArpCacheDetails}
    (h : process.Puts next ip entry) :
    next.srcMac = process.srcMac := by
  rw [h.rest]

theorem Process.Puts.srcIfindex_eq
    {process next : Process} {ip : IpText} {entry : ArpCacheDetails}
    (h : process.Puts next ip entry) :
    next.srcIfindex = process.srcIfindex := by
  rw [h.rest]

/-- Writing a filled entry where the scan for its IP stops. -/
theorem puts_update
    {process : Process} (hpacked : Packed process.cache)
    (entry : ArpCacheDetails) {i : Fin 40}
    (hscan : scan process.cache entry.ip = some i)
    (hfilled : entry.filled = true) :
    process.Puts
      { process with cache := Function.update process.cache i entry }
      entry.ip entry where
  packed := hpacked.update hscan hfilled
  entry_eq := lookup_update hpacked hscan hfilled
  rest := rfl

theorem insertIntoCache_puts
    {process next : Process} (hpacked : Packed process.cache)
    {svd : ServerDetails} {fd : ℤ}
    (hinsert : process.insertIntoCache svd fd = some next) :
    process.Puts next svd.ip ⟨svd.ip, svd.mac, svd.index, fd, true⟩ := by
  obtain ⟨i, hscan, rfl⟩ := Option.map_eq_some_iff.mp hinsert
  exact puts_update hpacked ⟨svd.ip, svd.mac, svd.index, fd, true⟩
    hscan rfl

/-- The update keeps the descriptor which waits in the entry.  The only IP
for which it can make a new entry is the empty one. -/
theorem updateResponseInCache_slot
    {process : Process} (hpacked : Packed process.cache)
    {frame : ArpReqReply} {i : Fin 40}
    (hall : scanAll process.cache frame.senderIp = some i) :
    ∃ updated, process.updateResponseInCache frame =
        some (updated.learn frame.senderIp frame.senderEth) ∧
      process.Puts updated frame.senderIp
        ((process.cache i).resolve frame.senderEth) ∧
      (process.entry frame.senderIp = some (process.cache i) ∨
        process.entry frame.senderIp = none ∧
          process.cache i = unusedEntry) := by
  have hip : (process.cache i).ip = frame.senderIp :=
    (scanAll_eq_some_iff.mp hall).1
  have hscan := scan_of_scanAll hpacked hall
  have hputs := puts_update hpacked
    ((process.cache i).resolve frame.senderEth) (hip ▸ hscan) rfl
  refine ⟨_, ?_, hip ▸ hputs, ?_⟩
  · rw [Process.updateResponseInCache, hall]
    rfl
  · rcases lookup_of_scan hpacked hscan with hfound | hfree
    · exact .inl hfound.1
    · exact .inr hfree

theorem updateResponseInCache_puts
    {process next : Process} (hpacked : Packed process.cache)
    {frame : ArpReqReply}
    (hupdate : process.updateResponseInCache frame = some next) :
    ∃ old updated, (process.entry frame.senderIp = some old ∨
        process.entry frame.senderIp = none ∧ old = unusedEntry) ∧
      process.Puts updated frame.senderIp (old.resolve frame.senderEth) ∧
      next = updated.learn frame.senderIp frame.senderEth := by
  obtain ⟨i, hall, _⟩ := Option.map_eq_some_iff.mp hupdate
  obtain ⟨updated, heq, hputs, hold⟩ :=
    updateResponseInCache_slot hpacked hall
  rw [heq, Option.some.injEq] at hupdate
  exact ⟨process.cache i, updated, hold, hputs, hupdate.symm⟩

theorem updateResponseInCache_none
    {process : Process} (hpacked : Packed process.cache)
    {frame : ArpReqReply}
    (hupdate : process.updateResponseInCache frame = none) :
    process.entry frame.senderIp = none :=
  lookup_of_scanAll_none hpacked (Option.map_eq_none_iff.mp hupdate)

/-! ## Answering a client -/

/-- What `send_reply` does with the entry it found. -/
structure Process.Replies (process next : Process) (ip : IpText)
    (entry : ArpCacheDetails) (fd : ℤ) : Prop where
  found : process.entry ip = some entry
  packed : Packed next.cache
  entry_eq : ∀ other, next.entry other =
    if other = ip then some entry.release else process.entry other
  written : next.written =
    ⟨fd, process.askedAt fd, entry.hwaddr⟩ :: process.written
  connections : next.connections =
    if 0 < entry.fd then
      process.connections.filter fun c => decide (c.fd ≠ entry.fd)
    else process.connections
  rest : next = { process with
    cache := next.cache
    connections := next.connections
    written := next.written }

theorem Process.Replies.sent_eq
    {process next : Process} {ip : IpText} {entry : ArpCacheDetails}
    {fd : ℤ} (h : process.Replies next ip entry fd) :
    next.sent = process.sent := by
  rw [h.rest]

theorem Process.Replies.learned_eq
    {process next : Process} {ip : IpText} {entry : ArpCacheDetails}
    {fd : ℤ} (h : process.Replies next ip entry fd) :
    next.learned = process.learned := by
  rw [h.rest]

theorem Process.Replies.srcIp_eq
    {process next : Process} {ip : IpText} {entry : ArpCacheDetails}
    {fd : ℤ} (h : process.Replies next ip entry fd) :
    next.srcIp = process.srcIp := by
  rw [h.rest]

theorem Process.Replies.srcMac_eq
    {process next : Process} {ip : IpText} {entry : ArpCacheDetails}
    {fd : ℤ} (h : process.Replies next ip entry fd) :
    next.srcMac = process.srcMac := by
  rw [h.rest]

theorem written_replyFrom (process : Process) (i : Fin 40) (fd : ℤ) :
    (process.replyFrom i fd).written =
      ⟨if fd ≠ -1 then fd else (process.cache i).fd,
        process.askedAt (if fd ≠ -1 then fd else (process.cache i).fd),
        (process.cache i).hwaddr⟩ :: process.written := by
  by_cases hwaits : 0 < (process.cache i).fd <;>
    simp only [Process.replyFrom, hwaits, if_true, if_false] <;> rfl

theorem connections_replyFrom (process : Process) (i : Fin 40) (fd : ℤ) :
    (process.replyFrom i fd).connections =
      if 0 < (process.cache i).fd then
        process.connections.filter fun c =>
          decide (c.fd ≠ (process.cache i).fd)
      else process.connections := by
  by_cases hwaits : 0 < (process.cache i).fd <;>
    simp only [Process.replyFrom, hwaits, if_true, if_false] <;> rfl

theorem replyFrom_eq (process : Process) (i : Fin 40) (fd : ℤ) :
    process.replyFrom i fd = { process with
      cache := (process.replyFrom i fd).cache
      connections := (process.replyFrom i fd).connections
      written := (process.replyFrom i fd).written } := by
  by_cases hwaits : 0 < (process.cache i).fd <;>
    simp only [Process.replyFrom, hwaits, if_true, if_false] <;> rfl

theorem sendReply_replies
    {process next : Process} (hpacked : Packed process.cache)
    {ip : IpText} {fd : ℤ}
    (hreply : process.sendReply ip fd = some next) :
    ∃ entry, process.Replies next ip entry
      (if fd ≠ -1 then fd else entry.fd) := by
  unfold Process.sendReply at hreply
  split at hreply
  next i hscan =>
    split at hreply
    next hfilled =>
      simp only [Option.some.injEq] at hreply
      subst hreply
      rcases lookup_of_scan hpacked hscan with hfound | hfree
      · have hip : (process.cache i).ip = ip := hfound.2
        have hputs := puts_update hpacked (process.cache i).release
          (hip ▸ hscan) hfilled
        refine ⟨process.cache i, hfound.1, hputs.packed, ?_, ?_, ?_, ?_⟩
        · intro other
          rw [← hip]
          exact hputs.entry_eq other
        · exact written_replyFrom process i fd
        · exact connections_replyFrom process i fd
        · exact replyFrom_eq process i fd
      · rw [hfree.2] at hfilled
        contradiction
    next => contradiction
  next => contradiction

theorem sendReply_none
    {process : Process} {ip : IpText} {fd : ℤ}
    (hreply : process.sendReply ip fd = none) :
    process.entry ip = none := by
  unfold Process.sendReply at hreply
  unfold Process.entry lookup
  split at hreply
  next i hscan =>
    split at hreply
    next => contradiction
    next hfree =>
      have hfree' : ¬ KeyedSlot.filled (process.cache i) = true := hfree
      simp [hscan, hfree']
  next hscan => simp [hscan]

/-! ## Boot -/

theorem setSource_eq (process : Process) (svd : ServerDetails) :
    ∃ mac ip index, process.setSource svd = { process with
      srcMac := mac
      srcIp := ip
      srcIfindex := index } := by
  unfold Process.setSource
  split
  · exact ⟨_, _, _, rfl⟩
  · exact ⟨_, _, _, rfl⟩

@[simp]
theorem cache_setSource (process : Process) (svd : ServerDetails) :
    (process.setSource svd).cache = process.cache := by
  obtain ⟨_, _, _, hset⟩ := setSource_eq process svd
  rw [hset]

@[simp]
theorem entry_setSource
    (process : Process) (svd : ServerDetails) (ip : IpText) :
    (process.setSource svd).entry ip = process.entry ip := by
  rw [Process.entry, Process.entry, cache_setSource]

/-- An interface is put in the cache unless the cache is full. -/
theorem bootEntry_cases
    {process : Process} (hpacked : Packed process.cache)
    (svd : ServerDetails) :
    (∃ inserted, (process.setSource svd).Puts inserted svd.ip
        ⟨svd.ip, svd.mac, svd.index, noFd, true⟩ ∧
      process.bootEntry svd = inserted.learn svd.ip svd.mac) ∨
    (scan process.cache svd.ip = none ∧
      process.bootEntry svd =
        { process.setSource svd with overrun := true }) := by
  have hset : Packed (process.setSource svd).cache := by
    rw [cache_setSource]
    exact hpacked
  simp only [Process.bootEntry, Process.orOverrun]
  cases hinsert : (process.setSource svd).insertIntoCache svd noFd with
  | none =>
      have hscan := Option.map_eq_none_iff.mp hinsert
      rw [cache_setSource] at hscan
      exact .inr ⟨hscan, rfl⟩
  | some inserted =>
      exact .inl ⟨inserted, insertIntoCache_puts hset hinsert, rfl⟩

/-- What holds of the zeroed globals and is kept by every interface holds
after boot. -/
theorem boot_invariant
    (Inv : Process → Prop) {protocol : ℕ} (svd : List ServerDetails)
    (hzeroed : Inv (Process.zeroed protocol))
    (hentry : ∀ process sv, Inv process → Inv (process.bootEntry sv)) :
    Inv (boot protocol svd) := by
  unfold boot Process.bootCache
  generalize (svd.take 20).takeWhile _ = interfaces
  generalize Process.zeroed protocol = process at hzeroed
  induction interfaces generalizing process with
  | nil => exact hzeroed
  | cons interface rest ih =>
      exact ih _ (hentry process interface hzeroed)

/-! ## What one event can do -/

/-- The effect of one event on a process with a packed cache.  Every property
of the runs is derived from these cases. -/
inductive Process.Effect (process : Process) : ArpEvent → Process → Prop
  | idle (frame : ArpReqReply) : process.Effect (.frame frame) process
  | overrunFrame (frame : ArpReqReply) :
      process.Effect (.frame frame) { process with overrun := true }
  | overrunClient {connfd : ℤ} {ip : IpText} (hpos : 0 < connfd)
      (hfresh : connfd ∉ process.connections.map Connection.fd) :
      process.Effect (.client connfd ip)
        { process.accept connfd ip with overrun := true }
  | answer {connfd : ℤ} {ip : IpText} {entry : ArpCacheDetails}
      {next : Process} (hpos : 0 < connfd)
      (hfresh : connfd ∉ process.connections.map Connection.fd)
      (hreply : (process.accept connfd ip).Replies next ip entry connfd) :
      process.Effect (.client connfd ip) next
  | request {connfd : ℤ} {ip : IpText} {inserted : Process}
      (hpos : 0 < connfd)
      (hfresh : connfd ∉ process.connections.map Connection.fd)
      (hnone : process.entry ip = none)
      (hputs : (process.accept connfd ip).Puts inserted ip
        ⟨ip, zeroMac, 0, connfd, true⟩) :
      process.Effect (.client connfd ip)
        (inserted.sendPacket broadcastMac
          { process.prepareArpReqReply 1 with targetIp := ip })
  | introduce {frame : ArpReqReply} {inserted : Process}
      (hid : frame.identification = identification) (hop : frame.op = 1)
      (htarget : process.srcIp = frame.targetIp)
      (hputs : process.Puts inserted frame.senderIp
        ⟨frame.senderIp, frame.senderEth, 0, noFd, true⟩) :
      process.Effect (.frame frame)
        ((inserted.learn frame.senderIp frame.senderEth).sendPacket
          frame.senderEth (process.replyTo frame))
  | overhear {frame : ArpReqReply} {old : ArpCacheDetails}
      {updated : Process}
      (hold : process.entry frame.senderIp = some old ∨
        process.entry frame.senderIp = none ∧ old = unusedEntry)
      (hputs : process.Puts updated frame.senderIp
        (old.resolve frame.senderEth)) :
      process.Effect (.frame frame)
        (updated.learn frame.senderIp frame.senderEth)
  | resolve {frame : ArpReqReply} {old : ArpCacheDetails}
      {updated next : Process}
      (hold : process.entry frame.senderIp = some old ∨
        process.entry frame.senderIp = none ∧ old = unusedEntry)
      (hputs : process.Puts updated frame.senderIp
        (old.resolve frame.senderEth))
      (hreply : (updated.learn frame.senderIp frame.senderEth).Replies next
        frame.senderIp (old.resolve frame.senderEth) old.fd) :
      process.Effect (.frame frame) next

theorem serveClient_cases
    {process : Process} (hpacked : Packed process.cache)
    {connfd : ℤ} (ip : IpText) (hpos : 0 < connfd) :
    (∃ entry, (process.accept connfd ip).Replies
      (process.serveClient connfd ip) ip entry connfd) ∨
    (process.entry ip = none ∧ (scan process.cache ip).isSome = true ∧
      ∃ inserted, (process.accept connfd ip).Puts inserted ip
          ⟨ip, zeroMac, 0, connfd, true⟩ ∧
        process.serveClient connfd ip = inserted.sendPacket broadcastMac
          { process.prepareArpReqReply 1 with targetIp := ip }) ∨
    (scan process.cache ip = none ∧ process.serveClient connfd ip =
      { process.accept connfd ip with overrun := true }) := by
  have haccept : Packed (process.accept connfd ip).cache := hpacked
  simp only [Process.serveClient]
  cases hreply : (process.accept connfd ip).sendReply ip connfd with
  | some next =>
      obtain ⟨entry, hreplies⟩ := sendReply_replies haccept hreply
      rw [if_pos (by omega)] at hreplies
      exact .inl ⟨entry, hreplies⟩
  | none =>
      have hnone := sendReply_none hreply
      simp only [Option.getD_none, Process.sendReq, Process.orOverrun]
      cases hinsert : (process.accept connfd ip).insertIntoCache
          ⟨ip, zeroMac, 0⟩ connfd with
      | none =>
          exact .inr (.inr ⟨Option.map_eq_none_iff.mp hinsert, rfl⟩)
      | some inserted =>
          obtain ⟨i, hscan, _⟩ := Option.map_eq_some_iff.mp hinsert
          exact .inr (.inl ⟨hnone, Option.isSome_iff_exists.mpr ⟨i, hscan⟩,
            inserted, insertIntoCache_puts haccept hinsert, rfl⟩)

theorem effect_serveClient
    {process : Process} (hpacked : Packed process.cache)
    {connfd : ℤ} (ip : IpText) (hpos : 0 < connfd)
    (hfresh : connfd ∉ process.connections.map Connection.fd) :
    process.Effect (.client connfd ip) (process.serveClient connfd ip) := by
  rcases serveClient_cases hpacked ip hpos with
    ⟨entry, hreplies⟩ | ⟨hnone, _, inserted, hputs, heq⟩ | ⟨_, heq⟩
  · exact .answer hpos hfresh hreplies
  · rw [heq]
    exact .request hpos hfresh hnone hputs
  · rw [heq]
    exact .overrunClient hpos hfresh

theorem handleRequest_cases
    {process : Process} (hpacked : Packed process.cache)
    (frame : ArpReqReply) :
    (process.srcIp = frame.targetIp ∧
      scan process.cache frame.senderIp = none ∧
      process.handleRequest frame = { process with overrun := true }) ∨
    (process.srcIp = frame.targetIp ∧
      ∃ inserted, process.Puts inserted frame.senderIp
          ⟨frame.senderIp, frame.senderEth, 0, noFd, true⟩ ∧
        process.handleRequest frame =
          (inserted.learn frame.senderIp frame.senderEth).sendPacket
            frame.senderEth (process.replyTo frame)) ∨
    (process.srcIp ≠ frame.targetIp ∧
      (process.handleRequest frame = process ∨
        ∃ old updated, (process.entry frame.senderIp = some old ∨
            process.entry frame.senderIp = none ∧ old = unusedEntry) ∧
          process.Puts updated frame.senderIp
            (old.resolve frame.senderEth) ∧
          process.handleRequest frame =
            updated.learn frame.senderIp frame.senderEth)) := by
  unfold Process.handleRequest
  split
  next htarget =>
    simp only [Process.orOverrun]
    cases hinsert : process.insertIntoCache
        ⟨frame.senderIp, frame.senderEth, 0⟩ noFd with
    | none =>
        exact .inl ⟨htarget, Option.map_eq_none_iff.mp hinsert, rfl⟩
    | some inserted =>
        exact .inr (.inl ⟨htarget, inserted,
          insertIntoCache_puts hpacked hinsert, rfl⟩)
  next hother =>
    refine .inr (.inr ⟨hother, ?_⟩)
    cases hupdate : process.updateResponseInCache frame with
    | none => exact .inl rfl
    | some next =>
        obtain ⟨old, updated, hold, hputs, rfl⟩ :=
          updateResponseInCache_puts hpacked hupdate
        exact .inr ⟨old, updated, hold, hputs, rfl⟩

theorem effect_handleRequest
    {process : Process} (hpacked : Packed process.cache)
    {frame : ArpReqReply}
    (hid : frame.identification = identification) (hop : frame.op = 1) :
    process.Effect (.frame frame) (process.handleRequest frame) := by
  rcases handleRequest_cases hpacked frame with
    ⟨_, _, heq⟩ | ⟨htarget, inserted, hputs, heq⟩ |
      ⟨_, heq | ⟨old, updated, hold, hputs, heq⟩⟩
  · rw [heq]
    exact .overrunFrame frame
  · rw [heq]
    exact .introduce hid hop htarget hputs
  · rw [heq]
    exact .idle frame
  · rw [heq]
    exact .overhear hold hputs

/-- A reply is looked for among all slots, the unused ones included. -/
theorem handleResponse_cases
    {process : Process} (hpacked : Packed process.cache)
    (frame : ArpReqReply) :
    (scanAll process.cache frame.senderIp = none ∧
      process.updateResponseInCache frame = none ∧
      process.entry frame.senderIp = none ∧
      process.handleResponse frame = process) ∨
    ∃ i updated, scanAll process.cache frame.senderIp = some i ∧
      process.updateResponseInCache frame =
        some (updated.learn frame.senderIp frame.senderEth) ∧
      (process.entry frame.senderIp = some (process.cache i) ∨
        process.entry frame.senderIp = none ∧
          process.cache i = unusedEntry) ∧
      process.Puts updated frame.senderIp
        ((process.cache i).resolve frame.senderEth) ∧
      (updated.learn frame.senderIp frame.senderEth).Replies
        (process.handleResponse frame) frame.senderIp
        ((process.cache i).resolve frame.senderEth)
        (process.cache i).fd := by
  simp only [Process.handleResponse]
  cases hall : scanAll process.cache frame.senderIp with
  | none =>
      have hupdate : process.updateResponseInCache frame = none := by
        rw [Process.updateResponseInCache, hall]
        rfl
      have hnone := updateResponseInCache_none hpacked hupdate
      refine .inl ⟨rfl, hupdate, hnone, ?_⟩
      rw [hupdate, Option.getD_none]
      cases hreply : process.sendReply frame.senderIp (-1) with
      | none => rfl
      | some next =>
          obtain ⟨entry, hreplies⟩ := sendReply_replies hpacked hreply
          rw [hreplies.found] at hnone
          contradiction
  | some i =>
      obtain ⟨updated, hupdate, hputs, hold⟩ :=
        updateResponseInCache_slot hpacked hall
      have hlearn : Packed
          (updated.learn frame.senderIp frame.senderEth).cache :=
        hputs.packed
      refine .inr ⟨i, updated, rfl, hupdate, hold, hputs, ?_⟩
      rw [hupdate, Option.getD_some]
      cases hreply : (updated.learn frame.senderIp
          frame.senderEth).sendReply frame.senderIp (-1) with
      | none =>
          have hnone := sendReply_none hreply
          rw [entry_learn, hputs.entry_self] at hnone
          contradiction
      | some next =>
          obtain ⟨entry, hreplies⟩ := sendReply_replies hlearn hreply
          have hfound := hreplies.found
          rw [entry_learn, hputs.entry_self, Option.some.injEq] at hfound
          subst hfound
          exact hreplies

theorem effect_handleResponse
    {process : Process} (hpacked : Packed process.cache)
    (frame : ArpReqReply) :
    process.Effect (.frame frame) (process.handleResponse frame) := by
  rcases handleResponse_cases hpacked frame with
    ⟨_, _, _, heq⟩ | ⟨i, updated, _, _, hold, hputs, hreplies⟩
  · rw [heq]
    exact .idle frame
  · exact .resolve hold hputs hreplies

/-- The function which serves an event. -/
inductive Process.Runs (process : Process) : ArpEvent → Process → Prop
  | client {connfd : ℤ} {ip : IpText} (hpos : 0 < connfd)
      (hfresh : connfd ∉ process.connections.map Connection.fd) :
      process.Runs (.client connfd ip) (process.serveClient connfd ip)
  | ignored {frame : ArpReqReply}
      (hignored : frame.identification = identification →
        frame.op ≠ 1 ∧ frame.op ≠ 2) :
      process.Runs (.frame frame) process
  | request {frame : ArpReqReply}
      (hid : frame.identification = identification) (hop : frame.op = 1) :
      process.Runs (.frame frame) (process.handleRequest frame)
  | response {frame : ArpReqReply}
      (hid : frame.identification = identification) (hop : frame.op = 2) :
      process.Runs (.frame frame) (process.handleResponse frame)

theorem step_runs
    {process next : Process} {event : ArpEvent}
    (hstep : process.step event = some next) :
    process.Runs event next := by
  cases event with
  | client connfd ip =>
      simp only [Process.step, Option.ite_none_right_eq_some,
        Option.some.injEq] at hstep
      rcases hstep with ⟨⟨_, hpos, hfresh⟩, rfl⟩
      exact .client hpos hfresh
  | frame frame =>
      simp only [Process.step, Option.ite_none_right_eq_some,
        Option.some.injEq] at hstep
      rcases hstep with ⟨_, rfl⟩
      unfold Process.processFrame
      split
      next hforeign => exact .ignored fun hid => absurd hid hforeign
      next hid =>
        have hid' : frame.identification = identification :=
          not_not.mp hid
        split
        next hop => exact .request hid' hop
        next hrequest =>
          split
          next hop => exact .response hid' hop
          next hreply => exact .ignored fun _ => ⟨hrequest, hreply⟩

theorem step_running
    {process next : Process} {event : ArpEvent}
    (hstep : process.step event = some next) :
    process.overrun = false := by
  cases event with
  | client connfd ip =>
      simp only [Process.step, Option.ite_none_right_eq_some] at hstep
      exact hstep.1.1
  | frame frame =>
      simp only [Process.step, Option.ite_none_right_eq_some] at hstep
      exact hstep.1

theorem step_client
    {process : Process} (hrunning : process.overrun = false)
    {connfd : ℤ} (hpos : 0 < connfd)
    (hfresh : connfd ∉ process.connections.map Connection.fd)
    (ip : IpText) :
    process.step (.client connfd ip) =
      some (process.serveClient connfd ip) := by
  rw [Process.step, if_pos ⟨hrunning, hpos, hfresh⟩]

theorem step_frame
    {process : Process} (hrunning : process.overrun = false)
    (frame : ArpReqReply) :
    process.step (.frame frame) = some (process.processFrame frame) := by
  rw [Process.step, if_pos hrunning]

/-- The one place where the functions of the process are unfolded. -/
theorem step_effect
    {process next : Process} (hpacked : Packed process.cache)
    {event : ArpEvent} (hstep : process.step event = some next) :
    process.Effect event next := by
  cases step_runs hstep with
  | @client connfd ip hpos hfresh =>
      exact effect_serveClient hpacked ip hpos hfresh
  | @ignored frame hignored => exact .idle frame
  | request hid hop => exact effect_handleRequest hpacked hid hop
  | @response frame hid hop => exact effect_handleResponse hpacked frame

end NetworkProgramming.Arp
