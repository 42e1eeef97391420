import NetworkProgramming.ArpCache

/-!
# The invariant of the ARP process

In every reachable state the cache is packed, open connections have distinct
positive descriptors, a descriptor which waits in an entry is an open
connection whose client asked for the IP of the entry, and an entry holds an
address learned for its IP unless nothing was learned for that IP at all.
-/

namespace NetworkProgramming.Arp

open SlotTable

/-- The invariant of every run. -/
structure Process.Sound (process : Process) : Prop where
  packed : Packed process.cache
  nodup : (process.connections.map Connection.fd).Nodup
  positive : ∀ c ∈ process.connections, 0 < c.fd
  waiting : ∀ ip entry, process.entry ip = some entry →
    entry.fd ≠ noFd → ⟨entry.fd, ip⟩ ∈ process.connections
  cached : ∀ ip, ip ∈ process.learned.map Prod.fst →
    ∃ entry, process.entry ip = some entry
  resolved : ∀ ip entry, process.entry ip = some entry →
    (ip, entry.mac) ∈ process.learned ∨
      ip ∉ process.learned.map Prod.fst

/-- The invariant reads only the cache, the connections and what was
learned. -/
theorem Process.Sound.of_eq
    {process next : Process} (hsound : process.Sound)
    (hcache : next.cache = process.cache)
    (hconn : next.connections = process.connections)
    (hlearned : next.learned = process.learned) :
    next.Sound := by
  have hentry : next.entry = process.entry := by
    funext ip
    rw [Process.entry, Process.entry, hcache]
  constructor
  case packed =>
    rw [hcache]
    exact hsound.packed
  case nodup =>
    rw [hconn]
    exact hsound.nodup
  case positive =>
    rw [hconn]
    exact hsound.positive
  case waiting =>
    rw [hentry, hconn]
    exact hsound.waiting
  case cached =>
    rw [hentry, hlearned]
    exact hsound.cached
  case resolved =>
    rw [hentry, hlearned]
    exact hsound.resolved

/-! ## Connections -/

theorem Process.Sound.askedAt
    {process : Process} (hsound : process.Sound)
    {fd : ℤ} {ip : IpText} (hopen : ⟨fd, ip⟩ ∈ process.connections) :
    process.askedAt fd = some ip := by
  unfold Process.askedAt
  cases hfind : process.connections.find?
      (fun c => decide (c.fd = fd)) with
  | none =>
      have hnone := List.find?_eq_none.mp hfind _ hopen
      simp at hnone
  | some c =>
      have hmem := List.mem_of_find?_eq_some hfind
      have hfd : c.fd = fd := by simpa using List.find?_some hfind
      have heq := List.inj_on_of_nodup_map hsound.nodup hmem hopen hfd
      simp [heq]

theorem Process.Sound.askedAt_noFd
    {process : Process} (hsound : process.Sound) :
    process.askedAt noFd = none := by
  unfold Process.askedAt
  rw [Option.map_eq_none_iff, List.find?_eq_none]
  intro c hc
  have hpos := hsound.positive c hc
  have hne : c.fd ≠ noFd := hpos.ne'
  simp [hne]

theorem Process.Sound.accept
    {process : Process} (hsound : process.Sound)
    {connfd : ℤ} (ip : IpText) (hpos : 0 < connfd)
    (hfresh : connfd ∉ process.connections.map Connection.fd) :
    (process.accept connfd ip).Sound where
  packed := hsound.packed
  nodup := by
    simp only [Process.accept, List.map_cons, List.nodup_cons]
    exact ⟨hfresh, hsound.nodup⟩
  positive := by
    intro c hc
    simp only [Process.accept, List.mem_cons] at hc
    rcases hc with rfl | hc
    · exact hpos
    · exact hsound.positive c hc
  waiting := by
    intro other entry hentry hfd
    exact List.mem_cons_of_mem _ (hsound.waiting other entry hentry hfd)
  cached := hsound.cached
  resolved := hsound.resolved

/-! ## Changes of the map -/

theorem Process.Sound.waiting_puts
    {process next : Process} {ip : IpText} {entry : ArpCacheDetails}
    (hsound : process.Sound) (hputs : process.Puts next ip entry)
    (hfd : entry.fd ≠ noFd → ⟨entry.fd, ip⟩ ∈ process.connections)
    {other : IpText} {found : ArpCacheDetails}
    (hfound : next.entry other = some found) (hwaits : found.fd ≠ noFd) :
    ⟨found.fd, other⟩ ∈ process.connections := by
  by_cases hother : other = ip
  · subst hother
    rw [hputs.entry_self, Option.some.injEq] at hfound
    subst hfound
    exact hfd hwaits
  · rw [hputs.entry_of_ne hother] at hfound
    exact hsound.waiting other found hfound hwaits

/-- `send_req` makes an entry for an IP which had none. -/
theorem Process.Sound.place
    {process next : Process} {ip : IpText} {entry : ArpCacheDetails}
    (hsound : process.Sound) (hputs : process.Puts next ip entry)
    (hnone : process.entry ip = none)
    (hfd : ⟨entry.fd, ip⟩ ∈ process.connections) :
    next.Sound := by
  have hlearned := hputs.learned_eq
  have hconn := hputs.connections_eq
  have hunlearned : ip ∉ process.learned.map Prod.fst := by
    intro hmem
    obtain ⟨old, hold⟩ := hsound.cached ip hmem
    rw [hnone] at hold
    contradiction
  constructor
  case packed => exact hputs.packed
  case nodup => exact hconn ▸ hsound.nodup
  case positive => exact hconn ▸ hsound.positive
  case waiting =>
    intro other found hfound hwaits
    rw [hconn]
    exact hsound.waiting_puts hputs (fun _ => hfd) hfound hwaits
  case cached =>
    intro other hmem
    by_cases hother : other = ip
    · exact ⟨entry, hother ▸ hputs.entry_self⟩
    · rw [hputs.entry_of_ne hother]
      exact hsound.cached other (hlearned ▸ hmem)
  case resolved =>
    intro other found hfound
    rw [hlearned]
    by_cases hother : other = ip
    · exact .inr (hother ▸ hunlearned)
    · rw [hputs.entry_of_ne hother] at hfound
      exact hsound.resolved other found hfound

/-- Boot, `handle_request` and `update_response_in_cache` put an address in
the cache. -/
theorem Process.Sound.learn
    {process next : Process} {ip : IpText} {entry : ArpCacheDetails}
    (hsound : process.Sound) (hputs : process.Puts next ip entry)
    (hfd : entry.fd ≠ noFd → ⟨entry.fd, ip⟩ ∈ process.connections) :
    (next.learn ip entry.mac).Sound := by
  have hlearned := hputs.learned_eq
  have hconn := hputs.connections_eq
  constructor
  case packed => exact hputs.packed
  case nodup =>
    change (next.connections.map Connection.fd).Nodup
    exact hconn ▸ hsound.nodup
  case positive =>
    change ∀ c ∈ next.connections, 0 < c.fd
    exact hconn ▸ hsound.positive
  case waiting =>
    intro other found hfound hwaits
    change _ ∈ next.connections
    rw [hconn]
    rw [entry_learn] at hfound
    exact hsound.waiting_puts hputs hfd hfound hwaits
  case cached =>
    intro other hmem
    rw [entry_learn]
    by_cases hother : other = ip
    · exact ⟨entry, hother ▸ hputs.entry_self⟩
    · simp only [Process.learn, List.map_cons, List.mem_cons, hother,
        false_or] at hmem
      rw [hputs.entry_of_ne hother]
      exact hsound.cached other (hlearned ▸ hmem)
  case resolved =>
    intro other found hfound
    rw [entry_learn] at hfound
    simp only [Process.learn, List.map_cons, List.mem_cons]
    by_cases hother : other = ip
    · subst hother
      rw [hputs.entry_self, Option.some.injEq] at hfound
      subst hfound
      exact .inl (.inl rfl)
    · rw [hputs.entry_of_ne hother] at hfound
      rw [hlearned]
      rcases hsound.resolved other found hfound with hin | hout
      · exact .inl (.inr hin)
      · exact .inr fun hmem => hmem.elim hother hout

/-- The descriptor closed by `send_reply` waits in no other entry. -/
theorem Process.Sound.reply
    {process next : Process} {ip : IpText} {entry : ArpCacheDetails}
    {fd : ℤ} (hsound : process.Sound)
    (hreply : process.Replies next ip entry fd) :
    next.Sound := by
  have hsub : next.connections.Sublist process.connections := by
    rw [hreply.connections]
    split
    · exact List.filter_sublist
    · exact List.Sublist.refl _
  have hentry : ∀ other, other ≠ ip →
      next.entry other = process.entry other := by
    intro other hother
    rw [hreply.entry_eq, if_neg hother]
  have hself : next.entry ip = some entry.release := by
    rw [hreply.entry_eq, if_pos rfl]
  constructor
  case packed => exact hreply.packed
  case nodup => exact hsound.nodup.sublist (hsub.map _)
  case positive => exact fun c hc => hsound.positive c (hsub.subset hc)
  case waiting =>
    intro other found hfound hwaits
    by_cases hother : other = ip
    · subst hother
      rw [hself, Option.some.injEq] at hfound
      subst hfound
      contradiction
    · rw [hentry other hother] at hfound
      have hopen := hsound.waiting other found hfound hwaits
      rw [hreply.connections]
      split
      next hpos =>
        have hclosed := hsound.waiting ip entry hreply.found hpos.ne'
        have hne : found.fd ≠ entry.fd := by
          intro heq
          have hsame := List.inj_on_of_nodup_map hsound.nodup hopen
            hclosed heq
          exact hother (Connection.mk.inj hsame).2
        exact List.mem_filter.mpr ⟨hopen, by simpa using hne⟩
      next => exact hopen
  case cached =>
    intro other hmem
    rw [hreply.learned_eq] at hmem
    by_cases hother : other = ip
    · exact ⟨entry.release, hother ▸ hself⟩
    · rw [hentry other hother]
      exact hsound.cached other hmem
  case resolved =>
    intro other found hfound
    rw [hreply.learned_eq]
    by_cases hother : other = ip
    · subst hother
      rw [hself, Option.some.injEq] at hfound
      subst hfound
      exact hsound.resolved other entry hreply.found
    · rw [hentry other hother] at hfound
      exact hsound.resolved other found hfound

/-- An update from a frame keeps the descriptor, which is still open. -/
theorem Process.Sound.resolve
    {process updated : Process} {ip : IpText} {old : ArpCacheDetails}
    {mac : Mac} (hsound : process.Sound)
    (hold : process.entry ip = some old ∨
      process.entry ip = none ∧ old = unusedEntry)
    (hputs : process.Puts updated ip (old.resolve mac)) :
    (updated.learn ip mac).Sound := by
  refine hsound.learn hputs ?_
  intro hwaits
  rcases hold with hold | ⟨_, hold⟩
  · exact hsound.waiting ip old hold hwaits
  · subst hold
    contradiction

theorem Process.Sound.effect
    {process next : Process} {event : ArpEvent}
    (hsound : process.Sound) (heffect : process.Effect event next) :
    next.Sound := by
  cases heffect with
  | idle => exact hsound
  | overrunFrame => exact hsound.of_eq rfl rfl rfl
  | @overrunClient connfd ip hpos hfresh =>
      exact (hsound.accept ip hpos hfresh).of_eq rfl rfl rfl
  | answer hpos hfresh hreply =>
      exact (hsound.accept _ hpos hfresh).reply hreply
  | request hpos hfresh hnone hputs =>
      have hplaced := (hsound.accept _ hpos hfresh).place hputs hnone
        List.mem_cons_self
      exact hplaced.of_eq rfl rfl rfl
  | introduce hid hop htarget hputs =>
      have hlearned := hsound.learn hputs fun hwaits => absurd rfl hwaits
      exact hlearned.of_eq rfl rfl rfl
  | overhear hold hputs => exact hsound.resolve hold hputs
  | resolve hold hputs hreply =>
      exact (hsound.resolve hold hputs).reply hreply

/-! ## Boot -/

theorem sound_zeroed (protocol : ℕ) :
    (Process.zeroed protocol).Sound := by
  have hnone : ∀ ip, (Process.zeroed protocol).entry ip = none :=
    fun ip => lookup_empty ip
  constructor
  case packed => exact packed_empty
  case nodup => exact List.nodup_nil
  case positive => exact fun c hc => absurd hc List.not_mem_nil
  case waiting =>
    intro ip entry hentry
    rw [hnone] at hentry
    contradiction
  case cached => exact fun ip hip => absurd hip List.not_mem_nil
  case resolved =>
    intro ip entry hentry
    rw [hnone] at hentry
    contradiction

theorem Process.Sound.setSource
    {process : Process} (hsound : process.Sound) (svd : ServerDetails) :
    (process.setSource svd).Sound := by
  obtain ⟨_, _, _, hset⟩ := setSource_eq process svd
  rw [hset]
  exact hsound.of_eq rfl rfl rfl

theorem Process.Sound.bootEntry
    {process : Process} (hsound : process.Sound) (svd : ServerDetails) :
    (process.bootEntry svd).Sound := by
  have hset := hsound.setSource svd
  rcases bootEntry_cases hsound.packed svd with
    ⟨inserted, hputs, hboot⟩ | ⟨_, hboot⟩
  · rw [hboot]
    exact hset.learn hputs fun hwaits => absurd rfl hwaits
  · rw [hboot]
    exact hset.of_eq rfl rfl rfl

theorem sound_boot (protocol : ℕ) (svd : List ServerDetails) :
    (boot protocol svd).Sound :=
  boot_invariant Process.Sound svd (sound_zeroed protocol)
    fun _ sv hsound => hsound.bootEntry sv

theorem bootEntry_keeps
    {process : Process} (hsound : process.Sound) (svd : ServerDetails) :
    (process.bootEntry svd).written = process.written ∧
      (process.bootEntry svd).connections = process.connections := by
  obtain ⟨_, _, _, hset⟩ := setSource_eq process svd
  rcases bootEntry_cases hsound.packed svd with
    ⟨inserted, hputs, hboot⟩ | ⟨_, hboot⟩
  · have hwritten := hputs.written_eq
    have hconn := hputs.connections_eq
    rw [hset] at hwritten hconn
    rw [hboot]
    exact ⟨hwritten, hconn⟩
  · rw [hboot, hset]
    exact ⟨rfl, rfl⟩

/-- No client comes before the end of the boot. -/
theorem boot_untouched (protocol : ℕ) (svd : List ServerDetails) :
    (boot protocol svd).written = [] ∧
      (boot protocol svd).connections = [] := by
  have hboot := boot_invariant
    (fun process => process.Sound ∧
      process.written = [] ∧ process.connections = []) svd
    ⟨sound_zeroed protocol, rfl, rfl⟩
    (by
      intro process sv hprocess
      obtain ⟨hsound, hwritten, hconn⟩ := hprocess
      obtain ⟨hwritten', hconn'⟩ := bootEntry_keeps hsound sv
      exact ⟨hsound.bootEntry sv, hwritten'.trans hwritten,
        hconn'.trans hconn⟩)
  exact hboot.2

theorem boot_initial (protocol : ℕ) (svd : List ServerDetails) :
    (boot protocol svd).Initial :=
  ⟨protocol, svd, rfl⟩

theorem sound_of_reachable
    {Allowed : Process → ArpEvent → Prop} {process : Process}
    (hreach : Transition.Reachable Process.step Allowed Process.Initial
      process) :
    process.Sound := by
  refine hreach.invariant Process.Sound ?_ ?_
  · intro start hinit
    obtain ⟨protocol, svd, rfl⟩ := hinit
    exact sound_boot protocol svd
  · intro state event next hsound _ hstep
    exact hsound.effect (step_effect hsound.packed hstep)

end NetworkProgramming.Arp
