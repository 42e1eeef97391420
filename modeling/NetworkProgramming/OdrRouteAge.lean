import NetworkProgramming.OdrStale

/-!
# The age of the routes in use

The main loop gives `select` a timeout of `staleness` seconds and clears the
whole table when it runs out.  Every frame and every client request starts
the timeout again, and a row keeps the time at which it was made when it is
refreshed.  So nothing ties the age of a row to the timeout: a row is as old
as the first route frame of its IP since the table was cleared, and it was
refreshed at the last one with a new broadcast id, or later.  Whether a route
is used in time depends on when these frames came.

One node is considered, with frames and requests of any content.
-/

namespace NetworkProgramming.Odr

open SlotTable

/-- A route request or reply which a node received. -/
structure RouteFrame where
  time : ℕ
  srcIp : IpText
  bcId : ℕ
  deriving DecidableEq

/-- A node, the time at which its main loop called `select` last, and its
history: the route frames since the table was cleared, newest first, and for
each IP the time at which its row was made or refreshed last. -/
structure Clocked where
  node : Node
  idle : ℕ
  heard : List RouteFrame
  refreshed : IpText → ℕ

/-- A frame arrives at the time in `outside`; the node is done with it at
`done`, which is later only when it asks its server. -/
inductive ClockedEvent where
  | frame (frame : Frame) (outside : Outside) (done : ℕ)
  | client (peer : PeerInfo) (now : ℕ)
  | timeout

def ClockedEvent.outcome (event : ClockedEvent) (node : Node) : Outcome :=
  match event with
  | .frame received outside _ => node.processFrame received outside
  | .client peer _ => node.clientRequest peer
  | .timeout => ⟨node.initRoutingTable, [], none⟩

/-- The time at which the event makes the node send, and at which the next
`select` starts. -/
def Clocked.finish (clocked : Clocked) (staleness : ℕ) : ClockedEvent → ℕ
  | .frame _ _ done => done
  | .client _ now => now
  | .timeout => clocked.idle + staleness

/-- A route frame of another node; one with an empty source makes no row. -/
def Node.hears (node : Node) (header : FrameHead) : Bool :=
  !header.isPayload && !node.owns header.srcIp &&
    decide (header.srcIp ≠ emptyIp)

def Node.heardWith (node : Node) (header : FrameHead) (now : ℕ)
    (heard : List RouteFrame) : List RouteFrame :=
  if node.hears header then ⟨now, header.srcIp, header.bcId⟩ :: heard
  else heard

def Node.refreshedWith (node : Node) (header : FrameHead) (now : ℕ)
    (refreshed : IpText → ℕ) : IpText → ℕ :=
  if node.updates header then Function.update refreshed header.srcIp now
  else refreshed

def Clocked.heardAfter (clocked : Clocked) :
    ClockedEvent → List RouteFrame
  | .frame frame outside _ =>
      clocked.node.heardWith frame.header outside.now clocked.heard
  | .client peer _ =>
      if clocked.node.clears peer then [] else clocked.heard
  | .timeout => []

def Clocked.refreshedAfter (clocked : Clocked) :
    ClockedEvent → IpText → ℕ
  | .frame frame outside _ =>
      clocked.node.refreshedWith frame.header outside.now clocked.refreshed
  | .client _ _ => clocked.refreshed
  | .timeout => clocked.refreshed

/-- Input comes before `select` times out. -/
def Clocked.InTime (clocked : Clocked) (staleness now : ℕ) : Prop :=
  clocked.idle ≤ now ∧ now ≤ clocked.idle + staleness

instance (clocked : Clocked) (staleness now : ℕ) :
    Decidable (clocked.InTime staleness now) :=
  inferInstanceAs (Decidable (_ ∧ _))

def Clocked.Enabled (clocked : Clocked) (staleness : ℕ) :
    ClockedEvent → Prop
  | .frame frame outside done => clocked.InTime staleness outside.now ∧
      outside.now ≤ done ∧
      (clocked.node.serves frame = false → done = outside.now)
  | .client _ now => clocked.InTime staleness now
  | .timeout => True

instance (clocked : Clocked) (staleness : ℕ) (event : ClockedEvent) :
    Decidable (clocked.Enabled staleness event) :=
  match event with
  | .frame _ _ _ => inferInstanceAs (Decidable (_ ∧ _ ∧ (_ → _)))
  | .client _ _ => inferInstanceAs (Decidable (_ ∧ _))
  | .timeout => inferInstanceAs (Decidable True)

def Clocked.step (staleness : ℕ) (clocked : Clocked)
    (event : ClockedEvent) : Option Clocked :=
  if clocked.node.overrun = false ∧ clocked.Enabled staleness event then
    some ⟨(event.outcome clocked.node).node,
      clocked.finish staleness event, clocked.heardAfter event,
      clocked.refreshedAfter event⟩
  else none

def Clocked.Initial (clocked : Clocked) : Prop :=
  ∃ serv start, clocked = ⟨Node.start serv, start, [], fun _ => 0⟩

/-! ## Fresh routes -/

/-- The time of the first route frame of the IP. -/
def firstHeard (ip : IpText) : List RouteFrame → Option ℕ
  | [] => none
  | frame :: earlier => (firstHeard ip earlier).or
      (if frame.srcIp = ip then some frame.time else none)

/-- The time of the last route frame of the IP whose broadcast id was larger
than all before it. -/
def lastNews (ip : IpText) : List RouteFrame → Option ℕ
  | [] => none
  | frame :: earlier =>
      if frame.srcIp = ip ∧
          ∀ other ∈ earlier, other.srcIp = ip → other.bcId < frame.bcId then
        some frame.time
      else lastNews ip earlier

/-- The IPs for which the event makes `send_payload` and `send_rrep` look for
a row that was there before it. -/
def Node.looksUp (node : Node) : ClockedEvent → List IpText
  | .frame frame outside _ =>
      if (node.nextTable frame outside.now).isNone then []
      else node.routesFor frame.header
  | .client peer _ =>
      if node.routesRequest peer then [peer.destIp] else []
  | .timeout => []

/-- If the IP was heard of since the table was cleared, it was first heard of
at most `staleness` seconds before `time`. -/
def Clocked.FirstHeardLately (clocked : Clocked) (staleness time : ℕ)
    (ip : IpText) : Prop :=
  ∀ first ∈ firstHeard ip clocked.heard, time ≤ first + staleness

/-- If the IP was heard of since the table was cleared, it announced itself
with a new broadcast id at most `staleness` seconds ago. -/
def Clocked.NewsLately (clocked : Clocked) (staleness : ℕ) (ip : IpText) :
    Prop :=
  ∀ last ∈ lastNews ip clocked.heard, clocked.idle ≤ last + staleness

/-- The row which `get_row_entry` finds for the IP was made or refreshed at
most `staleness` seconds ago. -/
def Clocked.RefreshedFor (clocked : Clocked) (staleness : ℕ)
    (ip : IpText) : Prop :=
  ∀ i, getRowEntry clocked.node.table ip = some i →
    (clocked.node.table i).isFilled = true →
      clocked.idle ≤ clocked.refreshed ip + staleness

section Heard

variable {ip : IpText} {frame : RouteFrame} {heard : List RouteFrame}

theorem firstHeard_cons_of_some
    {first : ℕ} (hfirst : firstHeard ip heard = some first) :
    firstHeard ip (frame :: heard) = some first := by
  rw [firstHeard, hfirst, Option.some_or]

theorem firstHeard_eq_none
    (hnone : ∀ frame ∈ heard, frame.srcIp ≠ ip) :
    firstHeard ip heard = none := by
  induction heard with
  | nil => rfl
  | cons frame earlier ih =>
      rw [firstHeard, ih fun other hother =>
        hnone other (List.mem_cons_of_mem _ hother), Option.none_or,
        if_neg (hnone frame List.mem_cons_self)]

theorem exists_of_firstHeard
    {first : ℕ} (hfirst : firstHeard ip heard = some first) :
    ∃ frame ∈ heard, frame.srcIp = ip := by
  by_contra hnone
  push Not at hnone
  rw [firstHeard_eq_none hnone] at hfirst
  cases hfirst

theorem exists_of_lastNews
    {last : ℕ} (hlast : lastNews ip heard = some last) :
    ∃ frame ∈ heard, frame.time = last := by
  induction heard with
  | nil => cases hlast
  | cons frame earlier ih =>
      rw [lastNews] at hlast
      split at hlast
      next => exact ⟨frame, List.mem_cons_self, Option.some.inj hlast⟩
      next =>
        rcases ih hlast with ⟨other, hother, htime⟩
        exact ⟨other, List.mem_cons_of_mem _ hother, htime⟩

/-- The first frame of an IP is news. -/
theorem exists_lastNews
    (hheard : ∃ frame ∈ heard, frame.srcIp = ip) :
    ∃ last, lastNews ip heard = some last := by
  induction heard with
  | nil =>
      rcases hheard with ⟨frame, hmem, _⟩
      cases hmem
  | cons frame earlier ih =>
      rw [lastNews]
      split
      next => exact ⟨_, rfl⟩
      next hold =>
        apply ih
        rcases hheard with ⟨other, hmem, hsrc⟩
        rcases List.mem_cons.mp hmem with rfl | hmem
        · push Not at hold
          rcases hold hsrc with ⟨another, hanother, hsame, _⟩
          exact ⟨another, hanother, hsame⟩
        · exact ⟨other, hmem, hsrc⟩

end Heard

/-! ## The table and the route frames -/

/-- A filled row is as old as the first route frame of its IP, and its
broadcast id is that of one of them. -/
structure RecordedBy (table : RoutingTable) (heard : List RouteFrame) :
    Prop where
  keyed : Keyed table
  named : ∀ frame ∈ heard, frame.srcIp ≠ emptyIp
  made : ∀ i, (table i).isFilled = true →
    firstHeard (table i).destIp heard = some (table i).ts
  ids : ∀ i, (table i).isFilled = true → ∃ frame ∈ heard,
    frame.srcIp = (table i).destIp ∧ frame.bcId = (table i).broadcastId

/-- Each IP which was heard of has a row. -/
def KnownBy (table : RoutingTable) (heard : List RouteFrame) : Prop :=
  ∀ frame ∈ heard, (getRowEntry table frame.srcIp).isSome = true

section Tables

variable {table : RoutingTable} {heard : List RouteFrame}

theorem recordedBy_empty : RecordedBy (fun _ => emptyRow) [] := by
  refine ⟨keyed_empty, ?_, ?_, ?_⟩
  · intro frame hmem
    cases hmem
  · intro i hfilled
    cases hfilled
  · intro i hfilled
    cases hfilled

theorem knownBy_empty (table : RoutingTable) : KnownBy table [] := by
  intro frame hmem
  cases hmem

theorem RecordedBy.cons
    (hrecorded : RecordedBy table heard) {frame : RouteFrame}
    (hsrc : frame.srcIp ≠ emptyIp) :
    RecordedBy table (frame :: heard) := by
  refine ⟨hrecorded.keyed, ?_, ?_, ?_⟩
  · exact List.forall_mem_cons.mpr ⟨hsrc, hrecorded.named⟩
  · intro i hfilled
    exact firstHeard_cons_of_some (hrecorded.made i hfilled)
  · intro i hfilled
    rcases hrecorded.ids i hfilled with ⟨other, hother, hrest⟩
    exact ⟨other, List.mem_cons_of_mem _ hother, hrest⟩

/-- A new row is for an IP which was not heard of before. -/
theorem RecordedBy.insert
    (hrecorded : RecordedBy table heard) (hknown : KnownBy table heard)
    {head : FrameHead} {srcMac : Mac} {now : ℕ} {i : Fin 100}
    (hnone : getRowEntry table head.srcIp = none)
    (hsrc : head.srcIp ≠ emptyIp) :
    RecordedBy (Function.update table i (newRow head srcMac now))
      (⟨now, head.srcIp, head.bcId⟩ :: heard) := by
  have hcons : RecordedBy table (⟨now, head.srcIp, head.bcId⟩ :: heard) :=
    hrecorded.cons hsrc
  have hfirst : firstHeard head.srcIp heard = none := by
    refine firstHeard_eq_none fun frame hmem hsame => ?_
    have hsome := hknown frame hmem
    rw [hsame, hnone] at hsome
    cases hsome
  refine ⟨hrecorded.keyed.insert rfl hsrc, hcons.named, ?_, ?_⟩
  · intro j hfilled
    by_cases hj : j = i
    · subst hj
      rw [Function.update_self]
      simp [newRow, firstHeard, hfirst]
    · rw [Function.update_of_ne hj] at hfilled ⊢
      exact hcons.made j hfilled
  · intro j hfilled
    by_cases hj : j = i
    · subst hj
      rw [Function.update_self]
      exact ⟨_, List.mem_cons_self, rfl, rfl⟩
    · rw [Function.update_of_ne hj] at hfilled ⊢
      exact hcons.ids j hfilled

/-- A refreshed row keeps its age, and takes its id over from a frame which
was heard, or keeps it. -/
theorem RecordedBy.refresh
    (hrecorded : RecordedBy table heard) {head : FrameHead} {i : Fin 100}
    (hhead : (table i).isFilled = true → ∃ frame ∈ heard,
      frame.srcIp = (table i).destIp ∧ frame.bcId = head.bcId) :
    RecordedBy (Function.update table i ((table i).refresh head)) heard := by
  refine ⟨hrecorded.keyed.refresh i head, hrecorded.named, ?_, ?_⟩
  · intro j hfilled
    by_cases hj : j = i
    · subst hj
      rw [Function.update_self, refresh_isFilled] at hfilled
      rw [Function.update_self, refresh_destIp, refresh_ts]
      exact hrecorded.made j hfilled
    · rw [Function.update_of_ne hj] at hfilled ⊢
      exact hrecorded.made j hfilled
  · intro j hfilled
    by_cases hj : j = i
    · subst hj
      rw [Function.update_self, refresh_isFilled] at hfilled
      rw [Function.update_self, refresh_destIp, refresh_broadcastId]
      rcases Nat.le_total head.bcId (table j).broadcastId with hle | hle
      · rw [max_eq_right hle]
        exact hrecorded.ids j hfilled
      · rw [max_eq_left hle]
        exact hhead hfilled
    · rw [Function.update_of_ne hj] at hfilled ⊢
      exact hrecorded.ids j hfilled

theorem KnownBy.insert
    (hrecorded : RecordedBy table heard) (hknown : KnownBy table heard)
    {row : Row} {i : Fin 100} (hfree : (table i).isFilled = false) :
    KnownBy (Function.update table i row) heard := by
  intro frame hmem
  rcases getRowEntry_isSome_iff.mp (hknown frame hmem) with ⟨j, hj⟩
  have hne : j ≠ i := by
    rintro rfl
    rw [hrecorded.keyed j, hj] at hfree
    exact hrecorded.named frame hmem hfree
  refine getRowEntry_isSome_iff.mpr ⟨j, ?_⟩
  rw [Function.update_of_ne hne]
  exact hj

end Tables

section Frames

variable {node : Node} {frame : Frame} {now : ℕ} {heard : List RouteFrame}
  {refreshed : IpText → ℕ}

theorem Node.hears_eq_true
    {header : FrameHead} (hhears : node.hears header = true) :
    header.isPayload = false ∧ node.owns header.srcIp = false ∧
      header.srcIp ≠ emptyIp := by
  simp only [Node.hears, Bool.and_eq_true, Bool.not_eq_true',
    decide_eq_true_eq] at hhears
  exact ⟨hhears.1.1, hhears.1.2, hhears.2⟩

theorem Node.hears_of_updates
    {header : FrameHead} (hupdates : node.updates header = true)
    (hsrc : header.srcIp ≠ emptyIp) :
    node.hears header = true := by
  rcases Node.updates_eq_true hupdates with ⟨hroute, _, hforeign⟩
  simp [Node.hears, hroute, hforeign, hsrc]

/-- A route frame which changes nothing finds a row with at least its id. -/
theorem row_of_hears
    {header : FrameHead} (hhears : node.hears header = true)
    (hkept : node.updates header = false) :
    ∃ i, getRowEntry node.table header.srcIp = some i ∧
      header.bcId ≤ (node.table i).broadcastId := by
  rcases Node.hears_eq_true hhears with ⟨hroute, hforeign, _⟩
  have hshould : shouldUpdateRt node.table header = false := by
    simpa [Node.updates, hroute, hforeign] using hkept
  unfold shouldUpdateRt at hshould
  split at hshould
  next => cases hshould
  next i hentry =>
    refine ⟨i, hentry, ?_⟩
    simp at hshould
    omega

theorem RecordedBy.heardWith
    (hrecorded : RecordedBy node.table heard) (header : FrameHead) :
    RecordedBy node.table (node.heardWith header now heard) := by
  unfold Node.heardWith
  split
  next hhears => exact hrecorded.cons (Node.hears_eq_true hhears).2.2
  next => exact hrecorded

/-- The update of the table keeps up with the route frames. -/
theorem RecordedBy.nextTable
    (hrecorded : RecordedBy node.table heard)
    (hknown : KnownBy node.table heard) {table : RoutingTable}
    (hnext : node.nextTable frame now = some table) :
    RecordedBy table (node.heardWith frame.header now heard) ∧
      KnownBy table (node.heardWith frame.header now heard) := by
  have hheard : RecordedBy node.table
      (node.heardWith frame.header now heard) :=
    hrecorded.heardWith frame.header
  cases nextTable_write hnext with
  | keep hkept =>
      refine ⟨hheard, ?_⟩
      unfold Node.heardWith
      split
      next hhears =>
        rcases row_of_hears hhears hkept with ⟨i, hentry, _⟩
        refine List.forall_mem_cons.mpr ⟨?_, hknown⟩
        rw [hentry]
        rfl
      next => exact hknown
  | @insert i hupdates hnone hempty =>
      have hfree := (firstFree_eq_some_iff.mp hempty).1
      have hsrc := hrecorded.keyed.ne_emptyIp_of_none hfree hnone
      rw [Node.heardWith, if_pos (Node.hears_of_updates hupdates hsrc)]
      refine ⟨hrecorded.insert hknown hnone hsrc, ?_⟩
      refine List.forall_mem_cons.mpr ⟨?_, hknown.insert hrecorded hfree⟩
      have hfound := @getRowEntry_insert_self node.table
        (newRow frame.header frame.srcMac now) hnone i
      exact Option.isSome_iff_exists.mpr ⟨i, hfound⟩
  | @refresh i hupdates hentry _ =>
      have hkey : (node.table i).destIp = frame.header.srcIp :=
        (scanAll_eq_some_iff.mp hentry).1
      have hfound : KnownBy node.table
          (node.heardWith frame.header now heard) := by
        unfold Node.heardWith
        split
        · refine List.forall_mem_cons.mpr ⟨?_, hknown⟩
          rw [hentry]
          rfl
        · exact hknown
      constructor
      · refine hheard.refresh fun hfilled => ?_
        have hsrc : frame.header.srcIp ≠ emptyIp := by
          rw [← hkey, ne_eq, ← hrecorded.keyed i, hfilled]
          exact Bool.true_eq_false.mp
        rw [Node.heardWith, if_pos (Node.hears_of_updates hupdates hsrc)]
        exact ⟨_, List.mem_cons_self, hkey.symm, rfl⟩
      · intro other hmem
        rw [getRowEntry_refresh]
        exact hfound other hmem

/-- A frame with a new broadcast id makes or refreshes a row. -/
theorem RecordedBy.updates_of_news
    (hrecorded : RecordedBy node.table heard) {header : FrameHead}
    (hhears : node.hears header = true)
    (hnews : ∀ other ∈ heard, other.srcIp = header.srcIp →
      other.bcId < header.bcId) :
    node.updates header = true := by
  by_contra hkept
  rw [Bool.not_eq_true] at hkept
  rcases row_of_hears hhears hkept with ⟨i, hentry, hid⟩
  have hkey : (node.table i).destIp = header.srcIp :=
    (scanAll_eq_some_iff.mp hentry).1
  have hfilled := hrecorded.keyed.isFilled_of_getRowEntry
    (Node.hears_eq_true hhears).2.2 hentry
  rcases hrecorded.ids i hfilled with ⟨other, hmem, hsrc, hbcId⟩
  have hless := hnews other hmem (hsrc.trans hkey)
  omega

theorem RecordedBy.news
    (hrecorded : RecordedBy node.table heard)
    (htimes : ∀ frame ∈ heard, frame.time ≤ now)
    (hnews : ∀ ip, ∀ last ∈ lastNews ip heard, last ≤ refreshed ip)
    (header : FrameHead) :
    ∀ ip, ∀ last ∈ lastNews ip (node.heardWith header now heard),
      last ≤ node.refreshedWith header now refreshed ip := by
  have hold : ∀ ip, ∀ last ∈ lastNews ip heard,
      last ≤ node.refreshedWith header now refreshed ip := by
    intro ip last hlast
    unfold Node.refreshedWith
    split
    next =>
      by_cases hip : ip = header.srcIp
      · rw [hip, Function.update_self]
        rcases exists_of_lastNews hlast with ⟨frame, hmem, rfl⟩
        exact htimes frame hmem
      · rw [Function.update_of_ne hip]
        exact hnews ip last hlast
    next => exact hnews ip last hlast
  intro ip last hlast
  unfold Node.heardWith at hlast
  split at hlast
  next hhears =>
    rw [lastNews] at hlast
    split at hlast
    next hfresh =>
      rcases hfresh with ⟨rfl, hlarger⟩
      have hupdates := hrecorded.updates_of_news hhears hlarger
      rw [Node.refreshedWith, if_pos hupdates, Function.update_self]
      exact (Option.some.inj hlast).ge
    next => exact hold ip last hlast
  next => exact hold ip last hlast

end Frames

/-! ## Runs of one node -/

/-- The history is that of the table. -/
structure Clocked.Kept (clocked : Clocked) : Prop where
  recorded : RecordedBy clocked.node.table clocked.heard
  known : clocked.node.overrun = false →
    KnownBy clocked.node.table clocked.heard
  times : ∀ frame ∈ clocked.heard, frame.time ≤ clocked.idle
  news : ∀ ip, ∀ last ∈ lastNews ip clocked.heard,
    last ≤ clocked.refreshed ip

theorem Clocked.step_eq_some_iff
    {staleness : ℕ} {clocked next : Clocked} {event : ClockedEvent} :
    clocked.step staleness event = some next ↔
      (clocked.node.overrun = false ∧ clocked.Enabled staleness event) ∧
        next = ⟨(event.outcome clocked.node).node,
          clocked.finish staleness event, clocked.heardAfter event,
          clocked.refreshedAfter event⟩ := by
  unfold Clocked.step
  split
  next henabled => simp [henabled, eq_comm]
  next henabled => simp [henabled]

theorem Clocked.Kept.frame
    {clocked : Clocked} (hkept : clocked.Kept)
    (hrunning : clocked.node.overrun = false) {frame : Frame}
    {outside : Outside} {done : ℕ} (hlater : clocked.idle ≤ outside.now)
    (hdone : outside.now ≤ done) :
    Clocked.Kept ⟨(clocked.node.processFrame frame outside).node, done,
      clocked.node.heardWith frame.header outside.now clocked.heard,
      clocked.node.refreshedWith frame.header outside.now
        clocked.refreshed⟩ := by
  have htimes : ∀ frame ∈ clocked.heard, frame.time ≤ outside.now :=
    fun frame hmem => (hkept.times frame hmem).trans hlater
  have hheard : ∀ other ∈ clocked.node.heardWith frame.header outside.now
      clocked.heard, other.time ≤ done := by
    unfold Node.heardWith
    split
    · exact List.forall_mem_cons.mpr ⟨hdone, fun other hmem =>
        (htimes other hmem).trans hdone⟩
    · exact fun other hmem => (htimes other hmem).trans hdone
  have hnews := hkept.recorded.news htimes hkept.news frame.header
  cases hnext : clocked.node.nextTable frame outside.now with
  | none =>
      rw [processFrame_overrun hnext]
      refine ⟨hkept.recorded.heardWith frame.header, ?_, hheard, hnews⟩
      intro hrunning
      cases hrunning
  | some table =>
      have hboth := hkept.recorded.nextTable (hkept.known hrunning) hnext
      have htable := (processFrame_withTable hnext).table
      refine ⟨?_, fun _ => ?_, hheard, hnews⟩
      · rw [htable]
        exact hboth.1
      · rw [htable]
        exact hboth.2

theorem Clocked.Kept.step
    {staleness : ℕ} {clocked next : Clocked} {event : ClockedEvent}
    (hkept : clocked.Kept)
    (hstep : clocked.step staleness event = some next) :
    next.Kept := by
  rcases Clocked.step_eq_some_iff.mp hstep with
    ⟨⟨hrunning, henabled⟩, rfl⟩
  have hcleared : ∀ (node : Node) (time : ℕ),
      node.table = (fun _ => emptyRow) →
      Clocked.Kept ⟨node, time, [], clocked.refreshed⟩ := by
    intro node time htable
    refine ⟨?_, fun _ => knownBy_empty _, ?_, ?_⟩
    · rw [htable]
      exact recordedBy_empty
    · intro frame hmem
      cases hmem
    · intro ip last hlast
      cases hlast
  cases event with
  | frame frame outside done =>
      exact hkept.frame hrunning henabled.1.1 henabled.2.1
  | client peer now =>
      have htable := clientRequest_table clocked.node peer
      dsimp only [ClockedEvent.outcome, Clocked.finish, Clocked.heardAfter,
        Clocked.refreshedAfter]
      cases hclears : clocked.node.clears peer with
      | true =>
          rw [hclears] at htable
          exact hcleared _ _ htable
      | false =>
          rw [hclears] at htable
          refine ⟨?_, fun _ => ?_, ?_, hkept.news⟩
          · rw [htable]
            exact hkept.recorded
          · rw [htable]
            exact hkept.known hrunning
          · intro frame hmem
            exact (hkept.times frame hmem).trans henabled.1
  | timeout => exact hcleared _ _ rfl

theorem Clocked.kept_of_reachable
    {staleness : ℕ} {clocked : Clocked}
    (hreach : Transition.Reachable (Clocked.step staleness)
      Transition.Unrestricted Clocked.Initial clocked) :
    clocked.Kept := by
  refine hreach.invariant Clocked.Kept ?_ ?_
  · rintro start ⟨serv, time, rfl⟩
    refine ⟨recordedBy_empty, fun _ => knownBy_empty _, ?_, ?_⟩
    · intro frame hmem
      cases hmem
    · intro ip last hlast
      cases hlast
  · intro clocked event next hkept _ hstep
    exact hkept.step hstep

/-! ## What is sent along a row -/

section Routes

variable {staleness : ℕ} {clocked next : Clocked} {event : ClockedEvent}

/-- A row is as fresh as the first frame of its IP. -/
theorem Clocked.Kept.freshFor_iff
    (hkept : clocked.Kept) (hrunning : clocked.node.overrun = false)
    (time : ℕ) (ip : IpText) :
    FreshFor clocked.node.table staleness time ip ↔
      clocked.FirstHeardLately staleness time ip := by
  constructor
  · intro hfresh first hfirst
    rcases exists_of_firstHeard hfirst with ⟨frame, hmem, rfl⟩
    rcases Option.isSome_iff_exists.mp (hkept.known hrunning frame hmem)
      with ⟨i, hentry⟩
    have hkey : (clocked.node.table i).destIp = frame.srcIp :=
      (scanAll_eq_some_iff.mp hentry).1
    have hfilled := hkept.recorded.keyed.isFilled_of_getRowEntry
      (hkept.recorded.named frame hmem) hentry
    have hmade := hkept.recorded.made i hfilled
    rw [hkey, hfirst, Option.some.injEq] at hmade
    rw [hmade]
    exact hfresh i hentry hfilled
  · intro hlately i hentry hfilled
    have hkey : (clocked.node.table i).destIp = ip :=
      (scanAll_eq_some_iff.mp hentry).1
    have hmade := hkept.recorded.made i hfilled
    rw [hkey] at hmade
    exact hlately _ hmade

/-- A row was refreshed at the last frame of its IP with a new id, or
later. -/
theorem Clocked.Kept.refreshedFor
    (hkept : clocked.Kept) {ip : IpText}
    (hnews : clocked.NewsLately staleness ip) :
    clocked.RefreshedFor staleness ip := by
  intro i hentry hfilled
  have hkey : (clocked.node.table i).destIp = ip :=
    (scanAll_eq_some_iff.mp hentry).1
  rcases hkept.recorded.ids i hfilled with ⟨frame, hmem, hsrc, _⟩
  rcases exists_lastNews ⟨frame, hmem, hsrc.trans hkey⟩ with
    ⟨last, hlast⟩
  have hlately := hnews last hlast
  have hrefreshed := hkept.news ip last hlast
  omega

theorem Clocked.refreshedFor_of_routeless
    {ip : IpText} (hnone : Routeless clocked.node.table ip) :
    clocked.RefreshedFor staleness ip := by
  intro i hentry hfilled
  rw [hnone i hentry] at hfilled
  cases hfilled

/-- The rows which a step uses are fresh exactly when those which the input
makes the node look up are still fresh by the time it sends. -/
theorem sendsFresh_iff
    (hkeyed : Keyed clocked.node.table)
    (hstep : clocked.step staleness event = some next) :
    SendsAlong (FreshFor next.node.table staleness next.idle)
        (event.outcome clocked.node).frames ↔
      clocked.node.serv = [] ∨ ∀ ip ∈ clocked.node.looksUp event,
        FreshFor clocked.node.table staleness next.idle ip := by
  rcases Clocked.step_eq_some_iff.mp hstep with ⟨⟨_, henabled⟩, rfl⟩
  cases event with
  | frame frame outside done =>
      dsimp only [ClockedEvent.outcome, Clocked.finish]
      cases hnext : clocked.node.nextTable frame outside.now with
      | none =>
          rw [processFrame_overrun hnext]
          simp [Node.looksUp, hnext, sendsAlong_nil]
      | some table =>
          rw [(processFrame_withTable hnext).table,
            sendsAlong_processFrame_iff hnext
              fun ip hnone => freshFor_of_routeless hnone]
          simp only [Node.looksUp, hnext, Option.isNone_some,
            Bool.false_eq_true, if_false]
          refine or_congr_right ?_
          cases hroute : frame.header.isPayload with
          | true =>
              have hsame := hnext.symm.trans (nextTable_payload hroute _)
              rw [Option.some.injEq] at hsame
              rw [hsame]
          | false =>
              have hserves : clocked.node.serves frame = false := by
                simp only [FrameHead.isPayload] at hroute
                simp only [Node.serves]
                cases htype : frame.header.type <;> simp_all
              rw [henabled.2.2 hserves]
              exact freshFor_routes_iff hkeyed hnext
  | client peer now =>
      dsimp only [ClockedEvent.outcome, Clocked.finish]
      rw [sendsAlong_clientRequest_iff
        fun ip hnone => freshFor_of_routeless hnone]
      refine or_congr_right ?_
      have htable := clientRequest_table clocked.node peer
      simp only [Node.looksUp]
      split
      next hroutes =>
        have hkept : clocked.node.clears peer = false := by
          simp only [Node.routesRequest, Bool.and_eq_true,
            decide_eq_true_eq] at hroutes
          simp [Node.clears, hroutes.2]
        rw [hkept] at htable
        rw [htable]
        simp [hroutes]
      next hroutes => simp [hroutes]
  | timeout => simp [ClockedEvent.outcome, Node.looksUp, sendsAlong_nil]

/-- The rows which a step uses were made or refreshed in time when those
which the input makes the node look up were. -/
theorem sendsRefreshed
    (hstep : clocked.step staleness event = some next)
    (hlooks : ∀ ip ∈ clocked.node.looksUp event,
      next.RefreshedFor staleness ip) :
    SendsAlong (next.RefreshedFor staleness)
      (event.outcome clocked.node).frames := by
  rcases Clocked.step_eq_some_iff.mp hstep with
    ⟨⟨_, henabled⟩, hnextEq⟩
  cases event with
  | frame frame outside done =>
      cases hnext : clocked.node.nextTable frame outside.now with
      | none =>
          dsimp only [ClockedEvent.outcome]
          rw [processFrame_overrun hnext]
          exact sendsAlong_nil
      | some table =>
          have htable : next.node.table = table := by
            rw [hnextEq]
            exact (processFrame_withTable hnext).table
          refine (sendsAlong_processFrame_iff hnext fun ip hnone =>
            Clocked.refreshedFor_of_routeless (htable ▸ hnone)).mpr
              (.inr fun ip hip => ?_)
          simp only [Node.looksUp, hnext, Option.isNone_some,
            Bool.false_eq_true, if_false] at hlooks
          rcases routesFor_nextTable hnext with
            hsame | ⟨htype, hupdates, _⟩
          · rw [hsame] at hip
            exact hlooks ip hip
          · -- the row of the source has just been made
            rw [eq_srcIp_of_mem_routesFor htype hip]
            intro i _ _
            have hnow := henabled.2.2 (by simp [Node.serves, htype])
            rw [hnextEq]
            simp [Clocked.finish, Clocked.refreshedAfter,
              Node.refreshedWith, hupdates, hnow]
  | client peer now =>
      have hnode : next.node = (clocked.node.clientRequest peer).node := by
        rw [hnextEq, ClockedEvent.outcome]
      rw [ClockedEvent.outcome]
      refine (sendsAlong_clientRequest_iff fun ip hnone =>
        Clocked.refreshedFor_of_routeless (hnode ▸ hnone)).mpr
          (.inr fun hroutes => hlooks _ ?_)
      simp [Node.looksUp, hroutes]
  | timeout => exact sendsAlong_nil

end Routes

/-- When each IP which the input makes the node look up, if it was heard of
since the table was cleared, announced itself with a new broadcast id at most
`staleness` seconds before, the rows in use were made or refreshed in that
time.  By the field `ts` they are fresh exactly when each such IP was first
heard of in that time, or the node has no interface to send on. -/
theorem row_fresh_of_news
    {staleness : ℕ} {clocked next : Clocked} {event : ClockedEvent}
    (hreach : Transition.Reachable (Clocked.step staleness)
      Transition.Unrestricted Clocked.Initial clocked)
    (hstep : clocked.step staleness event = some next) :
    ((∀ ip ∈ clocked.node.looksUp event, next.NewsLately staleness ip) →
      SendsAlong (next.RefreshedFor staleness)
        (event.outcome clocked.node).frames) ∧
    (SendsAlong (FreshFor next.node.table staleness next.idle)
        (event.outcome clocked.node).frames ↔
      clocked.node.serv = [] ∨ ∀ ip ∈ clocked.node.looksUp event,
        clocked.FirstHeardLately staleness next.idle ip) := by
  have hkept := Clocked.kept_of_reachable hreach
  have hnext := hkept.step hstep
  have hrunning := (Clocked.step_eq_some_iff.mp hstep).1.1
  constructor
  · intro hnews
    exact sendsRefreshed hstep fun ip hip => hnext.refreshedFor
      (hnews ip hip)
  · rw [sendsFresh_iff hkept.recorded.keyed hstep]
    simp only [hkept.freshFor_iff hrunning]

/-- The middle node of the line hears of the last one. -/
def lineLearns (now bcId : ℕ) : ClockedEvent :=
  .frame (lineFrame 2 (lineMac 1)
    ⟨lineIp 2, lineIp 0, 1, bcId, noMsg, 0, .rrep⟩).frame
    { quiet with now := now } now

/-- It passes a payload of the first node on. -/
def linePasses (now : ℕ) : ClockedEvent :=
  .frame linePayload.frame { quiet with now := now } now

theorem middle_initial :
    Clocked.Initial ⟨Node.start (lineSite.serv 1), 0, [], fun _ => 0⟩ :=
  ⟨_, _, rfl⟩

instance (clocked : Clocked) (staleness : ℕ) (ip : IpText) :
    Decidable (clocked.NewsLately staleness ip) :=
  inferInstanceAs (Decidable (∀ last ∈ lastNews ip clocked.heard, _))

/-- The row to the last node was made at time `0` and refreshed at time `2`,
and a payload goes along it at time `4`. -/
theorem row_fresh_inTime :
    ∃ clocked next, Transition.Reachable (Clocked.step 2)
        Transition.Unrestricted Clocked.Initial clocked ∧
      clocked.step 2 (linePasses 4) = some next ∧
      ((linePasses 4).outcome clocked.node).frames ≠ [] ∧
      SendsAlong (next.RefreshedFor 2)
        ((linePasses 4).outcome clocked.node).frames := by
  obtain ⟨clocked, hreach, htest⟩ :=
    Transition.exists_reachable_of_replay (Clocked.step 2)
      Transition.Unrestricted middle_initial
      [lineLearns 0 2, lineLearns 2 3]
      (fun clocked => (clocked.step 2 (linePasses 4)).any
          (fun next : Clocked =>
          decide (∀ ip ∈ clocked.node.looksUp (linePasses 4),
            next.NewsLately 2 ip)) &&
        decide (((linePasses 4).outcome clocked.node).frames ≠ []))
      (by decide +kernel)
  simp only [Bool.and_eq_true, decide_eq_true_eq, Option.any_eq_true]
    at htest
  rcases htest with ⟨⟨next, hstep, hnews⟩, hsends⟩
  exact ⟨clocked, next, hreach, hstep, hsends,
    (row_fresh_of_news hreach hstep).1 hnews⟩

/-- Without the refresh the payload is sent along a row which is four seconds
old; a payload in between has kept `select` from timing out. -/
theorem row_fresh_failure :
    ∃ clocked next, Transition.Reachable (Clocked.step 2)
        Transition.Unrestricted Clocked.Initial clocked ∧
      clocked.step 2 (linePasses 4) = some next ∧
      ¬ SendsAlong (next.RefreshedFor 2)
        ((linePasses 4).outcome clocked.node).frames ∧
      ¬ SendsAlong (FreshFor next.node.table 2 next.idle)
        ((linePasses 4).outcome clocked.node).frames := by
  obtain ⟨clocked, hreach, htest⟩ :=
    Transition.exists_reachable_of_replay (Clocked.step 2)
      Transition.Unrestricted middle_initial [lineLearns 0 2, linePasses 2]
      (fun clocked => (clocked.step 2 (linePasses 4)).any
        fun next : Clocked =>
          ((linePasses 4).outcome clocked.node).frames.any fun sent =>
          decide (sent.header.type ≠ .rreq) &&
            (getRowEntry next.node.table sent.header.destIp).any fun i =>
              (next.node.table i).isFilled &&
              decide (next.refreshed sent.header.destIp + 2 < next.idle) &&
                decide ((next.node.table i).ts + 2 < next.idle))
      (by decide +kernel)
  simp only [Bool.and_eq_true, decide_eq_true_eq, Option.any_eq_true,
    List.any_eq_true] at htest
  rcases htest with
    ⟨next, hstep, sent, hsent, htype, i, hentry, ⟨hfilled, hlong⟩, hold⟩
  refine ⟨clocked, next, hreach, hstep, fun hfresh => ?_, fun hfresh => ?_⟩
  · have hyoung := hfresh sent hsent htype i hentry hfilled
    omega
  · have hyoung := hfresh sent hsent htype i hentry hfilled
    omega

end NetworkProgramming.Odr
