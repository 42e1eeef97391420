import NetworkProgramming.OdrStale
import Mathlib.Order.Bounds.Basic
import Mathlib.Data.Finset.Dedup

/-!
# What a routing table remembers

One node with the frames it has processed since its table was cleared the
last time.  As long as those frames have fewer than a hundred different
sources, none of them empty, the table is a map from the sources to rows, and
the broadcast id of a row is the largest one heard from its source.
-/

namespace NetworkProgramming.Odr

open SlotTable

/-! ## A node with its history -/

/-- What tells one route request from another. -/
structure FloodKey where
  srcIp : IpText
  destIp : IpText
  bcId : ℕ
  hopCount : ℕ
  deriving DecidableEq

def FrameHead.floodKey (header : FrameHead) : FloodKey :=
  ⟨header.srcIp, header.destIp, header.bcId, header.hopCount⟩

/-- `process_frame` calls `send_rreq` for the frame. -/
def Node.floods (node : Node) (frame : Frame) (now : ℕ) : Bool :=
  match node.nextTable frame now with
  | none => false
  | some table =>
      decide (frame.header.type = .rreq) &&
        !node.owns frame.header.destIp &&
        !(getRowEntry table frame.header.destIp).isSome &&
        node.updates frame.header

/-- A node, the frames processed and the requests passed on since the last
clear, and whether `update_routing_table` ever wrote behind the last row. -/
structure Heard where
  node : Node
  frames : List Frame
  flooded : List FloodKey
  pastEnd : Bool

def Heard.receive (heard : Heard) (frame : Frame) (outside : Outside) :
    Heard where
  node := (heard.node.processFrame frame outside).node
  frames := heard.frames ++ [frame]
  flooded :=
    if heard.node.floods frame outside.now then
      heard.flooded ++ [frame.header.floodKey]
    else heard.flooded
  pastEnd :=
    heard.pastEnd || (heard.node.nextTable frame outside.now).isNone

def Heard.step (heard : Heard) (event : LedgerEvent) : Option Heard :=
  if heard.node.overrun = false then
    match event with
    | .client peer =>
        let next := (heard.node.clientRequest peer).node
        if heard.node.clears peer then
          some ⟨next, [], [], heard.pastEnd⟩
        else some { heard with node := next }
    | .frame frame outside => some (heard.receive frame outside)
    | .timeout =>
        some ⟨heard.node.initRoutingTable, [], [], heard.pastEnd⟩
  else none

theorem Heard.step_frame
    {heard : Heard} (hrunning : heard.node.overrun = false)
    (frame : Frame) (outside : Outside) :
    heard.step (.frame frame outside) =
      some (heard.receive frame outside) := by
  simp only [Heard.step, hrunning, if_true]

theorem Heard.pastEnd_receive
    {heard : Heard} {frame : Frame} {outside : Outside}
    (hsome : (heard.node.nextTable frame outside.now).isSome = true) :
    (heard.receive frame outside).pastEnd = heard.pastEnd := by
  simp only [Heard.receive]
  rw [← Option.not_isSome, hsome]
  exact Bool.or_false _

def Heard.Initial (heard : Heard) : Prop :=
  ∃ serv, heard = ⟨Node.start serv, [], [], false⟩

/-- What a step can do to the table and to the history. -/
inductive Heard.Moves (heard : Heard) : LedgerEvent → Heard → Prop
  | cleared {event : LedgerEvent} {node : Node}
      (hserv : node.serv = heard.node.serv)
      (htable : node.table = fun _ => emptyRow) :
      Moves heard event ⟨node, [], [], heard.pastEnd⟩
  | kept {event : LedgerEvent} {node : Node}
      (hserv : node.serv = heard.node.serv)
      (htable : node.table = heard.node.table) :
      Moves heard event { heard with node := node }
  | received {frame : Frame} {outside : Outside} :
      Moves heard (.frame frame outside) (heard.receive frame outside)

theorem Heard.moves_of_step
    {heard next : Heard} {event : LedgerEvent}
    (hstep : heard.step event = some next) :
    heard.Moves event next := by
  unfold Heard.step at hstep
  split at hstep
  next =>
    cases event with
    | client peer =>
        have hserv := (clientRequest_requested heard.node peer).serv
        have htable := clientRequest_table heard.node peer
        simp only at hstep
        split at hstep
        next hclears =>
          rw [if_pos hclears] at htable
          simp only [Option.some.injEq] at hstep
          subst hstep
          exact .cleared hserv htable
        next hclears =>
          rw [if_neg hclears] at htable
          simp only [Option.some.injEq] at hstep
          subst hstep
          exact .kept hserv htable
    | frame frame outside =>
        simp only [Option.some.injEq] at hstep
        subst hstep
        exact .received
    | timeout =>
        simp only [Option.some.injEq] at hstep
        subst hstep
        exact .cleared rfl rfl
  next => cases hstep

/-- A frame which cannot be stored leaves the table as it is. -/
theorem processFrame_table
    (node : Node) (frame : Frame) (outside : Outside) :
    (node.processFrame frame outside).node.table =
      (node.nextTable frame outside.now).getD node.table := by
  cases hnext : node.nextTable frame outside.now with
  | none => rw [processFrame_overrun hnext, Option.getD_none]
  | some table =>
      rw [(processFrame_withTable hnext).table, Option.getD_some]

/-! ## Sources -/

/-- A route request or a route reply. -/
def Frame.isRoute (frame : Frame) : Bool :=
  !frame.header.isPayload

/-- The sources of the route frames, with repetitions. -/
def sources (frames : List Frame) : List IpText :=
  (frames.filter Frame.isRoute).map fun frame => frame.header.srcIp

/-- The broadcast ids which route frames from the IP carried. -/
def heardIds (frames : List Frame) (ip : IpText) : Set ℕ :=
  { id | ∃ frame ∈ frames, frame.isRoute = true ∧
    frame.header.srcIp = ip ∧ frame.header.bcId = id }

/-- Fewer than a hundred different sources, none of them empty. -/
structure FewSources (frames : List Frame) : Prop where
  nonempty : emptyIp ∉ sources frames
  few : (sources frames).toFinset.card < 100

theorem mem_sources_iff {frames : List Frame} {ip : IpText} :
    ip ∈ sources frames ↔
      ∃ frame ∈ frames, frame.isRoute = true ∧
        frame.header.srcIp = ip := by
  simp only [sources, List.mem_map, List.mem_filter, and_assoc]

theorem sources_concat (frames : List Frame) (frame : Frame) :
    sources (frames ++ [frame]) =
      sources frames ++
        if frame.isRoute = true then [frame.header.srcIp] else [] := by
  simp only [sources, List.filter_append, List.map_append]
  cases hroute : frame.isRoute <;> simp [hroute]

theorem heardIds_concat_of_ne
    {frames : List Frame} {frame : Frame} {ip : IpText}
    (hne : frame.isRoute = true → frame.header.srcIp ≠ ip) :
    heardIds (frames ++ [frame]) ip = heardIds frames ip := by
  ext id
  simp only [heardIds, List.mem_append, List.mem_singleton,
    Set.mem_ofPred_eq]
  constructor
  · rintro ⟨other, hother | rfl, hroute, hsrc, hid⟩
    · exact ⟨other, hother, hroute, hsrc, hid⟩
    · exact absurd hsrc (hne hroute)
  · rintro ⟨other, hother, hrest⟩
    exact ⟨other, .inl hother, hrest⟩

theorem heardIds_concat_self
    {frames : List Frame} {frame : Frame}
    (hroute : frame.isRoute = true) :
    heardIds (frames ++ [frame]) frame.header.srcIp =
      insert frame.header.bcId (heardIds frames frame.header.srcIp) := by
  ext id
  simp only [heardIds, List.mem_append, List.mem_singleton,
    Set.mem_ofPred_eq, Set.mem_insert_iff]
  constructor
  · rintro ⟨other, hother | rfl, hrest⟩
    · exact .inr ⟨other, hother, hrest⟩
    · exact .inl hrest.2.2.symm
  · rintro (rfl | ⟨other, hother, hrest⟩)
    · exact ⟨frame, .inr rfl, hroute, rfl, rfl⟩
    · exact ⟨other, .inl hother, hrest⟩

theorem FewSources.of_concat
    {frames : List Frame} {frame : Frame}
    (hfew : FewSources (frames ++ [frame])) :
    FewSources frames := by
  have hsub : sources frames ⊆ sources (frames ++ [frame]) := by
    rw [sources_concat]
    exact List.subset_append_left _ _
  refine ⟨fun hempty => hfew.nonempty (hsub hempty), ?_⟩
  have hfinset : (sources frames).toFinset ⊆
      (sources (frames ++ [frame])).toFinset := by
    intro ip hip
    rw [List.mem_toFinset] at hip ⊢
    exact hsub hip
  exact lt_of_le_of_lt (Finset.card_le_card hfinset) hfew.few

theorem FewSources.source_ne
    {frames : List Frame} {frame : Frame}
    (hfew : FewSources (frames ++ [frame]))
    (hroute : frame.isRoute = true) :
    frame.header.srcIp ≠ emptyIp := by
  intro hempty
  apply hfew.nonempty
  rw [sources_concat, if_pos hroute, hempty]
  simp

/-! ## The invariant -/

/-- The table holds the sources of the route frames, with the largest
broadcast id of each. -/
structure Heard.Recorded (heard : Heard) : Prop where
  packed : Packed heard.node.table
  row_iff : ∀ ip, heard.node.row ip ≠ none ↔
    heard.node.owns ip = false ∧ ip ∈ sources heard.frames
  greatest : ∀ ip row, heard.node.row ip = some row →
    IsGreatest (heardIds heard.frames ip) row.broadcastId

theorem Node.row_of_cleared
    {node : Node} (htable : node.table = fun _ => emptyRow) (ip : IpText) :
    node.row ip = none := by
  rw [Node.row, htable]
  exact lookup_empty ip

theorem Heard.recorded_of_cleared
    {heard : Heard} (htable : heard.node.table = fun _ => emptyRow)
    (hframes : heard.frames = []) :
    heard.Recorded := by
  have hrow := Node.row_of_cleared htable
  refine ⟨?_, ?_, ?_⟩
  · rw [htable]
    exact packed_empty
  · intro ip
    simp [hrow ip, hframes, sources]
  · intro ip row hsome
    rw [hrow ip] at hsome
    cases hsome

theorem Heard.Recorded.congr
    {heard next : Heard} (hrecorded : heard.Recorded)
    (hserv : next.node.serv = heard.node.serv)
    (htable : next.node.table = heard.node.table)
    (hframes : next.frames = heard.frames) :
    next.Recorded := by
  have hrow : ∀ ip, next.node.row ip = heard.node.row ip := by
    intro ip
    rw [Node.row, htable, Node.row]
  have howns : ∀ ip, next.node.owns ip = heard.node.owns ip := by
    intro ip
    rw [Node.owns, hserv, Node.owns]
  refine ⟨?_, ?_, ?_⟩
  · rw [htable]
    exact hrecorded.packed
  · intro ip
    rw [hrow, howns, hframes]
    exact hrecorded.row_iff ip
  · intro ip row hsome
    rw [hrow] at hsome
    rw [hframes]
    exact hrecorded.greatest ip row hsome

/-- There is room for one more source. -/
theorem Heard.Recorded.exists_free
    {heard : Heard} (hrecorded : heard.Recorded)
    (hfew : FewSources heard.frames) :
    ∃ i, (heard.node.table i).isFilled = false := by
  apply hrecorded.packed.exists_free (sources heard.frames).toFinset
  · intro i hfilled
    have hrow := lookup_of_filled hrecorded.packed hfilled
    rw [List.mem_toFinset]
    apply ((hrecorded.row_iff _).mp _).2
    rw [Node.row, hrow]
    exact Option.some_ne_none _
  · exact hfew.few

/-- The table after one more frame: it is kept, or the row of the source is
made or refreshed. -/
theorem Heard.Recorded.nextTable
    {heard : Heard} (hrecorded : heard.Recorded) {frame : Frame}
    (hfew : FewSources (heard.frames ++ [frame])) (now : ℕ) :
    ∃ table, heard.node.nextTable frame now = some table ∧
      Packed table ∧
      ∀ ip, lookup table ip =
        if ip = frame.header.srcIp ∧ frame.isRoute = true ∧
            heard.node.owns frame.header.srcIp = false then
          some ((heard.node.row frame.header.srcIp).elim
            (newRow frame.header frame.srcMac now) fun row =>
              row.refresh frame.header)
        else heard.node.row ip := by
  obtain ⟨table, hnext⟩ :=
    nextTable_isSome (hrecorded.exists_free hfew.of_concat) frame now
  refine ⟨table, hnext, ?_⟩
  by_cases hforeign : frame.isRoute = true ∧
      heard.node.owns frame.header.srcIp = false
  · have hsrc := hfew.source_ne hforeign.1
    have hroute : frame.header.isPayload = false := by
      simpa [Frame.isRoute] using hforeign.1
    have hstep := nextTable_step hrecorded.packed hsrc hnext
    refine ⟨hstep.packed hrecorded.packed, fun ip => ?_⟩
    rw [hstep.lookup_eq hrecorded.packed hsrc hroute hforeign.2]
    simp only [hforeign, and_self, and_true]
  · have hkept : table = heard.node.table := by
      have hupdates : heard.node.updates frame.header = false := by
        cases hupdates : heard.node.updates frame.header with
        | false => rfl
        | true =>
            obtain ⟨hroute, _, howned⟩ := Node.updates_eq_true hupdates
            exact absurd ⟨by simp [Frame.isRoute, hroute], howned⟩ hforeign
      simpa [Node.nextTable, hupdates] using hnext.symm
    rw [hkept]
    refine ⟨hrecorded.packed, fun ip => ?_⟩
    rw [if_neg fun hip => hforeign hip.2]
    rfl

theorem Heard.Recorded.receive
    {heard : Heard} (hrecorded : heard.Recorded) {frame : Frame}
    (hfew : FewSources (heard.frames ++ [frame])) (outside : Outside) :
    (heard.receive frame outside).Recorded := by
  obtain ⟨table, hnext, hpacked, hlookup⟩ :=
    hrecorded.nextTable hfew outside.now
  have hwith := processFrame_withTable hnext
  have hrow : ∀ ip, (heard.receive frame outside).node.row ip =
      lookup table ip := by
    intro ip
    rw [Node.row, Heard.receive, hwith.table]
  have howns : ∀ ip, (heard.receive frame outside).node.owns ip =
      heard.node.owns ip := by
    intro ip
    rw [Node.owns, Heard.receive, hwith.serv, Node.owns]
  have hframes : (heard.receive frame outside).frames =
      heard.frames ++ [frame] := rfl
  refine ⟨?_, ?_, ?_⟩
  · rw [Heard.receive, hwith.table]
    exact hpacked
  · intro ip
    rw [hrow, howns, hframes, sources_concat, hlookup]
    have hold := hrecorded.row_iff ip
    split
    next hip =>
      obtain ⟨rfl, hroute, hforeign⟩ := hip
      simp [hroute, hforeign]
    next hip =>
      rw [hold, List.mem_append]
      refine and_congr_right fun hforeign => (or_iff_left ?_).symm
      split
      next hroute =>
        intro hmem
        rw [List.mem_singleton] at hmem
        subst hmem
        exact hip ⟨rfl, hroute, hforeign⟩
      next => exact List.not_mem_nil
  · intro ip row hsome
    rw [hrow, hlookup] at hsome
    rw [hframes]
    split at hsome
    next hip =>
      obtain ⟨rfl, hroute, hforeign⟩ := hip
      rw [heardIds_concat_self hroute]
      cases hold : heard.node.row frame.header.srcIp with
      | none =>
          rw [hold, Option.elim_none, Option.some.injEq] at hsome
          have hnone : heardIds heard.frames frame.header.srcIp = ∅ := by
            rw [Set.eq_empty_iff_forall_notMem]
            rintro id ⟨other, hother, hotherRoute, hsrc, _⟩
            apply (hrecorded.row_iff frame.header.srcIp).mpr _ hold
            exact ⟨hforeign,
              mem_sources_iff.mpr ⟨other, hother, hotherRoute, hsrc⟩⟩
          rw [hnone, ← hsome, insert_empty_eq]
          exact isGreatest_singleton
      | some old =>
          rw [hold, Option.elim_some, Option.some.injEq] at hsome
          rw [← hsome, refresh_broadcastId]
          exact (hrecorded.greatest _ _ hold).insert _
    next hip =>
      rw [heardIds_concat_of_ne]
      · exact hrecorded.greatest ip row hsome
      · intro hroute hsrc
        have hforeign := ((hrecorded.row_iff ip).mp (by simp [hsome])).1
        exact hip ⟨hsrc.symm, hroute, hsrc ▸ hforeign⟩

theorem Heard.recorded_of_reachable
    {Allowed : Heard → LedgerEvent → Prop} {heard : Heard}
    (hreach : Transition.Reachable Heard.step Allowed Heard.Initial heard)
    (hfew : FewSources heard.frames) :
    heard.Recorded := by
  refine hreach.invariant
    (fun heard => FewSources heard.frames → heard.Recorded) ?_ ?_ hfew
  · rintro start ⟨serv, rfl⟩ _
    exact Heard.recorded_of_cleared rfl rfl
  · intro heard event next hrecorded _ hstep hfew
    cases Heard.moves_of_step hstep with
    | cleared _ htable => exact Heard.recorded_of_cleared htable rfl
    | kept hserv htable => exact (hrecorded hfew).congr hserv htable rfl
    | received => exact (hrecorded hfew.of_concat).receive hfew _

/-! ## One more frame -/

/-- Rows keep their place, their IP and their next hop, and a hop count never
grows. -/
theorem nextTable_filled
    {node : Node} {frame : Frame} {now : ℕ} {table : RoutingTable}
    (hnext : node.nextTable frame now = some table) {i : Fin 100}
    (hfilled : (node.table i).isFilled = true) :
    (table i).isFilled = true ∧
      (table i).destIp = (node.table i).destIp ∧
      (table i).hopCount ≤ (node.table i).hopCount := by
  rcases nextTable_cases hnext with
    rfl | ⟨j, _, hfree, rfl⟩ | ⟨j, rfl⟩
  · exact ⟨hfilled, rfl, le_rfl⟩
  · have hne : i ≠ j := by
      rintro rfl
      rw [hfree] at hfilled
      cases hfilled
    rw [Function.update_of_ne hne]
    exact ⟨hfilled, rfl, le_rfl⟩
  · by_cases hij : i = j
    · subst hij
      rw [Function.update_self, refresh_isFilled, refresh_destIp]
      exact ⟨hfilled, rfl, refresh_hopCount_le _ _⟩
    · rw [Function.update_of_ne hij]
      exact ⟨hfilled, rfl, le_rfl⟩

/-- `update` tells whether the table changed. -/
theorem TableStep.updates_iff
    {node : Node} {frame : Frame} {now : ℕ} {next : RoutingTable}
    (hstep : TableStep node frame now next) :
    node.updates frame.header = true ↔ next ≠ node.table := by
  cases hstep with
  | keep hupdates => simp [hupdates]
  | insert hupdates hnone hrewrites =>
      refine iff_of_true hupdates ?_
      rintro rfl
      have hself := hrewrites.lookup_self
      rw [← Node.row, hnone] at hself
      cases hself
  | @refresh _ row hupdates hrow hnewer hrewrites =>
      refine iff_of_true hupdates ?_
      rintro rfl
      have hself := hrewrites.lookup_self
      rw [← Node.row, hrow, Option.some.injEq] at hself
      have hid := congrArg Row.broadcastId hself
      have hhops := congrArg Row.hopCount hself
      rw [refresh_broadcastId] at hid
      unfold Row.refresh at hhops
      split at hhops
      · omega
      · split at hhops
        · simp only at hhops
          omega
        · omega

theorem Heard.Recorded.updates_iff
    {heard : Heard} (hrecorded : heard.Recorded) {frame : Frame}
    (hfew : FewSources (heard.frames ++ [frame])) (outside : Outside) :
    heard.node.updates frame.header = true ↔
      (heard.receive frame outside).node.table ≠ heard.node.table := by
  obtain ⟨table, hnext, _⟩ := hrecorded.nextTable hfew outside.now
  have htable : (heard.receive frame outside).node.table = table :=
    (processFrame_withTable hnext).table
  rw [htable]
  by_cases hroute : frame.isRoute = true
  · exact (nextTable_step hrecorded.packed (hfew.source_ne hroute)
      hnext).updates_iff
  · have hpayload : frame.header.isPayload = true := by
      simpa [Frame.isRoute] using hroute
    rw [nextTable_payload hpayload, Option.some.injEq] at hnext
    simp [Node.updates, hpayload, hnext]

/-- The routing table of a node, as long as fewer than a hundred different
sources, none of them empty, were heard since it was cleared: the filled rows
come first and have different IPs, they are those of the foreign sources, and
each has the largest broadcast id of its source.  One more frame makes no hop
count grow, and `update` tells whether it changes the table. -/
theorem routingTable_invariant
    {heard : Heard}
    (hreach : Transition.Reachable Heard.step Transition.Unrestricted
      Heard.Initial heard)
    (hfew : FewSources heard.frames) :
    (∀ i j, i ≤ j → (heard.node.table j).isFilled = true →
      (heard.node.table i).isFilled = true) ∧
    (∀ i j, (heard.node.table i).isFilled = true →
      (heard.node.table j).isFilled = true →
      (heard.node.table i).destIp = (heard.node.table j).destIp → i = j) ∧
    (∀ ip, (∃ i, (heard.node.table i).isFilled = true ∧
        (heard.node.table i).destIp = ip) ↔
      ip ∉ heard.node.serv.map ServerDetails.ip ∧
        ∃ frame ∈ heard.frames, frame.isRoute = true ∧
          frame.header.srcIp = ip) ∧
    (∀ i, (heard.node.table i).isFilled = true →
      IsGreatest (heardIds heard.frames (heard.node.table i).destIp)
        (heard.node.table i).broadcastId) ∧
    ∀ frame outside, FewSources (heard.frames ++ [frame]) →
      (∀ i, (heard.node.table i).isFilled = true →
        ((heard.receive frame outside).node.table i).destIp =
          (heard.node.table i).destIp ∧
        ((heard.receive frame outside).node.table i).hopCount ≤
          (heard.node.table i).hopCount) ∧
      (heard.node.updates frame.header = true ↔
        (heard.receive frame outside).node.table ≠ heard.node.table) := by
  have hrecorded := Heard.recorded_of_reachable hreach hfew
  have hpacked := hrecorded.packed
  refine ⟨hpacked.filled_of_le, hpacked.inj, ?_, ?_, ?_⟩
  · intro ip
    have hrow : heard.node.row ip ≠ none ↔
        ∃ i, (heard.node.table i).isFilled = true ∧
          (heard.node.table i).destIp = ip := by
      rw [Node.row, ne_eq, lookup_eq_none_iff hpacked]
      push Not
      rfl
    rw [← hrow, hrecorded.row_iff, mem_sources_iff]
    simp [Node.owns]
  · intro i hfilled
    exact hrecorded.greatest _ _ (lookup_of_filled hpacked hfilled)
  · intro frame outside hmore
    refine ⟨fun i hfilled => ?_, hrecorded.updates_iff hmore outside⟩
    obtain ⟨table, hnext, _⟩ := hrecorded.nextTable hmore outside.now
    have htable : (heard.receive frame outside).node.table = table :=
      (processFrame_withTable hnext).table
    rw [htable]
    exact (nextTable_filled hnext hfilled).2

/-! ## Two requests of one source -/

/-- The middle node of the line before its first frame. -/
def freshHeard : Heard :=
  ⟨Node.start (lineSite.serv 1), [], [], false⟩

theorem freshHeard_initial : freshHeard.Initial :=
  ⟨_, rfl⟩

/-- A request of the first node for the last one, as its neighbour with the
given hardware address passes it on. -/
def lineRreq (sender : Mac) (bcId hopCount : ℕ) : LedgerEvent :=
  .frame ⟨broadcastMac, sender, 2,
    ⟨lineIp 0, lineIp 2, hopCount, bcId, noMsg, 0, .rreq⟩⟩ quiet

theorem routingTable_invariant_twoRequests :
    ∃ heard, Transition.Reachable Heard.step Transition.Unrestricted
        Heard.Initial heard ∧
      FewSources heard.frames ∧ heard.frames.length = 2 ∧
      ∃ i, (heard.node.table i).isFilled = true ∧
        IsGreatest (heardIds heard.frames (heard.node.table i).destIp) 3 := by
  obtain ⟨heard, hreach, htest⟩ :=
    Transition.exists_reachable_of_replay Heard.step Transition.Unrestricted
      freshHeard_initial [lineRreq zeroMac 1 2, lineRreq zeroMac 3 2]
      (fun heard => decide (heard.frames.length = 2) &&
        decide (emptyIp ∉ sources heard.frames) &&
        decide ((sources heard.frames).toFinset.card < 100) &&
        decide ((heard.node.table 0).isFilled = true ∧
          (heard.node.table 0).broadcastId = 3))
      (by decide +kernel)
  simp only [Bool.and_eq_true, decide_eq_true_eq] at htest
  obtain ⟨⟨⟨hlength, hnonempty⟩, hfew⟩, hfilled, hid⟩ := htest
  have hsources : FewSources heard.frames := ⟨hnonempty, hfew⟩
  have hgreatest :=
    (routingTable_invariant hreach hsources).2.2.2.1 0 hfilled
  rw [hid] at hgreatest
  exact ⟨heard, hreach, hsources, hlength, 0, hfilled, hgreatest⟩

end NetworkProgramming.Odr
