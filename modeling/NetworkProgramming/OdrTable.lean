import NetworkProgramming.OdrNode

/-!
# The routing table as a map

`get_row_entry` compares the unused rows as well, so it agrees with the map
from IPs to rows for every IP but the empty one.  On a packed table the first
part of `process_frame` leaves the map alone, adds a row for the source of
the frame, or refreshes the row it has.
-/

namespace NetworkProgramming.Odr

open SlotTable

theorem isPayload_of_req
    {header : FrameHead} (htype : header.type = .payloadReq) :
    header.isPayload = true := by
  simp [FrameHead.isPayload, htype]

theorem isPayload_of_resp
    {header : FrameHead} (htype : header.type = .payloadResp) :
    header.isPayload = true := by
  simp [FrameHead.isPayload, htype]

theorem not_isPayload_of_rreq
    {header : FrameHead} (htype : header.type = .rreq) :
    header.isPayload = false := by
  simp [FrameHead.isPayload, htype]

theorem not_isPayload_of_rrep
    {header : FrameHead} (htype : header.type = .rrep) :
    header.isPayload = false := by
  simp [FrameHead.isPayload, htype]

/-- The row of a node for an IP. -/
def Node.row (node : Node) (ip : IpText) : Option Row :=
  lookup node.table ip

theorem getRowEntry_some
    {table : RoutingTable} (hpacked : Packed table)
    {ip : IpText} (hip : ip ≠ emptyIp)
    {i : Fin 100} (hentry : getRowEntry table ip = some i) :
    lookup table ip = some (table i) :=
  lookup_of_scanAll hpacked hip hentry

theorem getRowEntry_none
    {table : RoutingTable} (hpacked : Packed table)
    {ip : IpText} (hentry : getRowEntry table ip = none) :
    lookup table ip = none :=
  lookup_of_scanAll_none hpacked hentry

theorem getRowEntry_of_lookup
    {table : RoutingTable} (hpacked : Packed table)
    {ip : IpText} {row : Row} (hip : ip ≠ emptyIp)
    (hlookup : lookup table ip = some row) :
    ∃ i, getRowEntry table ip = some i ∧ table i = row := by
  cases hentry : getRowEntry table ip with
  | none =>
      rw [getRowEntry_none hpacked hentry] at hlookup
      cases hlookup
  | some i =>
      rw [getRowEntry_some hpacked hip hentry,
        Option.some.injEq] at hlookup
      exact ⟨i, rfl, hlookup⟩

theorem getRowEntry_eq_none_iff
    {table : RoutingTable} (hpacked : Packed table)
    {ip : IpText} (hip : ip ≠ emptyIp) :
    getRowEntry table ip = none ↔ lookup table ip = none := by
  constructor
  · exact getRowEntry_none hpacked
  · intro hnone
    cases hentry : getRowEntry table ip with
    | none => rfl
    | some i =>
        rw [getRowEntry_some hpacked hip hentry] at hnone
        cases hnone

/-- A table with an unused row finds that row for the empty IP. -/
theorem ne_emptyIp_of_getRowEntry_none
    {table : RoutingTable} (hpacked : Packed table)
    (hfree : ∃ i, (table i).isFilled = false)
    {ip : IpText} (hentry : getRowEntry table ip = none) :
    ip ≠ emptyIp := by
  intro hip
  obtain ⟨i, hi⟩ := hfree
  have hempty : table i = emptyRow := hpacked.eq_empty i hi
  refine scanAll_eq_none_iff.mp hentry i ?_
  rw [hempty, hip]
  rfl

/-! ## The update -/

@[simp]
theorem refresh_destIp (row : Row) (head : FrameHead) :
    (row.refresh head).destIp = row.destIp := by
  unfold Row.refresh
  split
  · rfl
  · split <;> rfl

@[simp]
theorem refresh_nextHopMac (row : Row) (head : FrameHead) :
    (row.refresh head).nextHopMac = row.nextHopMac := by
  unfold Row.refresh
  split
  · rfl
  · split <;> rfl

@[simp]
theorem refresh_isFilled (row : Row) (head : FrameHead) :
    (row.refresh head).isFilled = row.isFilled := by
  unfold Row.refresh
  split
  · rfl
  · split <;> rfl

theorem refresh_broadcastId (row : Row) (head : FrameHead) :
    (row.refresh head).broadcastId = max head.bcId row.broadcastId := by
  unfold Row.refresh
  split
  · simp only
    omega
  · split
    · simp only
      omega
    · omega

theorem refresh_hopCount_le (row : Row) (head : FrameHead) :
    (row.refresh head).hopCount ≤ row.hopCount := by
  unfold Row.refresh
  split
  · exact le_rfl
  · split
    · simp only
      omega
    · exact le_rfl

/-- `next` is `table` with the row for `ip` replaced by `row`. -/
structure Rewrites (table next : RoutingTable) (ip : IpText) (row : Row) :
    Prop where
  packed : Packed next
  lookup_eq : ∀ other, lookup next other =
    if other = ip then some row else lookup table other

theorem Rewrites.lookup_self
    {table next : RoutingTable} {ip : IpText} {row : Row}
    (hrewrites : Rewrites table next ip row) :
    lookup next ip = some row := by
  rw [hrewrites.lookup_eq, if_pos rfl]

theorem Rewrites.lookup_of_ne
    {table next : RoutingTable} {ip other : IpText} {row : Row}
    (hrewrites : Rewrites table next ip row) (hne : other ≠ ip) :
    lookup next other = lookup table other := by
  rw [hrewrites.lookup_eq, if_neg hne]

theorem rewrites_update
    {table : RoutingTable} (hpacked : Packed table) (row : Row)
    {i : Fin 100} (hscan : scan table row.destIp = some i)
    (hfilled : row.isFilled = true) :
    Rewrites table (Function.update table i row) row.destIp row where
  packed := hpacked.update hscan hfilled
  lookup_eq := lookup_update hpacked hscan hfilled

/-- What the first part of `process_frame` does to the table. -/
inductive TableStep (node : Node) (frame : Frame) (now : ℕ) :
    RoutingTable → Prop
  | keep (hupdates : node.updates frame.header = false) :
      TableStep node frame now node.table
  | insert {next : RoutingTable}
      (hupdates : node.updates frame.header = true)
      (hnone : node.row frame.header.srcIp = none)
      (hrewrites : Rewrites node.table next frame.header.srcIp
        (newRow frame.header frame.srcMac now)) :
      TableStep node frame now next
  | refresh {next : RoutingTable} {row : Row}
      (hupdates : node.updates frame.header = true)
      (hrow : node.row frame.header.srcIp = some row)
      (hnewer : row.broadcastId < frame.header.bcId ∨
        frame.header.hopCount < row.hopCount)
      (hrewrites : Rewrites node.table next frame.header.srcIp
        (row.refresh frame.header)) :
      TableStep node frame now next

theorem Node.updates_eq_true
    {node : Node} {header : FrameHead}
    (hupdates : node.updates header = true) :
    header.isPayload = false ∧
      shouldUpdateRt node.table header = true ∧
      node.owns header.srcIp = false := by
  simp only [Node.updates, Bool.and_eq_true, Bool.not_eq_true'] at hupdates
  exact ⟨hupdates.1.1, hupdates.1.2, hupdates.2⟩

/-- What is written to the table, and to which row. -/
inductive TableWrite (node : Node) (frame : Frame) (now : ℕ) :
    RoutingTable → Prop
  | keep (hupdates : node.updates frame.header = false) :
      TableWrite node frame now node.table
  | insert {i : Fin 100}
      (hupdates : node.updates frame.header = true)
      (hnone : getRowEntry node.table frame.header.srcIp = none)
      (hfree : getEmptyRow node.table = some i) :
      TableWrite node frame now (Function.update node.table i
        (newRow frame.header frame.srcMac now))
  | refresh {i : Fin 100}
      (hupdates : node.updates frame.header = true)
      (hentry : getRowEntry node.table frame.header.srcIp = some i)
      (hnewer : (node.table i).broadcastId < frame.header.bcId ∨
        frame.header.hopCount < (node.table i).hopCount) :
      TableWrite node frame now (Function.update node.table i
        ((node.table i).refresh frame.header))

theorem nextTable_write
    {node : Node} {frame : Frame} {now : ℕ} {next : RoutingTable}
    (hnext : node.nextTable frame now = some next) :
    TableWrite node frame now next := by
  unfold Node.nextTable at hnext
  split at hnext
  next hupdates =>
    have hshould := (Node.updates_eq_true hupdates).2.1
    unfold updateRoutingTable at hnext
    unfold shouldUpdateRt at hshould
    cases hentry : getRowEntry node.table frame.header.srcIp with
    | none =>
        simp only [hentry, Option.map_eq_some_iff] at hnext
        obtain ⟨i, hfree, rfl⟩ := hnext
        exact .insert hupdates hentry hfree
    | some i =>
        simp only [hentry, Option.some.injEq] at hnext
        subst hnext
        simp only [hentry, Bool.or_eq_true, decide_eq_true_eq] at hshould
        exact .refresh hupdates hentry hshould
  next hupdates =>
    simp only [Option.some.injEq] at hnext
    subst hnext
    exact .keep (by simpa using hupdates)

/-- On a packed table a write is a change of the map. -/
theorem nextTable_step
    {node : Node} (hpacked : Packed node.table)
    {frame : Frame} (hsrc : frame.header.srcIp ≠ emptyIp)
    {now : ℕ} {next : RoutingTable}
    (hnext : node.nextTable frame now = some next) :
    TableStep node frame now next := by
  cases nextTable_write hnext with
  | keep hupdates => exact .keep hupdates
  | insert hupdates hentry hfree =>
      have hnone := getRowEntry_none hpacked hentry
      have hscan := scan_of_firstFree hpacked hnone hfree
      exact .insert hupdates hnone (rewrites_update hpacked
        (newRow frame.header frame.srcMac now) hscan rfl)
  | @refresh i hupdates hentry hnewer =>
      have hrow := getRowEntry_some hpacked hsrc hentry
      have hkey : (node.table i).destIp = frame.header.srcIp :=
        lookup_key hpacked hrow
      have hfilled : (node.table i).isFilled = true :=
        lookup_filled hpacked hrow
      have hscan := scan_of_scanAll hpacked hentry
      have hrewrites := rewrites_update hpacked
        ((node.table i).refresh frame.header)
        (by rw [refresh_destIp, hkey]; exact hscan)
        (by rw [refresh_isFilled]; exact hfilled)
      rw [refresh_destIp, hkey] at hrewrites
      exact .refresh hupdates hrow hnewer hrewrites

/-- A payload leaves the table alone. -/
theorem nextTable_payload
    {node : Node} {frame : Frame}
    (hpayload : frame.header.isPayload = true) (now : ℕ) :
    node.nextTable frame now = some node.table := by
  simp [Node.nextTable, Node.updates, hpayload]

/-- The update runs past the end of a full table for a new source. -/
theorem nextTable_eq_none_iff
    {node : Node} {frame : Frame} {now : ℕ} :
    node.nextTable frame now = none ↔
      node.updates frame.header = true ∧
      getRowEntry node.table frame.header.srcIp = none ∧
      ∀ i, (node.table i).isFilled = true := by
  have hfull : getEmptyRow node.table = none ↔
      ∀ i, (node.table i).isFilled = true :=
    firstFree_eq_none_iff
  unfold Node.nextTable updateRoutingTable
  cases hupdates : node.updates frame.header with
  | false => simp
  | true =>
      cases hentry : getRowEntry node.table frame.header.srcIp with
      | some i => simp
      | none => simp [← hfull]

/-- The update cannot run past the end of a table with an unused row. -/
theorem nextTable_isSome
    {node : Node} (hfree : ∃ i, (node.table i).isFilled = false)
    (frame : Frame) (now : ℕ) :
    ∃ next, node.nextTable frame now = some next := by
  rw [← Option.ne_none_iff_exists', ne_eq, nextTable_eq_none_iff]
  rintro ⟨_, _, hfull⟩
  obtain ⟨i, hi⟩ := hfree
  rw [hfull i] at hi
  cases hi

theorem TableStep.packed
    {node : Node} {frame : Frame} {now : ℕ} {next : RoutingTable}
    (hstep : TableStep node frame now next)
    (hpacked : Packed node.table) :
    Packed next := by
  cases hstep with
  | keep => exact hpacked
  | insert _ _ hrewrites => exact hrewrites.packed
  | refresh _ _ _ hrewrites => exact hrewrites.packed

/-- A row is never lost and never changes its next hop. -/
theorem TableStep.keeps_row
    {node : Node} {frame : Frame} {now : ℕ} {next : RoutingTable}
    (hstep : TableStep node frame now next)
    {ip : IpText} {row : Row} (hrow : node.row ip = some row) :
    ∃ row', lookup next ip = some row' ∧
      row'.nextHopMac = row.nextHopMac := by
  cases hstep with
  | keep => exact ⟨row, hrow, rfl⟩
  | insert _ hnone hrewrites =>
      have hne : ip ≠ frame.header.srcIp := by
        rintro rfl
        rw [hnone] at hrow
        cases hrow
      exact ⟨row, (hrewrites.lookup_of_ne hne).trans hrow, rfl⟩
  | @refresh _ old _ hold _ hrewrites =>
      by_cases hip : ip = frame.header.srcIp
      · subst hip
        rw [hrow, Option.some.injEq] at hold
        subst hold
        exact ⟨_, hrewrites.lookup_self, refresh_nextHopMac _ _⟩
      · exact ⟨row, (hrewrites.lookup_of_ne hip).trans hrow, rfl⟩

/-- A row after the update is an old one, the new one of the source of the
frame or its refreshed one. -/
theorem TableStep.row_cases
    {node : Node} {frame : Frame} {now : ℕ} {next : RoutingTable}
    (hstep : TableStep node frame now next)
    {ip : IpText} {row : Row} (hrow : lookup next ip = some row) :
    node.row ip = some row ∨
    ip = frame.header.srcIp ∧ node.updates frame.header = true ∧
      (node.row ip = none ∧ row = newRow frame.header frame.srcMac now ∨
        ∃ old, node.row ip = some old ∧
          row = old.refresh frame.header) := by
  cases hstep with
  | keep => exact .inl hrow
  | insert hupdates hnone hrewrites =>
      by_cases hip : ip = frame.header.srcIp
      · subst hip
        rw [hrewrites.lookup_self, Option.some.injEq] at hrow
        exact .inr ⟨rfl, hupdates, .inl ⟨hnone, hrow.symm⟩⟩
      · rw [hrewrites.lookup_of_ne hip] at hrow
        exact .inl hrow
  | @refresh _ old hupdates hold _ hrewrites =>
      by_cases hip : ip = frame.header.srcIp
      · subst hip
        rw [hrewrites.lookup_self, Option.some.injEq] at hrow
        exact .inr ⟨rfl, hupdates, .inr ⟨old, hold, hrow.symm⟩⟩
      · rw [hrewrites.lookup_of_ne hip] at hrow
        exact .inl hrow

/-- Every row after the update was there before, with the same next hop, or
belongs to the source of the frame and leads to its sender. -/
theorem TableStep.row_origin
    {node : Node} {frame : Frame} {now : ℕ} {next : RoutingTable}
    (hstep : TableStep node frame now next)
    {ip : IpText} {row : Row} (hrow : lookup next ip = some row) :
    (∃ old, node.row ip = some old ∧
        row.nextHopMac = old.nextHopMac) ∨
      (ip = frame.header.srcIp ∧ row.nextHopMac = frame.srcMac ∧
        node.row ip = none ∧ node.updates frame.header = true) := by
  rcases hstep.row_cases hrow with
    hkept | ⟨hip, hupdates, ⟨hnone, hnew⟩ | ⟨old, hold, hnew⟩⟩
  · exact .inl ⟨row, hkept, rfl⟩
  · exact .inr ⟨hip, by rw [hnew]; rfl, hnone, hupdates⟩
  · exact .inl ⟨old, hold, by rw [hnew, refresh_nextHopMac]⟩

/-- After the update the node has a row for the source of a route request or
reply, unless the source is the node itself. -/
theorem TableStep.source_row
    {node : Node} {frame : Frame} {now : ℕ} {next : RoutingTable}
    (hpacked : Packed node.table)
    (hstep : TableStep node frame now next)
    (hsrc : frame.header.srcIp ≠ emptyIp)
    (hroute : frame.header.isPayload = false)
    (hforeign : node.owns frame.header.srcIp = false) :
    ∃ row, lookup next frame.header.srcIp = some row := by
  cases hstep with
  | keep hupdates =>
      cases hentry : getRowEntry node.table frame.header.srcIp with
      | none =>
          simp [Node.updates, hroute, hforeign, shouldUpdateRt,
            hentry] at hupdates
      | some i => exact ⟨_, getRowEntry_some hpacked hsrc hentry⟩
  | insert _ _ hrewrites => exact ⟨_, hrewrites.lookup_self⟩
  | refresh _ _ _ hrewrites => exact ⟨_, hrewrites.lookup_self⟩

theorem refresh_of_not_newer
    {row : Row} {head : FrameHead}
    (hid : head.bcId ≤ row.broadcastId)
    (hhops : row.hopCount ≤ head.hopCount) :
    row.refresh head = row := by
  unfold Row.refresh
  rw [if_neg (by omega), if_neg (by omega)]

/-- The rows after a route request or reply of another node: that of its
source is made or refreshed, which leaves a row alone that is up to date. -/
theorem TableStep.lookup_eq
    {node : Node} {frame : Frame} {now : ℕ} {next : RoutingTable}
    (hpacked : Packed node.table)
    (hstep : TableStep node frame now next)
    (hsrc : frame.header.srcIp ≠ emptyIp)
    (hroute : frame.header.isPayload = false)
    (hforeign : node.owns frame.header.srcIp = false) (ip : IpText) :
    lookup next ip =
      if ip = frame.header.srcIp then
        some ((node.row frame.header.srcIp).elim
          (newRow frame.header frame.srcMac now) fun row =>
            row.refresh frame.header)
      else node.row ip := by
  cases hstep with
  | keep hupdates =>
      split
      next hip =>
        subst hip
        have hrefused : shouldUpdateRt node.table frame.header = false := by
          simpa [Node.updates, hroute, hforeign] using hupdates
        unfold shouldUpdateRt at hrefused
        cases hentry : getRowEntry node.table frame.header.srcIp with
        | none => simp [hentry] at hrefused
        | some i =>
            have hrow := getRowEntry_some hpacked hsrc hentry
            simp only [hentry, Bool.or_eq_false_iff, decide_eq_false_iff_not,
              not_lt] at hrefused
            rw [Node.row, hrow, Option.elim_some,
              refresh_of_not_newer hrefused.1 hrefused.2]
      next => rfl
  | insert _ hnone hrewrites =>
      rw [hrewrites.lookup_eq, hnone, Option.elim_none]
      rfl
  | refresh _ hrow _ hrewrites =>
      rw [hrewrites.lookup_eq, hrow, Option.elim_some]
      rfl

/-- A route request or reply leaves an IP without a row exactly when there
was none and the IP is not its source. -/
theorem TableStep.row_eq_none_iff
    {node : Node} {frame : Frame} {now : ℕ} {next : RoutingTable}
    (hpacked : Packed node.table)
    (hstep : TableStep node frame now next)
    (hsrc : frame.header.srcIp ≠ emptyIp)
    (hroute : frame.header.isPayload = false)
    {ip : IpText} (hforeign : node.owns ip = false) :
    lookup next ip = none ↔
      node.row ip = none ∧ frame.header.srcIp ≠ ip := by
  constructor
  · intro hnone
    constructor
    · cases hrow : node.row ip with
      | none => rfl
      | some row =>
          rcases hstep.keeps_row hrow with ⟨row', hrow', _⟩
          rw [hnone] at hrow'
          cases hrow'
    · rintro rfl
      rcases hstep.source_row hpacked hsrc hroute hforeign with
        ⟨row, hrow⟩
      rw [hnone] at hrow
      cases hrow
  · rintro ⟨hnone, hne⟩
    cases hrow : lookup next ip with
    | none => rfl
    | some row =>
        rcases hstep.row_origin hrow with ⟨old, hold, _⟩ | hnew
        · rw [hnone] at hold
          cases hold
        · exact absurd hnew.1.symm hne

theorem TableStep.source_known
    {node next : Node} {frame : Frame} {now : ℕ} {table : RoutingTable}
    (hpacked : Packed node.table)
    (hstep : TableStep node frame now table)
    (hserv : next.serv = node.serv) (htable : next.table = table)
    (hsrc : frame.header.srcIp ≠ emptyIp)
    (hroute : frame.header.isPayload = false) :
    next.owns frame.header.srcIp = true ∨
      ∃ row, next.row frame.header.srcIp = some row := by
  rw [Node.row, htable, Node.owns, hserv, ← Node.owns]
  cases hforeign : node.owns frame.header.srcIp with
  | true => exact .inl rfl
  | false => exact .inr (hstep.source_row hpacked hsrc hroute hforeign)

/-- Broadcast ids of rows come from frames. -/
theorem TableStep.broadcastId_le
    {node : Node} {frame : Frame} {now : ℕ} {next : RoutingTable}
    (hstep : TableStep node frame now next) {limit : ℕ}
    (hrows : ∀ ip row, node.row ip = some row → row.broadcastId ≤ limit)
    (hframe : frame.header.bcId ≤ limit)
    {ip : IpText} {row : Row} (hrow : lookup next ip = some row) :
    row.broadcastId ≤ limit := by
  rcases hstep.row_cases hrow with
    hkept | ⟨_, _, ⟨_, hnew⟩ | ⟨old, hold, hnew⟩⟩
  · exact hrows ip row hkept
  · rw [hnew]
    exact hframe
  · have hlimit := hrows ip old hold
    rw [hnew]
    unfold Row.refresh
    split
    · exact hframe
    · split <;> exact hlimit

end NetworkProgramming.Odr
