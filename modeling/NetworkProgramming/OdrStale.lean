import NetworkProgramming.OdrPending

/-!
# The rows in use

`send_payload` and `send_rrep` look for a row to the destination of what they
send.  This module says for which IPs an input makes a node look, in terms of
the table before it, and what the update of the table does to the rows which
are found.  Frames and requests may have any content.
-/

namespace NetworkProgramming.Odr

open SlotTable

/-- Whatever is sent along a row, by `send_payload` or `send_rrep`, goes to an
IP with the property. -/
def SendsAlong (Good : IpText → Prop) (frames : List Frame) : Prop :=
  ∀ sent ∈ frames, sent.header.type ≠ .rreq → Good sent.header.destIp

/-- The row which `get_row_entry` finds for the IP is not older than
`staleness`; an unused entry of the table is no row. -/
def FreshFor (table : RoutingTable) (staleness time : ℕ) (ip : IpText) :
    Prop :=
  ∀ i, getRowEntry table ip = some i → (table i).isFilled = true →
    time ≤ (table i).ts + staleness

/-- No row is found for the IP, or an unused entry. -/
def Routeless (table : RoutingTable) (ip : IpText) : Prop :=
  ∀ i, getRowEntry table ip = some i → (table i).isFilled = false

/-- The IPs for which a frame makes `send_payload` and `send_rrep` look for a
row. -/
def Node.routesFor (node : Node) (header : FrameHead) : List IpText :=
  match header.type with
  | .rreq =>
      if node.owns header.destIp ||
          (getRowEntry node.table header.destIp).isSome then
        [header.srcIp]
      else []
  | .rrep =>
      if node.owns header.destIp then [header.srcIp]
      else [header.destIp]
  | .payloadReq =>
      if node.owns header.destIp then [header.srcIp]
      else [header.destIp]
  | .payloadResp =>
      if node.owns header.destIp then []
      else [header.destIp]

/-! ## The frames of one call -/

section Calls

variable {node : Node} {Good : IpText → Prop}

theorem routeless_of_none
    {table : RoutingTable} {ip : IpText}
    (hnone : getRowEntry table ip = none) :
    Routeless table ip := by
  intro i hentry
  rw [hnone] at hentry
  cases hentry

theorem sendsAlong_nil : SendsAlong Good [] := by
  intro sent hsent
  cases hsent

theorem sendsAlong_append
    {first second : List Frame} :
    SendsAlong Good (first ++ second) ↔
      SendsAlong Good first ∧ SendsAlong Good second := by
  simp only [SendsAlong, List.mem_append]
  constructor
  · intro hall
    exact ⟨fun sent hsent => hall sent (.inl hsent),
      fun sent hsent => hall sent (.inr hsent)⟩
  · rintro ⟨hfirst, hsecond⟩ sent (hsent | hsent)
    · exact hfirst sent hsent
    · exact hsecond sent hsent

theorem sendsAlong_sendRreq
    (bId hCount : ℕ) (srcIp destIp : IpText) (force : ℤ) :
    SendsAlong Good (node.sendRreq bId hCount srcIp destIp force) := by
  intro sent hsent hne
  rw [Node.sendRreq, List.mem_map] at hsent
  rcases hsent with ⟨sv, _, rfl⟩
  exact absurd rfl hne

/-- The same frame on every interface. -/
theorem sendsAlong_map_iff
    {header : FrameHead} (htype : header.type ≠ .rreq) (destMac : Mac) :
    SendsAlong Good (node.serv.map fun sv => frameOn sv destMac header) ↔
      node.serv = [] ∨ Good header.destIp := by
  constructor
  · intro hall
    cases hserv : node.serv with
    | nil => exact .inl rfl
    | cons sv rest =>
        refine .inr (hall (frameOn sv destMac header) ?_ htype)
        rw [hserv]
        exact List.mem_cons_self
  · rintro hcases sent hsent _
    rcases List.mem_map.mp hsent with ⟨sv, hsv, rfl⟩
    rcases hcases with hnone | hgood
    · rw [hnone] at hsv
      cases hsv
    · exact hgood

theorem sendsAlong_sendRrep_iff
    {bId hCount : ℕ} {destIp srcIp : IpText} {stray : Mac} :
    SendsAlong Good (node.sendRrep bId hCount destIp srcIp stray) ↔
      node.serv = [] ∨ Good destIp :=
  sendsAlong_map_iff (by decide : DataType.rrep ≠ .rreq) _

theorem sendsAlong_sendPayload_iff
    (hgood : ∀ ip, Routeless node.table ip → Good ip)
    {srcIp destIp : IpText} {type : DataType} {msg : Msg} {force : ℤ}
    (htype : type ≠ .rreq) :
    SendsAlong Good (node.sendPayload srcIp destIp type msg force) ↔
      node.serv = [] ∨ Good destIp := by
  cases hentry : getRowEntry node.table destIp with
  | none =>
      simp only [Node.sendPayload, hentry]
      constructor
      · intro _
        exact .inr (hgood destIp (routeless_of_none hentry))
      · intro _ sent hsent hne
        rcases List.mem_flatMap.mp hsent with ⟨sv, _, hrreq⟩
        exact sendsAlong_sendRreq _ _ _ _ _ sent hrreq hne
  | some i =>
      simp only [Node.sendPayload, hentry]
      exact sendsAlong_map_iff htype _

end Calls

/-! ## The frames of one input -/

section Inputs

variable {node : Node} {Good : IpText → Prop}

theorem sendsAlong_onRreq_iff
    {header : FrameHead} {update : Bool} {stray : Mac} :
    SendsAlong Good (node.onRreq header update stray) ↔
      node.serv = [] ∨
        ((node.owns header.destIp ||
            (getRowEntry node.table header.destIp).isSome) = true →
          Good header.srcIp) := by
  have hflood : SendsAlong Good (if (!node.owns header.destIp &&
      !(getRowEntry node.table header.destIp).isSome && update) = true
      then node.sendRreq header.bcId (header.hopCount + 1) header.srcIp
        header.destIp header.forceFlag else []) := by
    split
    · exact sendsAlong_sendRreq _ _ _ _ _
    · exact sendsAlong_nil
  simp only [Node.onRreq, sendsAlong_append]
  rw [and_iff_right hflood]
  split
  next hknown =>
    rw [sendsAlong_sendRrep_iff]
    simp only [hknown, true_implies]
  next hunknown =>
    constructor
    · intro _
      exact .inr fun hknown => absurd hknown hunknown
    · intro _
      exact sendsAlong_nil

theorem sendsAlong_onRrep_iff
    (hgood : ∀ ip, Routeless node.table ip → Good ip)
    {header : FrameHead} {stray : Mac} :
    SendsAlong Good (node.onRrep header stray) ↔
      node.serv = [] ∨ Good
        (if node.owns header.destIp then header.srcIp
          else header.destIp) := by
  unfold Node.onRrep
  split
  · exact sendsAlong_sendPayload_iff hgood (by decide)
  · exact sendsAlong_sendRrep_iff

theorem sendsAlong_onPayload_iff
    (hgood : ∀ ip, Routeless node.table ip → Good ip)
    {header : FrameHead} (hpayload : header.isPayload = true)
    {serverMsg : Msg} :
    SendsAlong Good (node.onPayload header serverMsg).frames ↔
      node.serv = [] ∨ ∀ ip ∈
        (if node.owns header.destIp then
          if header.type = .payloadReq then [header.srcIp] else []
        else [header.destIp]), Good ip := by
  unfold Node.onPayload
  by_cases howns : node.owns header.destIp = true
  · rw [if_pos howns, if_pos howns]
    by_cases hreq : header.type = .payloadReq
    · rw [if_pos hreq, if_pos hreq, List.forall_mem_singleton]
      exact sendsAlong_sendPayload_iff hgood (by decide)
    · rw [if_neg hreq, if_neg hreq, answerClient_frames]
      simp [SendsAlong]
  · rw [if_neg howns, if_neg howns, List.forall_mem_singleton]
    split
    next =>
      refine sendsAlong_sendPayload_iff hgood ?_
      intro hrreq
      rw [not_isPayload_of_rreq hrreq] at hpayload
      cases hpayload
    next hrow =>
      have hnone : getRowEntry node.table header.destIp = none := by
        simpa using hrow
      constructor
      · intro _
        exact .inr (hgood _ (routeless_of_none hnone))
      · intro _
        exact sendsAlong_nil

/-- What is sent because of a frame goes along the rows of the updated
table. -/
theorem sendsAlong_processFrame_iff
    {frame : Frame} {outside : Outside} {table : RoutingTable}
    (hnext : node.nextTable frame outside.now = some table)
    (hgood : ∀ ip, Routeless table ip → Good ip) :
    SendsAlong Good (node.processFrame frame outside).frames ↔
      node.serv = [] ∨
        ∀ ip ∈ { node with table := table }.routesFor frame.header,
          Good ip := by
  simp only [Node.processFrame, Node.routesFor, hnext]
  cases htype : frame.header.type with
  | rreq =>
      refine sendsAlong_onRreq_iff.trans (or_congr_right ?_)
      dsimp only
      split <;> simp_all
  | rrep =>
      refine (sendsAlong_onRrep_iff hgood).trans (or_congr_right ?_)
      dsimp only
      split <;> simp_all
  | payloadReq =>
      have hpayload : frame.header.isPayload = true := by
        simp [FrameHead.isPayload, htype]
      refine (sendsAlong_onPayload_iff hgood hpayload).trans ?_
      simp [htype]
  | payloadResp =>
      have hpayload : frame.header.isPayload = true := by
        simp [FrameHead.isPayload, htype]
      refine (sendsAlong_onPayload_iff hgood hpayload).trans ?_
      simp [htype]

theorem sendsAlong_requests_iff
    (hgood : ∀ ip, Routeless node.table ip → Good ip)
    {destIp : IpText} {force : ℤ} :
    SendsAlong Good (node.serv.flatMap fun sv =>
        node.sendPayload sv.ip destIp .payloadReq blankMsg force) ↔
      node.serv = [] ∨ Good destIp := by
  constructor
  · intro hall
    cases hserv : node.serv with
    | nil => exact .inl rfl
    | cons sv rest =>
        have hcall : SendsAlong Good (node.sendPayload sv.ip destIp
            .payloadReq blankMsg force) := by
          intro sent hsent
          refine hall sent (List.mem_flatMap.mpr ⟨sv, ?_, hsent⟩)
          rw [hserv]
          exact List.mem_cons_self
        rw [sendsAlong_sendPayload_iff hgood (by decide), hserv] at hcall
        exact hcall
  · intro hcases sent hsent
    rcases List.mem_flatMap.mp hsent with ⟨sv, _, hcall⟩
    exact (sendsAlong_sendPayload_iff hgood (by decide)).mpr hcases sent
      hcall

/-- The request of a client finds a slot and does not clear the table. -/
def Node.routesRequest (node : Node) (peer : PeerInfo) : Bool :=
  (node.pushDataToBuf peer).isSome && decide (peer.flag ≠ 1)

theorem isSome_pushDataToBuf (node : Node) (id : ℕ) (peer : PeerInfo) :
    ({ node with broadcastId := id }.pushDataToBuf peer).isSome =
      (node.pushDataToBuf peer).isSome := by
  simp only [Node.pushDataToBuf, Option.isSome_map]

theorem routeless_empty (ip : IpText) :
    Routeless (fun _ => emptyRow) ip := by
  intro i _
  rfl

theorem sendsAlong_clientRequest_iff
    {peer : PeerInfo}
    (hgood : ∀ ip,
      Routeless (node.clientRequest peer).node.table ip → Good ip) :
    SendsAlong Good (node.clientRequest peer).frames ↔
      node.serv = [] ∨
        (node.routesRequest peer = true → Good peer.destIp) := by
  have hroom := isSome_pushDataToBuf node (node.broadcastId + 1) peer
  unfold Node.clientRequest at hgood ⊢
  dsimp only at hgood ⊢
  split
  next hfull =>
    rw [hfull] at hroom
    simp [Node.routesRequest, ← hroom, sendsAlong_nil]
  next stored hstored =>
    simp only [hstored] at hgood
    have hwith := pushDataToBuf_withTable hstored
    rw [hstored] at hroom
    have hserv : stored.serv = node.serv := hwith.serv
    by_cases hforce : peer.flag = 1
    · have hnothing : node.routesRequest peer = false := by
        simp [Node.routesRequest, hforce]
      rw [hnothing]
      simp only [Bool.false_eq_true, false_implies, or_true, iff_true]
      by_cases hnone : stored.serv = []
      · rw [if_neg (by simp [hnone])]
        intro sent hsent
        simp [hnone] at hsent
      · rw [if_pos ⟨hforce, hnone⟩] at hgood ⊢
        intro sent _ _
        exact hgood _ (routeless_empty _)
    · have hasks : node.routesRequest peer = true := by
        simp [Node.routesRequest, hforce, ← hroom]
      rw [if_neg (fun hboth => hforce hboth.1)] at hgood ⊢
      simp only [hasks, true_implies]
      rw [← hserv]
      exact sendsAlong_requests_iff hgood

end Inputs

/-- A client request clears the table. -/
def Node.clears (node : Node) (peer : PeerInfo) : Bool :=
  (node.pushDataToBuf peer).isSome &&
    decide (peer.flag = 1 ∧ node.serv ≠ [])

theorem clientRequest_table (node : Node) (peer : PeerInfo) :
    (node.clientRequest peer).node.table =
      if node.clears peer then fun _ => emptyRow else node.table := by
  have hroom := isSome_pushDataToBuf node (node.broadcastId + 1) peer
  unfold Node.clientRequest Node.clears
  dsimp only
  split
  next hfull =>
    rw [hfull] at hroom
    simp [← hroom]
  next stored hstored =>
    have hwith := pushDataToBuf_withTable hstored
    have hserv : stored.serv = node.serv := hwith.serv
    have htable : stored.table = node.table := hwith.table
    rw [hstored] at hroom
    rw [← hroom, hserv]
    simp only [Option.isSome_some, Bool.true_and, decide_eq_true_eq]
    split
    · rfl
    · exact htable

/-! ## The table before and after the update -/

/-- The unused entries are those with an empty IP.  Frames of any content
keep this; that the unused entries are zero they do not. -/
def Keyed (table : RoutingTable) : Prop :=
  ∀ i, (table i).isFilled = false ↔ (table i).destIp = emptyIp

theorem keyed_empty : Keyed fun _ => emptyRow := by
  intro i
  exact iff_of_true rfl rfl

@[simp]
theorem refresh_ts (row : Row) (head : FrameHead) :
    (row.refresh head).ts = row.ts := by
  unfold Row.refresh
  split
  · rfl
  · split <;> rfl

/-- What the update does to a table: nothing, a new row in an unused entry,
or a refreshed row. -/
theorem nextTable_cases
    {node : Node} {frame : Frame} {now : ℕ} {table : RoutingTable}
    (hnext : node.nextTable frame now = some table) :
    table = node.table ∨
      (∃ i, getRowEntry node.table frame.header.srcIp = none ∧
        (node.table i).isFilled = false ∧
        table = Function.update node.table i
          (newRow frame.header frame.srcMac now)) ∨
      ∃ i, table = Function.update node.table i
        ((node.table i).refresh frame.header) := by
  cases nextTable_write hnext with
  | keep => exact .inl rfl
  | insert _ hnone hfree =>
      exact .inr (.inl ⟨_, hnone, (firstFree_eq_some_iff.mp hfree).1, rfl⟩)
  | refresh => exact .inr (.inr ⟨_, rfl⟩)

theorem Keyed.ne_emptyIp_of_none
    {table : RoutingTable} (hkeyed : Keyed table) {i : Fin 100}
    (hfree : (table i).isFilled = false) {ip : IpText}
    (hnone : getRowEntry table ip = none) :
    ip ≠ emptyIp := by
  rintro rfl
  exact scanAll_eq_none_iff.mp hnone i ((hkeyed i).mp hfree)

theorem Keyed.insert
    {table : RoutingTable} (hkeyed : Keyed table) {i : Fin 100} {row : Row}
    (hfilled : row.isFilled = true) (hip : row.destIp ≠ emptyIp) :
    Keyed (Function.update table i row) := by
  intro j
  by_cases hj : j = i
  · subst hj
    rw [Function.update_self, hfilled]
    exact iff_of_false Bool.true_eq_false.mp hip
  · rw [Function.update_of_ne hj]
    exact hkeyed j

theorem Keyed.refresh
    {table : RoutingTable} (hkeyed : Keyed table) (i : Fin 100)
    (head : FrameHead) :
    Keyed (Function.update table i ((table i).refresh head)) := by
  intro j
  by_cases hj : j = i
  · subst hj
    rw [Function.update_self, refresh_isFilled, refresh_destIp]
    exact hkeyed j
  · rw [Function.update_of_ne hj]
    exact hkeyed j

theorem Keyed.nextTable
    {node : Node} (hkeyed : Keyed node.table) {frame : Frame} {now : ℕ}
    {table : RoutingTable}
    (hnext : node.nextTable frame now = some table) :
    Keyed table := by
  rcases nextTable_cases hnext with
    rfl | ⟨i, hnone, hfree, rfl⟩ | ⟨i, rfl⟩
  · exact hkeyed
  · exact hkeyed.insert rfl (hkeyed.ne_emptyIp_of_none hfree hnone)
  · exact hkeyed.refresh i _

theorem getRowEntry_isSome_iff {table : RoutingTable} {ip : IpText} :
    (getRowEntry table ip).isSome = true ↔ ∃ i, (table i).destIp = ip := by
  rw [← Option.ne_none_iff_isSome, ne_eq, getRowEntry, scanAll_eq_none_iff]
  push Not
  rfl

theorem Keyed.isFilled_of_getRowEntry
    {table : RoutingTable} (hkeyed : Keyed table) {ip : IpText}
    (hip : ip ≠ emptyIp) {i : Fin 100}
    (hentry : getRowEntry table ip = some i) :
    (table i).isFilled = true := by
  have hkey : (table i).destIp = ip := (scanAll_eq_some_iff.mp hentry).1
  rw [← Bool.not_eq_false, hkeyed i, hkey]
  exact hip

/-- The row made for a source is the one found for it. -/
theorem getRowEntry_insert_self
    {table : RoutingTable} {row : Row}
    (hnone : getRowEntry table row.destIp = none) (i : Fin 100) :
    getRowEntry (Function.update table i row) row.destIp = some i := by
  refine scanAll_eq_some_iff.mpr ⟨?_, fun j hj => ?_⟩
  · rw [Function.update_self]
    rfl
  · rw [Function.update_of_ne hj.ne]
    exact scanAll_eq_none_iff.mp hnone j

/-- The rows found for other IPs are those found before. -/
theorem getRowEntry_insert_iff
    {table : RoutingTable} (hkeyed : Keyed table) {i : Fin 100}
    (hfree : (table i).isFilled = false) {row : Row} {ip : IpText}
    (hne : row.destIp ≠ ip) {j : Fin 100}
    (hfilled : (table j).isFilled = true) :
    getRowEntry (Function.update table i row) ip = some j ↔
      getRowEntry table ip = some j := by
  have hj : j ≠ i := by
    rintro rfl
    rw [hfree] at hfilled
    cases hfilled
  unfold getRowEntry
  rw [scanAll_eq_some_iff, scanAll_eq_some_iff,
    Function.update_of_ne hj]
  refine and_congr_right fun hkey => forall₂_congr fun k _ => ?_
  by_cases hk : k = i
  · subst hk
    rw [Function.update_self]
    have hempty := (hkeyed k).mp hfree
    have hip : ip ≠ emptyIp := by
      rintro rfl
      rw [(hkeyed j).mpr hkey] at hfilled
      cases hfilled
    refine iff_of_true hne ?_
    change (table k).destIp ≠ ip
    rw [hempty]
    exact hip.symm
  · rw [Function.update_of_ne hk]

theorem getRowEntry_refresh
    (table : RoutingTable) (i : Fin 100) (head : FrameHead) (ip : IpText) :
    getRowEntry (Function.update table i ((table i).refresh head)) ip =
      getRowEntry table ip := by
  refine scanAll_congr (fun j => ?_) ip
  by_cases hj : j = i
  · subst hj
    rw [Function.update_self]
    exact refresh_destIp _ _
  · rw [Function.update_of_ne hj]

theorem freshFor_of_routeless
    {table : RoutingTable} {ip : IpText} (hnone : Routeless table ip)
    {staleness time : ℕ} :
    FreshFor table staleness time ip := by
  intro i hentry hfilled
  rw [hnone i hentry] at hfilled
  cases hfilled

/-- At the time of the update, a row is as fresh after it as before: a new
row is fresh, and a refreshed one keeps its time. -/
theorem freshFor_nextTable_iff
    {node : Node} (hkeyed : Keyed node.table) {frame : Frame}
    {staleness now : ℕ} {table : RoutingTable}
    (hnext : node.nextTable frame now = some table) (ip : IpText) :
    FreshFor table staleness now ip ↔
      FreshFor node.table staleness now ip := by
  rcases nextTable_cases hnext with
    rfl | ⟨i, hnone, hfree, rfl⟩ | ⟨i, rfl⟩
  · rfl
  · by_cases hip : frame.header.srcIp = ip
    · subst hip
      refine iff_of_true ?_ (freshFor_of_routeless (routeless_of_none hnone))
      intro j hentry hfilled
      by_cases hj : j = i
      · subst hj
        simp [newRow]
      · have hkey := (scanAll_eq_some_iff.mp hentry).1
        rw [Function.update_of_ne hj] at hkey
        exact absurd hkey (scanAll_eq_none_iff.mp hnone j)
    · refine forall_congr' fun j => ?_
      by_cases hj : j = i
      · -- The new row is for another IP, the old one was unused.
        subst hj
        rw [Function.update_self, hfree]
        refine iff_of_true (fun hentry _ => ?_)
          fun _ hfilled => nomatch hfilled
        have hkey := (scanAll_eq_some_iff.mp hentry).1
        rw [Function.update_self] at hkey
        exact absurd hkey hip
      · rw [Function.update_of_ne hj]
        constructor
        · intro hfresh hentry hfilled
          exact hfresh ((getRowEntry_insert_iff hkeyed hfree hip
            hfilled).mpr hentry) hfilled
        · intro hfresh hentry hfilled
          exact hfresh ((getRowEntry_insert_iff hkeyed hfree hip
            hfilled).mp hentry) hfilled
  · unfold FreshFor
    rw [getRowEntry_refresh]
    refine forall_congr' fun j => ?_
    by_cases hj : j = i
    · subst hj
      rw [Function.update_self, refresh_isFilled, refresh_ts]
    · rw [Function.update_of_ne hj]

/-- A frame looks for the same rows in the updated table, unless its source
has just got one. -/
theorem routesFor_nextTable
    {node : Node} {frame : Frame} {now : ℕ} {table : RoutingTable}
    (hnext : node.nextTable frame now = some table) :
    { node with table := table }.routesFor frame.header =
        node.routesFor frame.header ∨
      frame.header.type = .rreq ∧ node.updates frame.header = true ∧
        getRowEntry node.table frame.header.srcIp = none := by
  unfold Node.routesFor
  cases htype : frame.header.type with
  | rreq =>
      cases nextTable_write hnext with
      | keep => exact .inl rfl
      | insert hupdates hnone => exact .inr ⟨rfl, hupdates, hnone⟩
      | refresh =>
          simp only [getRowEntry_refresh]
          exact .inl rfl
  | rrep => exact .inl rfl
  | payloadReq => exact .inl rfl
  | payloadResp => exact .inl rfl

theorem eq_srcIp_of_mem_routesFor
    {node : Node} {header : FrameHead} (htype : header.type = .rreq)
    {ip : IpText} (hip : ip ∈ node.routesFor header) :
    ip = header.srcIp := by
  simp only [Node.routesFor, htype] at hip
  split at hip
  · exact List.mem_singleton.mp hip
  · cases hip

theorem freshFor_routes_iff
    {node : Node} (hkeyed : Keyed node.table) {frame : Frame}
    {staleness now : ℕ} {table : RoutingTable}
    (hnext : node.nextTable frame now = some table) :
    (∀ ip ∈ { node with table := table }.routesFor frame.header,
        FreshFor table staleness now ip) ↔
      ∀ ip ∈ node.routesFor frame.header,
        FreshFor node.table staleness now ip := by
  simp only [freshFor_nextTable_iff hkeyed hnext]
  rcases routesFor_nextTable hnext with hsame | ⟨htype, _, hnone⟩
  · rw [hsame]
  · have hfresh : FreshFor node.table staleness now frame.header.srcIp :=
      freshFor_of_routeless (routeless_of_none hnone)
    refine iff_of_true ?_ ?_
    · intro ip hip
      rw [eq_srcIp_of_mem_routesFor htype hip]
      exact hfresh
    · intro ip hip
      rw [eq_srcIp_of_mem_routesFor htype hip]
      exact hfresh

end NetworkProgramming.Odr
