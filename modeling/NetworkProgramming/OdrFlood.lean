import NetworkProgramming.OdrHistory

/-!
# Requests which were passed on

A node passes a route request on when its table takes something from it.  A
copy of the request is refused when the row of its source is at least as
fresh and at least as short, and rows only get fresher and shorter until the
table is cleared.  The update of a row takes over either the broadcast id or
the hop count, so a request which is both fresher and shorter is not refused
the second time.  A request with an empty source marks the first unused row,
and the mark is lost when that row is taken.
-/

namespace NetworkProgramming.Odr

open SlotTable

/-! ## Rows and lookups -/

/-- The empty IP finds the first unused row. -/
theorem Keyed.getRowEntry_emptyIp
    {table : RoutingTable} (hkeyed : Keyed table) :
    getRowEntry table emptyIp = getEmptyRow table := by
  ext i
  rw [getRowEntry, getEmptyRow, scanAll_eq_some_iff, firstFree_eq_some_iff]
  apply and_congr
  · exact (hkeyed i).symm
  · refine forall₂_congr fun j _ => ?_
    rw [← Bool.not_eq_false]
    exact not_congr (hkeyed j).symm

theorem refresh_hopCount_le_head
    {row : Row} {head : FrameHead}
    (hone : ¬ (row.broadcastId < head.bcId ∧
      head.hopCount < row.hopCount)) :
    (row.refresh head).hopCount ≤ head.hopCount := by
  unfold Row.refresh
  split
  · simp only
    omega
  · split
    · exact le_rfl
    · omega

/-! ## Refused copies -/

/-- The IP is one of the node or of a row in use. -/
def Node.Knows (node : Node) (ip : IpText) : Prop :=
  node.owns ip = true ∨
    ∃ i, (node.table i).isFilled = true ∧ (node.table i).destIp = ip

instance (node : Node) (ip : IpText) : Decidable (node.Knows ip) :=
  inferInstanceAs (Decidable (_ ∨ _))

/-- A request with the key is not passed on: its destination is known, its
source is the node itself, or the row which the table finds for the source is
up to date.  With a full table there may be no such row, and then the request
stops the node. -/
def Node.Settled (node : Node) (key : FloodKey) : Prop :=
  node.Knows key.destIp ∨ node.owns key.srcIp = true ∨
  (((getRowEntry node.table key.srcIp).isSome = true ∨
      ∀ i, (node.table i).isFilled = true) ∧
    ∀ i, getRowEntry node.table key.srcIp = some i →
      key.bcId ≤ (node.table i).broadcastId ∧
        (node.table i).hopCount ≤ key.hopCount)

theorem Node.rreq_of_floods
    {node : Node} {frame : Frame} {now : ℕ}
    (hfloods : node.floods frame now = true) :
    frame.header.type = .rreq := by
  unfold Node.floods at hfloods
  split at hfloods
  next => cases hfloods
  next =>
    simp only [Bool.and_eq_true, decide_eq_true_eq] at hfloods
    exact hfloods.1.1.1

theorem Node.Settled.not_floods
    {node : Node} {frame : Frame}
    (hsettled : node.Settled frame.header.floodKey) (now : ℕ) :
    node.floods frame now = false := by
  unfold Node.floods
  split
  next => rfl
  next table hnext =>
    rcases hsettled with (howns | ⟨i, hfilled, hkey⟩) | howns |
      ⟨hfound, hrefused⟩
    · change node.owns frame.header.destIp = true at howns
      simp [howns]
    · have hrow := nextTable_filled hnext hfilled
      have hsome : (getRowEntry table frame.header.destIp).isSome = true :=
        getRowEntry_isSome_iff.mpr ⟨i, hrow.2.1.trans hkey⟩
      simp [hsome]
    · change node.owns frame.header.srcIp = true at howns
      simp [Node.updates, howns]
    · suffices node.updates frame.header = false by simp [this]
      cases hupdates : node.updates frame.header with
      | false => rfl
      | true =>
          cases hentry : getRowEntry node.table frame.header.srcIp with
          | none =>
              rcases hfound with hsome | hfull
              · rw [show frame.header.floodKey.srcIp =
                  frame.header.srcIp from rfl, hentry] at hsome
                cases hsome
              · rw [nextTable_eq_none_iff.mpr ⟨hupdates, hentry, hfull⟩]
                  at hnext
                cases hnext
          | some i =>
              have hrow := hrefused i hentry
              have hshould := (Node.updates_eq_true hupdates).2.1
              simp only [shouldUpdateRt, hentry, Bool.or_eq_true,
                decide_eq_true_eq] at hshould
              change frame.header.bcId ≤ _ ∧ _ ≤ frame.header.hopCount
                at hrow
              omega

/-! ## What a later frame keeps -/

/-- Only the first unused row can be marked by a frame with an empty
source. -/
def Unmarked (table : RoutingTable) : Prop :=
  ∀ j, (table j).isFilled = false → (table j).hopCount = 0 ∧
    ∀ i < j, (table i).isFilled = false → (table j).broadcastId = 0

/-- The first unused row is not marked when it is taken. -/
def Node.TakesUnmarked (node : Node) (frame : Frame) : Prop :=
  node.updates frame.header = true →
    getRowEntry node.table frame.header.srcIp = none →
      ∀ i ∈ getEmptyRow node.table, (node.table i).broadcastId = 0

instance (node : Node) (frame : Frame) :
    Decidable (node.TakesUnmarked frame) :=
  inferInstanceAs (Decidable (_ → _ → ∀ i ∈ getEmptyRow node.table, _))

theorem Unmarked.nextTable
    {node : Node} (hkeyed : Keyed node.table)
    (hunmarked : Unmarked node.table) {frame : Frame} {now : ℕ}
    {table : RoutingTable}
    (hnext : node.nextTable frame now = some table) :
    Unmarked table := by
  cases nextTable_write hnext with
  | keep => exact hunmarked
  | @insert i _ _ _ =>
      intro j hj
      have hji : j ≠ i := by
        rintro rfl
        simp [newRow] at hj
      rw [Function.update_of_ne hji] at hj ⊢
      refine ⟨(hunmarked j hj).1, fun k hk hunused => ?_⟩
      have hki : k ≠ i := by
        rintro rfl
        simp [newRow] at hunused
      rw [Function.update_of_ne hki] at hunused
      exact (hunmarked j hj).2 k hk hunused
  | @refresh i _ hentry _ =>
      have hflag : ∀ j, (Function.update node.table i
          ((node.table i).refresh frame.header) j).isFilled =
          (node.table j).isFilled := by
        intro j
        by_cases hji : j = i
        · subst hji
          rw [Function.update_self, refresh_isFilled]
        · rw [Function.update_of_ne hji]
      intro j hj
      rw [hflag] at hj
      obtain ⟨hhops, hids⟩ := hunmarked j hj
      by_cases hji : j = i
      · -- an unused row which is found has no unused one in front of it
        subst hji
        rw [Function.update_self]
        have hle := refresh_hopCount_le (node.table j) frame.header
        refine ⟨by omega, fun k hk hunused => ?_⟩
        rw [hflag] at hunused
        have hsrc : (node.table j).destIp = frame.header.srcIp :=
          (scanAll_eq_some_iff.mp hentry).1
        have hother := (scanAll_eq_some_iff.mp hentry).2 k hk
        refine absurd ?_ hother
        change (node.table k).destIp = _
        rw [(hkeyed k).mp hunused, ← hsrc, (hkeyed j).mp hj]
      · rw [Function.update_of_ne hji]
        refine ⟨hhops, fun k hk hunused => ?_⟩
        rw [hflag] at hunused
        exact hids k hk hunused

theorem Node.Knows.nextTable
    {node next : Node} {frame : Frame} {now : ℕ} {table : RoutingTable}
    (hnext : node.nextTable frame now = some table)
    (hwith : node.WithTable next table) {ip : IpText}
    (hknows : node.Knows ip) :
    next.Knows ip := by
  rcases hknows with howns | ⟨i, hfilled, hkey⟩
  · refine .inl ?_
    rw [Node.owns, hwith.serv]
    exact howns
  · have hrow := nextTable_filled hnext hfilled
    refine .inr ⟨i, ?_, ?_⟩
    · rw [hwith.table]
      exact hrow.1
    · rw [hwith.table]
      exact hrow.2.1.trans hkey

theorem Node.Settled.nextTable
    {node next : Node} (hkeyed : Keyed node.table)
    (hunmarked : Unmarked node.table) {frame : Frame} {now : ℕ}
    {table : RoutingTable}
    (hnext : node.nextTable frame now = some table)
    (hwith : node.WithTable next table)
    (htakes : node.TakesUnmarked frame) {key : FloodKey}
    (hsettled : node.Settled key) :
    next.Settled key := by
  rcases hsettled with hknows | howns | ⟨hfound, hrefused⟩
  · exact .inl (hknows.nextTable hnext hwith)
  · refine .inr (.inl ?_)
    rw [Node.owns, hwith.serv]
    exact howns
  · refine .inr (.inr ?_)
    rw [hwith.table]
    have hkeyed' := hkeyed.nextTable hnext
    cases nextTable_write hnext with
    | keep => exact ⟨hfound, hrefused⟩
    | @insert i hupdates hnone hfree =>
        have hunused := (firstFree_eq_some_iff.mp hfree).1
        have hsome : (getRowEntry node.table key.srcIp).isSome = true := by
          rcases hfound with hsome | hfull
          · exact hsome
          · exact absurd ((hfull i).symm.trans hunused) (by decide)
        obtain ⟨j, hentry⟩ := Option.isSome_iff_exists.mp hsome
        have hne : frame.header.srcIp ≠ key.srcIp := by
          intro hsame
          rw [← hsame, hnone] at hentry
          cases hentry
        by_cases hempty : key.srcIp = emptyIp
        · -- the row found so far is taken; the next unused one is zero
          rw [hempty] at hentry hrefused ⊢
          rw [hkeyed.getRowEntry_emptyIp] at hentry hrefused
          rw [hkeyed'.getRowEntry_emptyIp]
          have hid : key.bcId = 0 := by
            have hmark := htakes hupdates hnone i hfree
            have hle := (hrefused i hfree).1
            omega
          cases hnextFree : getEmptyRow (Function.update node.table i
              (newRow frame.header frame.srcMac now)) with
          | none =>
              refine ⟨.inr (firstFree_eq_none_iff.mp hnextFree), ?_⟩
              intro k hk
              cases hk
          | some k =>
              have hk := (firstFree_eq_some_iff.mp hnextFree).1
              have hki : k ≠ i := by
                rintro rfl
                simp [newRow, KeyedSlot.filled] at hk
              rw [Function.update_of_ne hki] at hk
              have hrow := hunmarked k hk
              refine ⟨.inl rfl, fun l hl => ?_⟩
              rw [Option.some.injEq] at hl
              subst hl
              rw [Function.update_of_ne hki, hid, hrow.1]
              exact ⟨Nat.zero_le _, Nat.zero_le _⟩
        · have hfilled := hkeyed.isFilled_of_getRowEntry hempty hentry
          have hji : j ≠ i := by
            rintro rfl
            exact absurd (hfilled.symm.trans hunused) (by decide)
          have hentry' : getRowEntry (Function.update node.table i
              (newRow frame.header frame.srcMac now)) key.srcIp = some j :=
            (getRowEntry_insert_iff hkeyed hunused hne hfilled).mpr hentry
          refine ⟨.inl (by rw [hentry']; rfl), fun k hk => ?_⟩
          rw [hentry', Option.some.injEq] at hk
          subst hk
          rw [Function.update_of_ne hji]
          exact hrefused j hentry
    | @refresh i _ _ _ =>
        rw [getRowEntry_refresh]
        refine ⟨hfound.imp_right fun hfull j => ?_, fun j hj => ?_⟩
        · by_cases hji : j = i
          · subst hji
            rw [Function.update_self, refresh_isFilled]
            exact hfull j
          · rw [Function.update_of_ne hji]
            exact hfull j
        · obtain ⟨hid, hhops⟩ := hrefused j hj
          by_cases hji : j = i
          · subst hji
            have hle := refresh_hopCount_le (node.table j) frame.header
            rw [Function.update_self, refresh_broadcastId]
            omega
          · rw [Function.update_of_ne hji]
            exact ⟨hid, hhops⟩

/-! ## The request itself -/

/-- A request for an unknown destination is not both fresher and shorter than
the row of its source. -/
def Node.TakesWhole (node : Node) (frame : Frame) : Prop :=
  frame.header.type = .rreq → ¬ node.Knows frame.header.destIp →
    ∀ i ∈ getRowEntry node.table frame.header.srcIp,
      ¬ ((node.table i).broadcastId < frame.header.bcId ∧
        frame.header.hopCount < (node.table i).hopCount)

instance (node : Node) (frame : Frame) :
    Decidable (node.TakesWhole frame) :=
  inferInstanceAs (Decidable (_ → ¬ _ →
    ∀ i ∈ getRowEntry node.table frame.header.srcIp, ¬ (_ ∧ _)))

/-- After a request was processed a copy of it is refused. -/
theorem Node.settled_of_processed
    {node next : Node} {frame : Frame} {now : ℕ} {table : RoutingTable}
    (htype : frame.header.type = .rreq)
    (hnext : node.nextTable frame now = some table)
    (hwith : node.WithTable next table)
    (hwhole : node.TakesWhole frame) :
    next.Settled frame.header.floodKey := by
  by_cases hknows : node.Knows frame.header.destIp
  · exact .inl (hknows.nextTable hnext hwith)
  · refine .inr ?_
    cases howns : node.owns frame.header.srcIp with
    | true =>
        refine .inl ?_
        rw [Node.owns, hwith.serv]
        exact howns
    | false =>
        refine .inr ?_
        rw [hwith.table]
        change ((getRowEntry table frame.header.srcIp).isSome = true ∨ _) ∧
          ∀ i, getRowEntry table frame.header.srcIp = some i →
            frame.header.bcId ≤ _ ∧ _ ≤ frame.header.hopCount
        cases nextTable_write hnext with
        | keep hupdates =>
            have hrefused : shouldUpdateRt node.table frame.header =
                false := by
              simpa [Node.updates, not_isPayload_of_rreq htype, howns]
                using hupdates
            unfold shouldUpdateRt at hrefused
            cases hentry : getRowEntry node.table frame.header.srcIp with
            | none => simp [hentry] at hrefused
            | some i =>
                simp only [hentry, Bool.or_eq_false_iff,
                  decide_eq_false_iff_not, not_lt] at hrefused
                refine ⟨.inl rfl, fun j hj => ?_⟩
                rw [Option.some.injEq] at hj
                subst hj
                exact hrefused
        | @insert i _ hnone _ =>
            have hentry : getRowEntry (Function.update node.table i
                (newRow frame.header frame.srcMac now))
                frame.header.srcIp = some i :=
              getRowEntry_insert_self hnone i
            rw [hentry]
            refine ⟨.inl rfl, fun j hj => ?_⟩
            rw [Option.some.injEq] at hj
            subst hj
            rw [Function.update_self]
            exact ⟨le_rfl, le_rfl⟩
        | @refresh i _ hentry _ =>
            rw [getRowEntry_refresh, hentry]
            refine ⟨.inl rfl, fun j hj => ?_⟩
            rw [Option.some.injEq] at hj
            subst hj
            rw [Function.update_self, refresh_broadcastId]
            exact ⟨le_max_left _ _,
              refresh_hopCount_le_head (hwhole htype hknows i hentry)⟩

/-- What a request makes a node send: nothing when the table is full, and
otherwise the request itself if it is passed on, and a reply if its
destination is known. -/
theorem processFrame_not_rreq
    {node : Node} {frame : Frame} {outside : Outside}
    (htype : frame.header.type = .rreq)
    (hfloods : node.floods frame outside.now = false) :
    ∀ sent ∈ (node.processFrame frame outside).frames,
      sent.header.type ≠ .rreq := by
  intro sent hsent
  cases hnext : node.nextTable frame outside.now with
  | none =>
      rw [processFrame_overrun hnext] at hsent
      cases hsent
  | some table =>
      simp only [Node.processFrame, hnext, htype, Node.onRreq,
        List.mem_append] at hsent
      simp only [Node.floods, hnext, htype, decide_true, Bool.true_and]
        at hfloods
      rcases hsent with hsent | hsent
      · change sent ∈ (if (!node.owns frame.header.destIp &&
          !(getRowEntry table frame.header.destIp).isSome &&
            node.updates frame.header) = true then _ else []) at hsent
        rw [hfloods] at hsent
        simp at hsent
      · split at hsent
        · simp only [Node.sendRrep, List.mem_map] at hsent
          obtain ⟨sv, _, rfl⟩ := hsent
          simp [frameOn]
        · cases hsent

/-! ## Runs -/

/-- The condition on the frames of a run. -/
def FloodsOnce (heard : Heard) : LedgerEvent → Prop
  | .client _ => True
  | .frame frame _ =>
      heard.node.TakesWhole frame ∧ heard.node.TakesUnmarked frame
  | .timeout => True

instance (heard : Heard) (event : LedgerEvent) :
    Decidable (FloodsOnce heard event) :=
  match event with
  | .client _ => inferInstanceAs (Decidable True)
  | .frame _ _ => inferInstanceAs (Decidable (_ ∧ _))
  | .timeout => inferInstanceAs (Decidable True)

/-- No request of the history would be passed on now, and none was passed on
twice. -/
structure Heard.Suppresses (heard : Heard) : Prop where
  keyed : Keyed heard.node.table
  unmarked : Unmarked heard.node.table
  settled : ∀ frame ∈ heard.frames, frame.header.type = .rreq →
    heard.node.Settled frame.header.floodKey
  flooded_mem : ∀ key ∈ heard.flooded, ∃ frame ∈ heard.frames,
    frame.header.type = .rreq ∧ frame.header.floodKey = key
  nodup : heard.flooded.Nodup

theorem Heard.suppresses_of_cleared
    {heard : Heard} (htable : heard.node.table = fun _ => emptyRow)
    (hframes : heard.frames = []) (hflooded : heard.flooded = []) :
    heard.Suppresses where
  keyed := by
    rw [htable]
    exact keyed_empty
  unmarked := by
    rw [htable]
    exact fun _ _ => ⟨rfl, fun _ _ _ => rfl⟩
  settled := by simp [hframes]
  flooded_mem := by simp [hflooded]
  nodup := by simp [hflooded]

theorem Node.Settled.congr
    {node next : Node} (hserv : next.serv = node.serv)
    (htable : next.table = node.table) {key : FloodKey}
    (hsettled : node.Settled key) :
    next.Settled key := by
  unfold Node.Settled Node.Knows Node.owns at hsettled ⊢
  rw [hserv, htable]
  exact hsettled

theorem Heard.Suppresses.receive
    {heard : Heard} (hsuppresses : heard.Suppresses) {frame : Frame}
    {outside : Outside}
    (honce : FloodsOnce heard (.frame frame outside)) :
    (heard.receive frame outside).Suppresses := by
  obtain ⟨hwhole, htakes⟩ := honce
  have hfresh : heard.node.floods frame outside.now = true →
      frame.header.type = .rreq ∧
        frame.header.floodKey ∉ heard.flooded := by
    intro hfloods
    refine ⟨Node.rreq_of_floods hfloods, fun hmem => ?_⟩
    obtain ⟨other, hother, htype, hkey⟩ :=
      hsuppresses.flooded_mem _ hmem
    have hsettled := hsuppresses.settled other hother htype
    rw [hkey] at hsettled
    rw [hsettled.not_floods] at hfloods
    cases hfloods
  have hsettled : ∀ other ∈ heard.frames ++ [frame],
      other.header.type = .rreq →
        (heard.receive frame outside).node.Settled
          other.header.floodKey := by
    intro other hother htype
    rw [List.mem_append, List.mem_singleton] at hother
    cases hnext : heard.node.nextTable frame outside.now with
    | none =>
        have hsame : (heard.receive frame outside).node =
            { heard.node with overrun := true } := by
          rw [Heard.receive, processFrame_overrun hnext]
        rw [hsame]
        refine Node.Settled.congr rfl rfl ?_
        rcases hother with hother | rfl
        · exact hsuppresses.settled other hother htype
        · obtain ⟨_, hnone, hfull⟩ := nextTable_eq_none_iff.mp hnext
          refine .inr (.inr ⟨.inr hfull, fun i hi => ?_⟩)
          rw [show other.header.floodKey.srcIp = other.header.srcIp from rfl,
            hnone] at hi
          cases hi
    | some table =>
        have hwith := processFrame_withTable hnext
        rcases hother with hother | rfl
        · exact (hsuppresses.settled other hother htype).nextTable
            hsuppresses.keyed hsuppresses.unmarked hnext hwith htakes
        · exact Node.settled_of_processed htype hnext hwith hwhole
  have htable : Keyed (heard.receive frame outside).node.table ∧
      Unmarked (heard.receive frame outside).node.table := by
    rw [Heard.receive, processFrame_table]
    cases hnext : heard.node.nextTable frame outside.now with
    | none => exact ⟨hsuppresses.keyed, hsuppresses.unmarked⟩
    | some table =>
        exact ⟨hsuppresses.keyed.nextTable hnext,
          hsuppresses.unmarked.nextTable hsuppresses.keyed hnext⟩
  refine ⟨htable.1, htable.2, hsettled, ?_, ?_⟩
  · intro key hkey
    unfold Heard.receive at hkey ⊢
    dsimp only at hkey ⊢
    split at hkey
    next hfloods =>
      rw [List.mem_append, List.mem_singleton] at hkey
      rcases hkey with hkey | rfl
      · obtain ⟨other, hother, hrest⟩ := hsuppresses.flooded_mem key hkey
        exact ⟨other, List.mem_append_left _ hother, hrest⟩
      · exact ⟨frame, by simp, (hfresh hfloods).1, rfl⟩
    next =>
      obtain ⟨other, hother, hrest⟩ := hsuppresses.flooded_mem key hkey
      exact ⟨other, List.mem_append_left _ hother, hrest⟩
  · unfold Heard.receive
    dsimp only
    split
    next hfloods =>
      rw [List.nodup_append_comm, List.singleton_append, List.nodup_cons]
      exact ⟨(hfresh hfloods).2, hsuppresses.nodup⟩
    next => exact hsuppresses.nodup

theorem Heard.suppresses_of_reachable
    {heard : Heard}
    (hreach : Transition.Reachable Heard.step FloodsOnce Heard.Initial
      heard) :
    heard.Suppresses := by
  refine hreach.invariant Heard.Suppresses ?_ ?_
  · rintro start ⟨serv, rfl⟩
    exact Heard.suppresses_of_cleared rfl rfl rfl
  · intro heard event next hsuppresses honce hstep
    cases Heard.moves_of_step hstep with
    | cleared _ htable => exact Heard.suppresses_of_cleared htable rfl rfl
    | @kept _ node hserv htable =>
        refine
          { keyed := ?_
            unmarked := ?_
            settled := ?_
            flooded_mem := hsuppresses.flooded_mem
            nodup := hsuppresses.nodup }
        · change Keyed node.table
          rw [htable]
          exact hsuppresses.keyed
        · change Unmarked node.table
          rw [htable]
          exact hsuppresses.unmarked
        · intro frame hframe htype
          exact (hsuppresses.settled frame hframe htype).congr hserv htable
    | received => exact hsuppresses.receive honce

/-- In a run in which every frame meets the condition, no request is passed
on twice between two clears, and a copy of a request processed since the last
clear makes the node send no request. -/
theorem rreq_suppressed
    {heard : Heard}
    (hreach : Transition.Reachable Heard.step FloodsOnce Heard.Initial
      heard) :
    heard.flooded.Nodup ∧
    ∀ frame ∈ heard.frames, frame.header.type = .rreq →
      ∀ outside, heard.node.floods frame outside.now = false ∧
        ∀ sent ∈ (heard.node.processFrame frame outside).frames,
          sent.header.type ≠ .rreq := by
  have hsuppresses := Heard.suppresses_of_reachable hreach
  refine ⟨hsuppresses.nodup, fun frame hframe htype outside => ?_⟩
  have hfloods :=
    (hsuppresses.settled frame hframe htype).not_floods outside.now
  exact ⟨hfloods, processFrame_not_rreq htype hfloods⟩

theorem rreq_suppressed_shorter :
    ∃ heard, Transition.Reachable Heard.step FloodsOnce Heard.Initial
        heard ∧
      heard.frames.length = 3 ∧ heard.flooded.length = 2 ∧
      heard.flooded.Nodup := by
  obtain ⟨heard, hreach, htest⟩ :=
    Transition.exists_reachable_of_replay Heard.step FloodsOnce
      freshHeard_initial [lineRreq zeroMac 1 5, lineRreq zeroMac 1 3,
        lineRreq zeroMac 1 3]
      (fun heard => decide (heard.frames.length = 3) &&
        decide (heard.flooded.length = 2))
      (by decide +kernel)
  simp only [Bool.and_eq_true, decide_eq_true_eq] at htest
  exact ⟨heard, hreach, htest.1, htest.2, (rreq_suppressed hreach).1⟩

/-- A request which is fresher and shorter than the row is passed on, and so
is its copy: the first one only moves the broadcast id. -/
theorem rreq_flooded_twice :
    ∃ heard, Transition.Reachable Heard.step Transition.Unrestricted
        Heard.Initial heard ∧
      heard.frames.length = 3 ∧ heard.flooded.length = 3 ∧
      ¬ heard.flooded.Nodup := by
  obtain ⟨heard, hreach, htest⟩ :=
    Transition.exists_reachable_of_replay Heard.step Transition.Unrestricted
      freshHeard_initial [lineRreq zeroMac 1 5, lineRreq zeroMac 2 3,
        lineRreq zeroMac 2 3]
      (fun heard => decide (heard.frames.length = 3) &&
        decide (heard.flooded.length = 3) &&
        decide (¬ heard.flooded.Nodup))
      (by decide +kernel)
  simp only [Bool.and_eq_true, decide_eq_true_eq] at htest
  exact ⟨heard, hreach, htest.1.1, htest.1.2, htest.2⟩

end NetworkProgramming.Odr
