import NetworkProgramming.OdrHistory

/-!
# The last row

`get_empty_row` returns the size of the table when no row is unused, and
`update_routing_table` writes to the row with that index.  Rows are freed
only by clearing the whole table.  So the hundred-and-first source since the
last clear is written behind the table.
-/

namespace NetworkProgramming.Odr

open SlotTable

/-- The row of the frame is one of the table, and a frame from a new source
leaves a full table alone. -/
def Node.StaysInside (node : Node) (frame : Frame) (outside : Outside) :
    Prop :=
  (node.nextTable frame outside.now).isSome = true ∧
  ((∀ i, (node.table i).isFilled = true) →
    getRowEntry node.table frame.header.srcIp = none →
      (node.processFrame frame outside).node.table = node.table)

/-- A route frame from a foreign source finds the row of that source or an
unused one. -/
def Node.HasRow (node : Node) (frame : Frame) : Prop :=
  frame.isRoute = true → node.owns frame.header.srcIp = false →
    (getRowEntry node.table frame.header.srcIp).isSome = true ∨
      ∃ i, (node.table i).isFilled = false

instance (node : Node) (frame : Frame) : Decidable (node.HasRow frame) :=
  inferInstanceAs (Decidable (_ → _ → _ ∨ _))

theorem nextTable_isSome_iff
    {node : Node} {frame : Frame} {now : ℕ} :
    (node.nextTable frame now).isSome = true ↔ node.HasRow frame := by
  rw [← Option.ne_none_iff_isSome, ne_eq, nextTable_eq_none_iff]
  unfold Node.HasRow
  constructor
  · intro hroom hroute hforeign
    by_contra hnone
    push Not at hnone
    obtain ⟨hentry, hfull⟩ := hnone
    rw [ne_eq, Option.isSome_iff_ne_none, not_not] at hentry
    refine hroom ⟨?_, hentry, fun i => by simpa using hfull i⟩
    have hpayload : frame.header.isPayload = false := by
      simpa [Frame.isRoute] using hroute
    simp [Node.updates, hpayload, hforeign, shouldUpdateRt, hentry]
  · rintro hroom ⟨hupdates, hentry, hfull⟩
    obtain ⟨hpayload, _, hforeign⟩ := Node.updates_eq_true hupdates
    rcases hroom (by simp [Frame.isRoute, hpayload]) hforeign with
      hsome | ⟨i, hunused⟩
    · rw [hentry] at hsome
      cases hsome
    · rw [hfull i] at hunused
      cases hunused

theorem Node.staysInside_iff
    (node : Node) (frame : Frame) (outside : Outside) :
    node.StaysInside frame outside ↔ node.HasRow frame := by
  unfold Node.StaysInside
  rw [nextTable_isSome_iff]
  refine and_iff_left_of_imp fun hroom hfull hentry => ?_
  -- a full table is only written to when the row is there
  have hkept : node.nextTable frame outside.now = some node.table := by
    have hsome : (node.nextTable frame outside.now).isSome = true :=
      nextTable_isSome_iff.mpr hroom
    obtain ⟨table, hnext⟩ := Option.isSome_iff_exists.mp hsome
    cases nextTable_write hnext with
    | keep => exact hnext
    | insert _ _ hfree =>
        have hunused := (firstFree_eq_some_iff.mp hfree).1
        exact absurd ((hfull _).symm.trans hunused) (by decide)
    | refresh _ hsome =>
        rw [hentry] at hsome
        cases hsome
  exact (processFrame_withTable hkept).table

/-- The condition on the frames of a run. -/
def RoomForRow (heard : Heard) : LedgerEvent → Prop
  | .client _ => True
  | .frame frame _ => heard.node.HasRow frame
  | .timeout => True

instance (heard : Heard) (event : LedgerEvent) :
    Decidable (RoomForRow heard event) :=
  match event with
  | .client _ => inferInstanceAs (Decidable True)
  | .frame frame _ => inferInstanceAs (Decidable (heard.node.HasRow frame))
  | .timeout => inferInstanceAs (Decidable True)

theorem Heard.pastEnd_of_reachable
    {heard : Heard}
    (hreach : Transition.Reachable Heard.step RoomForRow Heard.Initial
      heard) :
    heard.pastEnd = false := by
  refine hreach.invariant (fun heard => heard.pastEnd = false) ?_ ?_
  · rintro start ⟨serv, rfl⟩
    rfl
  · intro heard event next hinside hroom hstep
    cases Heard.moves_of_step hstep with
    | cleared => exact hinside
    | kept => exact hinside
    | @received frame outside =>
        rw [Heard.pastEnd_receive (nextTable_isSome_iff.mpr hroom)]
        exact hinside

/-! ## A full table -/

/-- A node with one interface. -/
def crowdedServ : List ServerDetails :=
  [⟨numberedIp 200, zeroMac, 2⟩]

def crowdedRreq (k : ℕ) : Frame :=
  ⟨broadcastMac, zeroMac, 2,
    ⟨numberedIp k, numberedIp 201, 1, 1, noMsg, 0, .rreq⟩⟩

/-- The row which the request of source `k` makes. -/
def crowdedRow (k : ℕ) : Row :=
  newRow (crowdedRreq k).header zeroMac 0

/-- The node after the requests of the first `count` sources. -/
def crowdedNode (count : ℕ) : Node :=
  { Node.start crowdedServ with table := filledUpTo crowdedRow count }

theorem crowdedNode_foreign (count : ℕ) {k : ℕ} (hk : k ≤ 100) :
    (crowdedNode count).owns (numberedIp k) = false := by
  have hne : numberedIp k ≠ numberedIp 200 := by
    intro hsame
    have := numberedIp_inj (by omega) (by omega) hsame
    omega
  simpa [Node.owns, crowdedNode, Node.start, crowdedServ] using hne

theorem getRowEntry_crowded {count k : ℕ} (hcount : count ≤ k)
    (hk : k ≤ 100) :
    getRowEntry (crowdedNode count).table (numberedIp k) = none := by
  apply scanAll_filledUpTo (numberedIp_ne_emptyIp k)
  intro i hi hsame
  have := numberedIp_inj (by omega) (by omega) hsame
  omega

theorem updates_crowded {count : ℕ} (hcount : count ≤ 100) :
    (crowdedNode count).updates (crowdedRreq count).header = true := by
  have hentry := getRowEntry_crowded le_rfl hcount
  have hforeign := crowdedNode_foreign count hcount
  have hshould : shouldUpdateRt (crowdedNode count).table
      (crowdedRreq count).header = true := by
    unfold shouldUpdateRt
    rw [show (crowdedRreq count).header.srcIp = numberedIp count from rfl,
      hentry]
  have hroute : (crowdedRreq count).header.isPayload = false := rfl
  rw [Node.updates, hroute, hshould,
    show (crowdedRreq count).header.srcIp = numberedIp count from rfl,
    hforeign]
  rfl

/-- One more source takes the next row. -/
theorem processFrame_crowded {count : ℕ} (hcount : count < 100) :
    ((crowdedNode count).processFrame (crowdedRreq count) quiet).node =
      crowdedNode (count + 1) := by
  have hfree : getEmptyRow (crowdedNode count).table =
      some ⟨count, hcount⟩ :=
    firstFree_filledUpTo (fun _ => rfl) hcount
  have hnext : (crowdedNode count).nextTable (crowdedRreq count) quiet.now =
      some (filledUpTo crowdedRow (count + 1)) := by
    rw [Node.nextTable, if_pos (updates_crowded hcount.le),
      updateRoutingTable,
      show (crowdedRreq count).header.srcIp = numberedIp count from rfl,
      getRowEntry_crowded le_rfl hcount.le, hfree]
    exact congrArg some (update_filledUpTo hcount)
  simp only [Node.processFrame, hnext]
  rfl

theorem exists_crowded (count : ℕ) (hcount : count ≤ 100) :
    ∃ heard, Transition.Reachable Heard.step RoomForRow Heard.Initial
        heard ∧
      heard.node = crowdedNode count := by
  induction count with
  | zero =>
      refine ⟨⟨Node.start crowdedServ, [], [], false⟩,
        .start ⟨crowdedServ, rfl⟩, ?_⟩
      rw [crowdedNode, filledUpTo_zero]
      rfl
  | succ count ih =>
      obtain ⟨heard, hreach, hnode⟩ := ih (by omega)
      have hrunning : heard.node.overrun = false := by
        rw [hnode]
        rfl
      have hroom : RoomForRow heard (.frame (crowdedRreq count) quiet) := by
        intro _ _
        refine .inr ⟨⟨count, by omega⟩, ?_⟩
        simp [hnode, crowdedNode, filledUpTo, KeyedSlot.empty, emptyRow]
      refine ⟨_, hreach.tail hroom (Heard.step_frame hrunning
        (crowdedRreq count) quiet), ?_⟩
      rw [Heard.receive, hnode]
      exact processFrame_crowded (by omega)

theorem filled_crowded (i : Fin 100) :
    ((crowdedNode 100).table i).isFilled = true := by
  have hrow : ∀ k, KeyedSlot.filled (crowdedRow k) = true :=
    fun _ => rfl
  exact filled_filledUpTo hrow i

/-- The last of the sources still has its row. -/
theorem hasRow_crowded : (crowdedNode 100).HasRow (crowdedRreq 99) := by
  intro _ _
  refine .inl (getRowEntry_isSome_iff.mpr ⟨99, ?_⟩)
  simp [crowdedNode, filledUpTo, crowdedRow, newRow]

/-! ## The bound -/

/-- In a run in which every route frame from a new source finds an unused
row, nothing is written behind the table; and whatever the state, a frame
stays inside the table exactly when it finds a row. -/
theorem routingTable_inBounds
    {heard : Heard}
    (hreach : Transition.Reachable Heard.step RoomForRow Heard.Initial
      heard) :
    heard.pastEnd = false ∧
    ∀ (node : Node) (frame : Frame) (outside : Outside),
      node.StaysInside frame outside ↔ node.HasRow frame :=
  ⟨Heard.pastEnd_of_reachable hreach, Node.staysInside_iff⟩

/-- A hundred sources fill the table, and a further request of the last one
is written to its row. -/
theorem routingTable_inBounds_full :
    ∃ heard, Transition.Reachable Heard.step RoomForRow Heard.Initial
        heard ∧
      (∀ i, (heard.node.table i).isFilled = true) ∧
      heard.pastEnd = false ∧
      heard.node.StaysInside (crowdedRreq 99) quiet := by
  obtain ⟨heard, hreach, hnode⟩ := exists_crowded 100 le_rfl
  obtain ⟨hinside, hiff⟩ := routingTable_inBounds hreach
  refine ⟨heard, hreach, ?_, hinside, ?_⟩
  · rw [hnode]
    exact filled_crowded
  · rw [hiff, hnode]
    exact hasRow_crowded

/-- After the requests of a hundred sources, that of one more is written
behind the table. -/
theorem routingTable_pastEnd :
    ∃ heard next, Transition.Reachable Heard.step Transition.Unrestricted
        Heard.Initial heard ∧
      heard.pastEnd = false ∧
      heard.step (.frame (crowdedRreq 100) quiet) = some next ∧
      ¬ heard.node.StaysInside (crowdedRreq 100) quiet ∧
      next.pastEnd = true := by
  obtain ⟨heard, hreach, hnode⟩ := exists_crowded 100 le_rfl
  have hnone : heard.node.nextTable (crowdedRreq 100) quiet.now = none := by
    rw [hnode]
    exact nextTable_eq_none_iff.mpr ⟨updates_crowded le_rfl,
      getRowEntry_crowded le_rfl le_rfl, filled_crowded⟩
  have hrunning : heard.node.overrun = false := by
    rw [hnode]
    rfl
  refine ⟨heard, _, hreach.mono fun _ _ _ => trivial,
    Heard.pastEnd_of_reachable hreach,
    Heard.step_frame hrunning (crowdedRreq 100) quiet, ?_, ?_⟩
  · intro hstays
    rw [Node.StaysInside, hnone] at hstays
    cases hstays.1
  · simp [Heard.receive, hnone]

end NetworkProgramming.Odr
