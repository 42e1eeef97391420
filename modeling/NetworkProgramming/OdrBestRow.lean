import NetworkProgramming.OdrHistory

/-!
# Rows and the best frames

The best frame from a source is the one with the largest broadcast id, then
the one with the smallest hop count, then the earliest.  An update of an
existing row takes over the broadcast id or the hop count of a frame, never
both and never its sender, so a row describes the best frame as long as the
better frames agree with it in the fields which are not taken over.
-/

namespace NetworkProgramming.Odr

open SlotTable

/-! ## The best frame of a source -/

def FrameHead.Better (head other : FrameHead) : Prop :=
  other.bcId < head.bcId ∨
    other.bcId = head.bcId ∧ head.hopCount < other.hopCount

/-- The route frames from an IP, in the order of their arrival. -/
def fromSource (frames : List Frame) (ip : IpText) : List Frame :=
  frames.filter fun frame =>
    frame.isRoute && decide (frame.header.srcIp = ip)

/-- Better than all earlier frames from the IP, and no later one is better. -/
def BestFrame (frames : List Frame) (ip : IpText) (best : Frame) : Prop :=
  ∃ before after, fromSource frames ip = before ++ best :: after ∧
    (∀ frame ∈ before, best.header.Better frame.header) ∧
    ∀ frame ∈ after, ¬ frame.header.Better best.header

theorem FrameHead.Better.trans
    {first second third : FrameHead} (hfirst : first.Better second)
    (hsecond : second.Better third) :
    first.Better third := by
  unfold FrameHead.Better at hfirst hsecond ⊢
  omega

theorem FrameHead.Better.of_not_better
    {first second third : FrameHead} (hfirst : first.Better second)
    (hsecond : ¬ third.Better second) :
    first.Better third := by
  unfold FrameHead.Better at hfirst hsecond ⊢
  omega

theorem fromSource_concat_self
    {frame : Frame} (hroute : frame.isRoute = true) (frames : List Frame) :
    fromSource (frames ++ [frame]) frame.header.srcIp =
      fromSource frames frame.header.srcIp ++ [frame] := by
  simp [fromSource, hroute]

theorem fromSource_concat_of_ne
    {frame : Frame} {ip : IpText}
    (hne : frame.isRoute = true → frame.header.srcIp ≠ ip)
    (frames : List Frame) :
    fromSource (frames ++ [frame]) ip = fromSource frames ip := by
  have hnone : [frame].filter (fun other =>
      other.isRoute && decide (other.header.srcIp = ip)) = [] := by
    rw [List.filter_eq_nil_iff]
    simpa using hne
  rw [fromSource, List.filter_append, hnone, List.append_nil]
  rfl

theorem fromSource_eq_nil
    {frames : List Frame} {ip : IpText} (hip : ip ∉ sources frames) :
    fromSource frames ip = [] := by
  unfold fromSource
  rw [List.filter_eq_nil_iff]
  intro frame hframe hfrom
  apply hip
  simp only [Bool.and_eq_true, decide_eq_true_eq] at hfrom
  exact mem_sources_iff.mpr ⟨frame, hframe, hfrom.1, hfrom.2⟩

/-- The first frame of a source is its best one. -/
theorem bestFrame_first
    {frames : List Frame} {frame : Frame} (hroute : frame.isRoute = true)
    (hnew : frame.header.srcIp ∉ sources frames) :
    BestFrame (frames ++ [frame]) frame.header.srcIp frame := by
  refine ⟨[], [], ?_, by simp, by simp⟩
  rw [fromSource_concat_self hroute, fromSource_eq_nil hnew]

theorem BestFrame.concat_better
    {frames : List Frame} {frame best : Frame}
    (hbest : BestFrame frames frame.header.srcIp best)
    (hroute : frame.isRoute = true)
    (hbetter : frame.header.Better best.header) :
    BestFrame (frames ++ [frame]) frame.header.srcIp frame := by
  obtain ⟨before, after, hsplit, hbefore, hafter⟩ := hbest
  refine ⟨before ++ best :: after, [], ?_, ?_, by simp⟩
  · rw [fromSource_concat_self hroute, hsplit]
  · intro other hother
    rcases List.mem_append.mp hother with hother | hother
    · exact hbetter.trans (hbefore other hother)
    · rcases List.mem_cons.mp hother with rfl | hother
      · exact hbetter
      · exact hbetter.of_not_better (hafter other hother)

theorem BestFrame.concat_not_better
    {frames : List Frame} {frame best : Frame}
    (hbest : BestFrame frames frame.header.srcIp best)
    (hroute : frame.isRoute = true)
    (hbetter : ¬ frame.header.Better best.header) :
    BestFrame (frames ++ [frame]) frame.header.srcIp best := by
  obtain ⟨before, after, hsplit, hbefore, hafter⟩ := hbest
  refine ⟨before, after ++ [frame], ?_, hbefore, ?_⟩
  · rw [fromSource_concat_self hroute, hsplit, List.append_assoc]
    rfl
  · intro other hother
    rcases List.mem_append.mp hother with hother | hother
    · exact hafter other hother
    · rw [List.mem_singleton] at hother
      rw [hother]
      exact hbetter

theorem BestFrame.concat_of_ne
    {frames : List Frame} {frame best : Frame} {ip : IpText}
    (hbest : BestFrame frames ip best)
    (hne : frame.isRoute = true → frame.header.srcIp ≠ ip) :
    BestFrame (frames ++ [frame]) ip best := by
  unfold BestFrame
  rw [fromSource_concat_of_ne hne]
  exact hbest

/-! ## Rows -/

def Row.Describes (row : Row) (frame : Frame) : Prop :=
  row.nextHopMac = frame.srcMac ∧
    row.hopCount = frame.header.hopCount ∧
    row.broadcastId = frame.header.bcId

instance (row : Row) (frame : Frame) : Decidable (row.Describes frame) :=
  inferInstanceAs (Decidable (_ ∧ _ ∧ _))

/-- A fresher frame comes from the next hop with the hop count of the row, a
shorter one of the same broadcast id from the next hop, and an older one is
not shorter. -/
def Row.AgreesWith (row : Row) (frame : Frame) : Prop :=
  (row.broadcastId < frame.header.bcId →
    row.nextHopMac = frame.srcMac ∧
      row.hopCount = frame.header.hopCount) ∧
  (row.broadcastId = frame.header.bcId →
    frame.header.hopCount < row.hopCount →
      row.nextHopMac = frame.srcMac) ∧
  (frame.header.bcId < row.broadcastId →
    row.hopCount ≤ frame.header.hopCount)

instance (row : Row) (frame : Frame) : Decidable (row.AgreesWith frame) :=
  inferInstanceAs (Decidable (_ ∧ _ ∧ _))

theorem Row.Describes.refresh_better
    {row : Row} {best frame : Frame} (hdescribes : row.Describes best)
    (hagrees : row.AgreesWith frame)
    (hbetter : frame.header.Better best.header) :
    (row.refresh frame.header).Describes frame := by
  obtain ⟨_, hhops, hid⟩ := hdescribes
  obtain ⟨hfresher, hshorter, _⟩ := hagrees
  unfold Row.refresh
  rcases hbetter with hnewer | ⟨hsame, hless⟩
  · rw [if_pos (by omega)]
    obtain ⟨hmac, hcount⟩ := hfresher (by omega)
    exact ⟨hmac, hcount, rfl⟩
  · rw [if_neg (by omega), if_pos (by omega)]
    exact ⟨hshorter (by omega) (by omega), rfl, by simp only; omega⟩

theorem Row.Describes.refresh_not_better
    {row : Row} {best frame : Frame} (hdescribes : row.Describes best)
    (hagrees : row.AgreesWith frame)
    (hbetter : ¬ frame.header.Better best.header) :
    (row.refresh frame.header).Describes best := by
  have ⟨_, hhops, hid⟩ := hdescribes
  obtain ⟨_, _, holder⟩ := hagrees
  unfold FrameHead.Better at hbetter
  have hkept : row.refresh frame.header = row := by
    apply refresh_of_not_newer
    · omega
    · by_cases hold : frame.header.bcId < row.broadcastId
      · exact holder hold
      · omega
  rw [hkept]
  exact hdescribes

/-! ## Runs -/

/-- A frame from a source with a row agrees with the row. -/
def KeepsBest (heard : Heard) : LedgerEvent → Prop
  | .client _ => True
  | .frame frame _ => frame.isRoute = true →
      ∀ row ∈ heard.node.row frame.header.srcIp, row.AgreesWith frame
  | .timeout => True

instance (heard : Heard) (event : LedgerEvent) :
    Decidable (KeepsBest heard event) :=
  match event with
  | .client _ => inferInstanceAs (Decidable True)
  | .frame frame _ => inferInstanceAs (Decidable
      (frame.isRoute = true →
        ∀ row ∈ heard.node.row frame.header.srcIp, row.AgreesWith frame))
  | .timeout => inferInstanceAs (Decidable True)

def Heard.RowsBest (heard : Heard) : Prop :=
  ∀ ip row, heard.node.row ip = some row →
    ∃ best, BestFrame heard.frames ip best ∧ row.Describes best

theorem Heard.rowsBest_of_cleared
    {heard : Heard} (htable : heard.node.table = fun _ => emptyRow) :
    heard.RowsBest := by
  intro ip row hrow
  rw [Node.row_of_cleared htable] at hrow
  cases hrow

theorem Heard.RowsBest.receive
    {heard : Heard} (hbest : heard.RowsBest) (hrecorded : heard.Recorded)
    {frame : Frame} {outside : Outside}
    (hfew : FewSources (heard.frames ++ [frame]))
    (hkeeps : KeepsBest heard (.frame frame outside)) :
    (heard.receive frame outside).RowsBest := by
  obtain ⟨table, hnext, _, hlookup⟩ := hrecorded.nextTable hfew outside.now
  intro ip row hrow
  have htable : (heard.receive frame outside).node.row ip =
      lookup table ip := by
    rw [Node.row, Heard.receive, (processFrame_withTable hnext).table]
  rw [htable, hlookup] at hrow
  change ∃ best, BestFrame (heard.frames ++ [frame]) ip best ∧
    row.Describes best
  split at hrow
  next hip =>
    obtain ⟨rfl, hroute, hforeign⟩ := hip
    rw [Option.some.injEq] at hrow
    subst hrow
    cases hold : heard.node.row frame.header.srcIp with
    | none =>
        have hnew : frame.header.srcIp ∉ sources heard.frames := by
          intro hheard
          exact (hrecorded.row_iff _).mpr ⟨hforeign, hheard⟩ hold
        exact ⟨frame, bestFrame_first hroute hnew, rfl, rfl, rfl⟩
    | some old =>
        obtain ⟨best, hframe, hdescribes⟩ := hbest _ old hold
        have hagrees := hkeeps hroute old hold
        by_cases hbetter : frame.header.Better best.header
        · exact ⟨frame, hframe.concat_better hroute hbetter,
            hdescribes.refresh_better hagrees hbetter⟩
        · exact ⟨best, hframe.concat_not_better hroute hbetter,
            hdescribes.refresh_not_better hagrees hbetter⟩
  next hip =>
    obtain ⟨best, hframe, hdescribes⟩ := hbest ip row hrow
    have hforeign := ((hrecorded.row_iff ip).mp (by simp [hrow])).1
    refine ⟨best, hframe.concat_of_ne fun hroute hsrc => ?_, hdescribes⟩
    exact hip ⟨hsrc.symm, hroute, hsrc ▸ hforeign⟩

theorem Heard.rowsBest_of_reachable
    {heard : Heard}
    (hreach : Transition.Reachable Heard.step KeepsBest Heard.Initial heard)
    (hfew : FewSources heard.frames) :
    heard.RowsBest := by
  -- the rows of the states before the last are known from the same run
  refine (hreach.invariant (fun heard => FewSources heard.frames →
    heard.Recorded ∧ heard.RowsBest) ?_ ?_ hfew).2
  · rintro start ⟨serv, rfl⟩ _
    exact ⟨Heard.recorded_of_cleared rfl rfl, Heard.rowsBest_of_cleared rfl⟩
  · intro heard event next hinv hkeeps hstep hfew
    cases Heard.moves_of_step hstep with
    | cleared _ htable =>
        exact ⟨Heard.recorded_of_cleared htable rfl,
          Heard.rowsBest_of_cleared htable⟩
    | kept hserv htable =>
        obtain ⟨hrecorded, hbest⟩ := hinv hfew
        refine ⟨hrecorded.congr hserv htable rfl, fun ip row hrow => ?_⟩
        rw [Node.row, htable] at hrow
        exact hbest ip row hrow
    | received =>
        obtain ⟨hrecorded, hbest⟩ := hinv hfew.of_concat
        exact ⟨hrecorded.receive hfew _, hbest.receive hrecorded hfew hkeeps⟩

/-- In a run in which every frame agrees with the row of its source, the row
of a foreign source describes the best frame from it. -/
theorem row_describes_best
    {heard : Heard}
    (hreach : Transition.Reachable Heard.step KeepsBest Heard.Initial heard)
    (hfew : FewSources heard.frames) {ip : IpText}
    (hip : ip ∈ sources heard.frames)
    (hforeign : ip ∉ heard.node.serv.map ServerDetails.ip) :
    ∃ row best, heard.node.row ip = some row ∧
      BestFrame heard.frames ip best ∧ row.Describes best := by
  have hrecorded := Heard.recorded_of_reachable hreach hfew
  have hrow := (hrecorded.row_iff ip).mpr ⟨by simp [Node.owns, hforeign], hip⟩
  obtain ⟨row, hsome⟩ := Option.ne_none_iff_exists'.mp hrow
  obtain ⟨best, hbest⟩ :=
    Heard.rowsBest_of_reachable hreach hfew ip row hsome
  exact ⟨row, best, hsome, hbest⟩

theorem row_describes_best_sameNeighbour :
    ∃ heard, Transition.Reachable Heard.step KeepsBest Heard.Initial
        heard ∧
      heard.frames.length = 3 ∧
      ∃ row best, heard.node.row (lineIp 0) = some row ∧
        BestFrame heard.frames (lineIp 0) best ∧ row.Describes best := by
  obtain ⟨heard, hreach, htest⟩ :=
    Transition.exists_reachable_of_replay Heard.step KeepsBest
      freshHeard_initial [lineRreq zeroMac 1 5, lineRreq zeroMac 1 3,
        lineRreq zeroMac 2 3]
      (fun heard => decide (heard.frames.length = 3) &&
        decide (emptyIp ∉ sources heard.frames) &&
        decide ((sources heard.frames).toFinset.card < 100) &&
        decide (lineIp 0 ∈ sources heard.frames) &&
        decide (lineIp 0 ∉ heard.node.serv.map ServerDetails.ip))
      (by decide +kernel)
  simp only [Bool.and_eq_true, decide_eq_true_eq] at htest
  obtain ⟨⟨⟨⟨hlength, hnonempty⟩, hfew⟩, hip⟩, hforeign⟩ := htest
  exact ⟨heard, hreach, hlength,
    row_describes_best hreach ⟨hnonempty, hfew⟩ hip hforeign⟩

/-- A fresher and shorter request comes from another neighbour.  The row
keeps the old neighbour and the old hop count, and describes neither
frame. -/
theorem row_describes_no_frame :
    ∃ heard, Transition.Reachable Heard.step Transition.Unrestricted
        Heard.Initial heard ∧
      FewSources heard.frames ∧
      lineIp 0 ∉ heard.node.serv.map ServerDetails.ip ∧
      ∃ row, heard.node.row (lineIp 0) = some row ∧
        ∀ frame ∈ heard.frames, ¬ row.Describes frame := by
  obtain ⟨heard, hreach, htest⟩ :=
    Transition.exists_reachable_of_replay Heard.step Transition.Unrestricted
      freshHeard_initial [lineRreq (lineMac 0) 1 5, lineRreq (lineMac 2) 2 3]
      (fun heard => decide (emptyIp ∉ sources heard.frames) &&
        decide ((sources heard.frames).toFinset.card < 100) &&
        decide (lineIp 0 ∉ heard.node.serv.map ServerDetails.ip) &&
        (heard.node.row (lineIp 0)).any fun row : Row =>
          decide (∀ frame ∈ heard.frames, ¬ row.Describes frame))
      (by decide +kernel)
  simp only [Bool.and_eq_true, decide_eq_true_eq, Option.any_eq_true]
    at htest
  obtain ⟨⟨⟨hnonempty, hfew⟩, hforeign⟩, row, hrow, hnone⟩ := htest
  exact ⟨heard, hreach, ⟨hnonempty, hfew⟩, hforeign, row, hrow, hnone⟩

end NetworkProgramming.Odr
