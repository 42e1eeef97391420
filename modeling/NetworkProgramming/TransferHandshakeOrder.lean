import NetworkProgramming.TransferHandshake
import Mathlib.Data.List.Basic

/-!
# Every client is served

A client takes the port of its child only behind the acknowledgement, and
nobody sends anything twice, so a datagram which is lost, or a port which
overtakes the acknowledgement, leaves the client waiting.  Between two sockets
whose datagrams keep their order, and without losses, the two parties come
together: when nothing is on its way and no child is about to open its socket,
every client which asked is connected to a child, and that child knows it and
has its file.

For each client there is a stage, told by the datagrams and the children which
belong to it; an event moves one client from stage to stage and leaves all
others where they are.
-/

namespace NetworkProgramming.Transfer

open MemoryImage CText

variable {Caller : Type*}

/-! ## What belongs to a client -/

/-- The client on whose behalf a datagram is sent. -/
def Parcel.caller? (parcel : Parcel Caller) : Option Caller :=
  match parcel.src, parcel.dst with
  | .main caller, _ => some caller
  | .transfer caller, _ => some caller
  | .listening _, .main caller => some caller
  | .listening _, _ => none
  | .child _, _ => none

def Child.caller? (child : Child Caller) : Option Caller :=
  match child.requester with
  | .main caller => some caller
  | .transfer _ | .listening _ | .child _ => none

/-- Datagrams between two sockets keep their order, none is lost or repeated,
and no port is given twice. -/
def Handshake.InOrder (state : Handshake Caller) :
    HandshakeEvent Caller → Prop
  | .deliver position => ∀ parcel ∈ state.flight[position]?,
      ∀ other ∈ state.flight.take position,
        ¬ (other.src = parcel.src ∧ other.dst = parcel.dst)
  | .duplicate _ | .lose _ => False
  | .bind j port => state.NoReuse (.bind j port)
  | .ask _ | .exit _ => True

theorem Handshake.InOrder.noReuse
    {state : Handshake Caller} {event : HandshakeEvent Caller}
    (hallowed : state.InOrder event) :
    state.NoReuse event := by
  cases event with
  | bind j port => exact hallowed
  | ask _ | deliver _ | duplicate _ | lose _ | exit _ => trivial

section Parts

variable [DecidableEq Caller]

def Handshake.mail (state : Handshake Caller) (caller : Caller) :
    List (Parcel Caller) :=
  state.flight.filter fun parcel => decide (parcel.caller? = some caller)

def Handshake.kids (state : Handshake Caller) (caller : Caller) :
    List (Child Caller) :=
  state.children.filter fun child => decide (child.caller? = some caller)

instance (state : Handshake Caller) (event : HandshakeEvent Caller) :
    Decidable (state.InOrder event) :=
  match event with
  | .deliver _ => inferInstanceAs (Decidable (∀ _ ∈ _, ∀ _ ∈ _, ¬ (_ ∧ _)))
  | .duplicate _ | .lose _ => inferInstanceAs (Decidable False)
  | .bind j port => inferInstanceAs (Decidable (state.NoReuse (.bind j port)))
  | .ask _ | .exit _ => inferInstanceAs (Decidable True)

end Parts

/-! ## The datagrams of a client -/

def Lobby.requestParcel (lobby : Lobby Caller) (caller : Caller) :
    Parcel Caller :=
  ⟨.main caller, .listening (lobby.serverIndex caller),
    (lobby.fileName caller).bytes⟩

def Lobby.ackParcel (lobby : Lobby Caller) (caller : Caller) :
    Parcel Caller :=
  ⟨.listening (lobby.serverIndex caller), .main caller,
    sendUdpData ackObj⟩

def Lobby.portParcel (lobby : Lobby Caller) (caller : Caller) (port : ℕ) :
    Parcel Caller :=
  ⟨.listening (lobby.serverIndex caller), .main caller,
    sendUdpData (portObj port)⟩

def helloParcel (caller : Caller) (port : ℕ) : Parcel Caller :=
  ⟨.transfer caller, .child port, sendUdpData zeroObj⟩

/-- The child of a client which does not know yet where to send to. -/
structure Lobby.Expects (lobby : Lobby Caller) (caller : Caller)
    (child : Child Caller) : Prop where
  index_eq : child.index = lobby.serverIndex caller
  cliaddr_eq : child.cliaddr = .main caller

/-- How far a client has come, told by its phase, its datagrams and its
children. -/
inductive Lobby.Stage (lobby : Lobby Caller) (caller : Caller) :
    CallerPhase → List (Parcel Caller) → List (Child Caller) → Prop
  | idle : lobby.Stage caller .idle [] []
  | asked :
      lobby.Stage caller .waitAck [lobby.requestParcel caller] []
  | forked {child : Child Caller} (hchild : lobby.Expects caller child)
      (hphase : child.phase = .forked) :
      lobby.Stage caller .waitAck [lobby.ackParcel caller] [child]
  | acked {child : Child Caller} (hchild : lobby.Expects caller child)
      (hphase : child.phase = .forked) :
      lobby.Stage caller .waitPort [] [child]
  | bound {child : Child Caller} {port : ℕ}
      (hchild : lobby.Expects caller child)
      (hphase : child.phase = .waiting port) :
      lobby.Stage caller .waitAck
        [lobby.ackParcel caller, lobby.portParcel caller port] [child]
  | offered {child : Child Caller} {port : ℕ}
      (hchild : lobby.Expects caller child)
      (hphase : child.phase = .waiting port) :
      lobby.Stage caller .waitPort [lobby.portParcel caller port] [child]
  | greeted {child : Child Caller} {port : ℕ}
      (hphase : child.phase = .waiting port) :
      lobby.Stage caller (.connected port) [helloParcel caller port] [child]
  | served {child : Child Caller} {port : ℕ}
      (hphase : child.phase.served? = some port) :
      lobby.Stage caller (.connected port) [] [child]

section Lists

variable {Item : Type*} {items : List Item} {position : ℕ}
variable {item after only : Item} {kind : Item → Bool}

theorem eq_take_append_cons_drop
    (hitem : items[position]? = some item) :
    items = items.take position ++ item :: items.drop (position + 1) := by
  obtain ⟨hlt, rfl⟩ := List.getElem?_eq_some_iff.mp hitem
  rw [← List.drop_eq_getElem_cons hlt, List.take_append_drop]

/-- The first of the items of a kind is taken out. -/
theorem filter_eraseIdx_of_first
    (hitem : items[position]? = some item) (hkind : kind item = true)
    (hfirst : ∀ other ∈ items.take position, ¬ kind other = true) :
    items.filter kind = item :: (items.eraseIdx position).filter kind := by
  have hfront := List.filter_eq_nil_iff.mpr hfirst
  rw [List.eraseIdx_eq_take_drop_succ, List.filter_append, hfront,
    List.nil_append]
  nth_rewrite 1 [eq_take_append_cons_drop hitem]
  rw [List.filter_append, hfront, List.nil_append,
    List.filter_cons_of_pos hkind]

theorem filter_eraseIdx_of_other
    (hitem : items[position]? = some item) (hkind : ¬ kind item = true) :
    (items.eraseIdx position).filter kind = items.filter kind := by
  rw [List.eraseIdx_eq_take_drop_succ, List.filter_append]
  nth_rewrite 3 [eq_take_append_cons_drop hitem]
  rw [List.filter_append, List.filter_cons_of_neg hkind]

theorem set_eq_append
    (hitem : items[position]? = some item) (after : Item) :
    items.set position after =
      items.take position ++ after :: items.drop (position + 1) := by
  have hlt := (List.getElem?_eq_some_iff.mp hitem).1
  rw [List.set_eq_take_append_cons_drop, if_pos hlt]

theorem filter_set_of_other
    (hitem : items[position]? = some item) (hkind : ¬ kind item = true)
    (hafter : ¬ kind after = true) :
    (items.set position after).filter kind = items.filter kind := by
  rw [set_eq_append hitem, List.filter_append,
    List.filter_cons_of_neg hafter]
  nth_rewrite 3 [eq_take_append_cons_drop hitem]
  rw [List.filter_append, List.filter_cons_of_neg hkind]

/-- The only item of a kind is replaced. -/
theorem filter_set_of_only
    (hitem : items[position]? = some item)
    (honly : items.filter kind = [only]) (hkind : kind item = true)
    (hafter : kind after = true) :
    item = only ∧ (items.set position after).filter kind = [after] := by
  rw [eq_take_append_cons_drop hitem, List.filter_append,
    List.filter_cons_of_pos hkind, List.append_eq_singleton_iff] at honly
  rw [set_eq_append hitem, List.filter_append,
    List.filter_cons_of_pos hafter]
  rcases honly with ⟨hfront, hback⟩ | ⟨_, hback⟩
  · rw [List.cons.injEq] at hback
    rw [hfront, hback.2]
    exact ⟨hback.1, rfl⟩
  · cases hback

end Lists

/-! ## Stages -/

section Stages

variable [DecidableEq Caller] {lobby : Lobby Caller}
variable {state next : Handshake Caller} {caller : Caller}

def Handshake.Staged (lobby : Lobby Caller) (state : Handshake Caller) :
    Prop :=
  ∀ caller, lobby.Stage caller (state.callers caller) (state.mail caller)
    (state.kids caller)

/-- All clients but one are in one of the stages. -/
def Handshake.StagedBut (lobby : Lobby Caller) (state : Handshake Caller)
    (caller : Caller) : Prop :=
  ∀ other, other ≠ caller → lobby.Stage other (state.callers other)
    (state.mail other) (state.kids other)

/-- An event is about one client. -/
theorem Handshake.StagedBut.move
    (hstaged : state.StagedBut lobby caller)
    (hcallers : ∀ other, other ≠ caller →
      next.callers other = state.callers other)
    (hmail : ∀ other, other ≠ caller → next.mail other = state.mail other)
    (hkids : ∀ other, other ≠ caller → next.kids other = state.kids other)
    {phase : CallerPhase} {mail : List (Parcel Caller)}
    {kids : List (Child Caller)} (hphase : next.callers caller = phase)
    (hmine : next.mail caller = mail) (hown : next.kids caller = kids)
    (hstage : lobby.Stage caller phase mail kids) :
    next.Staged lobby := by
  intro other
  by_cases hother : other = caller
  · subst hother
    rw [hphase, hmine, hown]
    exact hstage
  · rw [hcallers other hother, hmail other hother, hkids other hother]
    exact hstaged other hother

theorem Handshake.Staged.but
    (hstaged : state.Staged lobby) (caller : Caller) :
    state.StagedBut lobby caller :=
  fun other _ => hstaged other

theorem filter_caller_append
    {flight : List (Parcel Caller)} {parcel : Parcel Caller}
    (hparcel : parcel.caller? = some caller) (other : Caller) :
    (flight ++ [parcel]).filter
        (fun parcel => decide (parcel.caller? = some other)) =
      flight.filter (fun parcel => decide (parcel.caller? = some other)) ++
        if other = caller then [parcel] else [] := by
  rw [List.filter_append]
  by_cases hother : other = caller
  · subst hother
    simp [hparcel]
  · have hne : ¬ caller = other := fun heq => hother heq.symm
    simp [hparcel, hother, hne]

theorem Handshake.mail_append
    {parcel : Parcel Caller} (hparcel : parcel.caller? = some caller)
    (hflight : next.flight = state.flight ++ [parcel]) :
    next.mail caller = state.mail caller ++ [parcel] := by
  rw [Handshake.mail, hflight, filter_caller_append hparcel, if_pos rfl]
  rfl

theorem Handshake.mail_append_other
    {parcel : Parcel Caller} (hparcel : parcel.caller? = some caller)
    (hflight : next.flight = state.flight ++ [parcel]) {other : Caller}
    (hother : other ≠ caller) :
    next.mail other = state.mail other := by
  rw [Handshake.mail, hflight, filter_caller_append hparcel,
    if_neg hother, List.append_nil]
  rfl

omit [DecidableEq Caller] in
/-- All datagrams of a client at one time go the same way. -/
theorem Lobby.Stage.same_way
    {phase : CallerPhase} {mail : List (Parcel Caller)}
    {kids : List (Child Caller)} (hstage : lobby.Stage caller phase mail kids)
    {parcel other : Parcel Caller} (hparcel : parcel ∈ mail)
    (hother : other ∈ mail) :
    other.src = parcel.src ∧ other.dst = parcel.dst := by
  cases hstage with
  | bound _ _ =>
      simp only [List.mem_cons, List.not_mem_nil, or_false] at hparcel hother
      rcases hparcel with rfl | rfl <;> rcases hother with rfl | rfl <;>
        exact ⟨rfl, rfl⟩
  | idle | acked _ _ | served _ => cases hparcel
  | asked | forked _ _ | offered _ _ | greeted _ =>
      rw [List.mem_singleton.mp hparcel, List.mem_singleton.mp hother]
      exact ⟨rfl, rfl⟩

/-- A datagram which is taken in order is the first of its client. -/
theorem Handshake.Staged.mail_taken
    (hstaged : state.Staged lobby) {position : ℕ} {parcel : Parcel Caller}
    (hparcel : state.flight[position]? = some parcel)
    (horder : state.InOrder (.deliver position))
    (hcaller : parcel.caller? = some caller) :
    state.mail caller = parcel ::
      Handshake.mail { state with
        flight := state.flight.eraseIdx position } caller := by
  refine filter_eraseIdx_of_first hparcel (decide_eq_true hcaller) ?_
  intro other hother hkind
  have hmine : ∀ found ∈ state.flight, found.caller? = some caller →
      found ∈ state.mail caller :=
    fun found hfound hof =>
      List.mem_filter.mpr ⟨hfound, decide_eq_true hof⟩
  have hway := (hstaged caller).same_way
    (hmine parcel (List.mem_of_getElem? hparcel) hcaller)
    (hmine other (List.mem_of_mem_take hother) (of_decide_eq_true hkind))
  exact horder parcel hparcel other hother hway

theorem Handshake.mail_taken_other
    {position : ℕ} {parcel : Parcel Caller}
    (hparcel : state.flight[position]? = some parcel)
    (hcaller : parcel.caller? = some caller) {other : Caller}
    (hother : other ≠ caller) :
    Handshake.mail { state with
        flight := state.flight.eraseIdx position } other =
      state.mail other := by
  refine filter_eraseIdx_of_other hparcel ?_
  rw [hcaller, decide_eq_true_eq, Option.some.injEq]
  exact fun heq => hother heq.symm

omit [DecidableEq Caller] in
theorem Lobby.Genuine.has_caller
    {parcel : Parcel Caller} (hgenuine : lobby.Genuine state parcel) :
    ∃ caller, parcel.caller? = some caller := by
  cases hgenuine with
  | request caller => exact ⟨caller, rfl⟩
  | ack index caller => exact ⟨caller, rfl⟩
  | port index hchild hrequester hport => exact ⟨_, rfl⟩
  | hello hconnected => exact ⟨_, rfl⟩

theorem Handshake.Staged.ask
    (hstaged : state.Staged lobby) (hidle : state.callers caller = .idle) :
    (state.ask lobby caller).Staged lobby := by
  have hparcel : (lobby.requestParcel caller).caller? = some caller := rfl
  have hnone : state.mail caller = [] ∧ state.kids caller = [] := by
    have hstage := hstaged caller
    rw [hidle] at hstage
    generalize state.mail caller = mail at hstage ⊢
    generalize state.kids caller = kids at hstage ⊢
    cases hstage
    exact ⟨rfl, rfl⟩
  have hmail : (state.ask lobby caller).mail caller =
      [lobby.requestParcel caller] := by
    rw [Handshake.mail_append hparcel (by rfl), hnone.1, List.nil_append]
  exact (hstaged.but caller).move
    (fun other hother => Function.update_of_ne hother _ _)
    (fun other hother => Handshake.mail_append_other hparcel rfl hother)
    (fun _ _ => rfl) (Function.update_self _ _ _) hmail hnone.2 .asked

/-- The server forks a child for the client. -/
theorem Handshake.StagedBut.request
    (hstaged : state.StagedBut lobby caller)
    (hphase : state.callers caller = .waitAck)
    (hmail : state.mail caller = []) (hkids : state.kids caller = []) :
    (state.request (lobby.serverIndex caller) (.main caller)
      (lobby.fileName caller).bytes).Staged lobby := by
  let child : Child Caller :=
    ⟨lobby.serverIndex caller, .main caller,
      text (recvUdpData (lobby.fileName caller).bytes).buf, .main caller,
      .forked⟩
  let next := state.request (lobby.serverIndex caller) (.main caller)
    (lobby.fileName caller).bytes
  have hparcel : (lobby.ackParcel caller).caller? = some caller := rfl
  have hnextMail : next.mail caller = [lobby.ackParcel caller] := by
    have happend : next.mail caller =
        state.mail caller ++ [lobby.ackParcel caller] :=
      Handshake.mail_append hparcel rfl
    rw [happend, hmail, List.nil_append]
  have hchildren : ∀ other, next.kids other = state.kids other ++
      [child].filter (fun child => decide (child.caller? = some other)) :=
    fun other => List.filter_append _ _
  have hnextKids : next.kids caller = [child] := by
    rw [hchildren, hkids, List.nil_append]
    exact List.filter_cons_of_pos (decide_eq_true rfl)
  refine hstaged.move (fun _ _ => rfl)
    (fun other hother => Handshake.mail_append_other hparcel rfl hother)
    ?_ hphase hnextMail hnextKids (.forked ⟨rfl, rfl⟩ rfl)
  intro other hother
  have hforeign : [child].filter
      (fun child => decide (child.caller? = some other)) = [] := by
    refine List.filter_cons_of_neg ?_
    rw [decide_eq_true_eq]
    exact fun heq => hother (Option.some.inj heq).symm
  exact (hchildren other).trans (by rw [hforeign, List.append_nil])

/-- The client takes the acknowledgement; more may be on its way. -/
theorem Handshake.StagedBut.acked
    (hstaged : state.StagedBut lobby caller)
    (hphase : state.callers caller = .waitAck)
    (hself : lobby.Stage caller .waitPort (state.mail caller)
      (state.kids caller)) :
    (state.receive lobby (lobby.ackParcel caller)).Staged lobby := by
  have hreceive : state.receive lobby (lobby.ackParcel caller) =
      { state with
        callers := Function.update state.callers caller .waitPort } := by
    simp only [Handshake.receive, Lobby.ackParcel, if_true,
      Handshake.answer, hphase, type_ackObj]
  rw [hreceive]
  exact hstaged.move
    (fun other hother => Function.update_of_ne hother _ _)
    (fun _ _ => rfl) (fun _ _ => rfl) (Function.update_self _ _ _) rfl rfl
    hself

/-- The client takes the port of its child and sends to it. -/
theorem Handshake.StagedBut.offered
    (hstaged : state.StagedBut lobby caller) {port : ℕ}
    {child : Child Caller} (hport : port < 65536)
    (hwaits : child.phase = .waiting port)
    (hphase : state.callers caller = .waitPort)
    (hmail : state.mail caller = []) (hkids : state.kids caller = [child]) :
    (state.receive lobby (lobby.portParcel caller port)).Staged lobby := by
  have hreceive : state.receive lobby (lobby.portParcel caller port) =
      { state with
        callers := Function.update state.callers caller (.connected port)
        flight := state.flight ++ [helloParcel caller port] } := by
    simp only [Handshake.receive, Lobby.portParcel, if_true,
      Handshake.answer, hphase, type_portObj hport,
      newPortNumber_portObj hport, sinPort_natCast hport, helloParcel]
  have hparcel : (helloParcel caller port).caller? = some caller := rfl
  have hnextMail : Handshake.mail
      { state with
        callers := Function.update state.callers caller (.connected port)
        flight := state.flight ++ [helloParcel caller port] } caller =
      [helloParcel caller port] := by
    rw [Handshake.mail_append hparcel (by rfl), hmail, List.nil_append]
  rw [hreceive]
  exact hstaged.move
    (fun other hother => Function.update_of_ne hother _ _)
    (fun other hother => Handshake.mail_append_other hparcel rfl hother)
    (fun _ _ => rfl) (Function.update_self _ _ _) hnextMail hkids
    (.greeted hwaits)

/-- The child of the client hears of it, and no other child does. -/
theorem Handshake.StagedBut.greeted
    (hstaged : state.StagedBut lobby caller)
    (hsound : state.Sound lobby) {port : ℕ} {child : Child Caller}
    (hwaits : child.phase = .waiting port)
    (hphase : state.callers caller = .connected port)
    (hmail : state.mail caller = []) (hkids : state.kids caller = [child]) :
    (state.receive lobby (helloParcel caller port)).Staged lobby := by
  let next := state.receive lobby (helloParcel caller port)
  have hcaller : ∀ other : Child Caller,
      (other.hears (.transfer caller) port).caller? = other.caller? := by
    intro other
    unfold Child.hears
    split <;> rfl
  have hnextKids : ∀ other, next.kids other =
      (state.kids other).map (Child.hears (.transfer caller) port) := by
    intro other
    have hchildren : next.children =
        state.children.map (Child.hears (.transfer caller) port) := rfl
    rw [Handshake.kids, hchildren, List.filter_map]
    simp only [Function.comp_def, hcaller]
    rfl
  have hserved : next.kids caller =
      [{ child with cliaddr := .transfer caller, phase := .serving port }] := by
    rw [hnextKids, hkids, List.map_singleton, Child.hears, if_pos hwaits]
  refine hstaged.move (fun _ _ => rfl) (fun _ _ => rfl) ?_ hphase hmail
    hserved (.served rfl)
  intro other hother
  refine (hnextKids other).trans
    ((List.map_congr_left ?_).trans (List.map_id _))
  intro found hfound
  -- two children which wait at the same port are the same child
  have hother' : found.phase ≠ .waiting port := by
    intro hfoundWaits
    have hchild : child ∈ state.kids caller := by
      rw [hkids]
      exact List.mem_singleton_self child
    obtain ⟨hfoundMem, hfoundCaller⟩ := List.mem_filter.mp hfound
    obtain ⟨hchildMem, hchildCaller⟩ := List.mem_filter.mp hchild
    obtain ⟨i, hi⟩ := List.mem_iff_getElem?.mp hfoundMem
    obtain ⟨j, hj⟩ := List.mem_iff_getElem?.mp hchildMem
    have hsame := hsound.apart i j found child port hi hj
      (by rw [hfoundWaits]; rfl) (by rw [hwaits]; rfl)
    subst hsame
    rw [hi, Option.some.injEq] at hj
    subst hj
    have hfoundIs := of_decide_eq_true hfoundCaller
    rw [of_decide_eq_true hchildCaller, Option.some.injEq] at hfoundIs
    exact hother hfoundIs.symm
  rw [Child.hears, if_neg hother']
  rfl

/-- A datagram of a client is taken, the first of those on their way. -/
theorem Handshake.StagedBut.receive
    (hstaged : state.StagedBut lobby caller)
    (hsound : state.Sound lobby) {parcel : Parcel Caller}
    (hself : lobby.Stage caller (state.callers caller)
      (parcel :: state.mail caller) (state.kids caller)) :
    (state.receive lobby parcel).Staged lobby := by
  have hports : ∀ (child : Child Caller) (port : ℕ),
      state.kids caller = [child] → child.phase = .waiting port →
        port < 65536 := by
    intro child port hkids hwaits
    have hmem : child ∈ state.kids caller := by
      rw [hkids]
      exact List.mem_singleton_self child
    obtain ⟨owner, hforked⟩ :=
      hsound.forked child (List.mem_filter.mp hmem).1
    exact hforked.port_lt port (by rw [hwaits]; rfl)
  generalize hphase : state.callers caller = phase at hself
  generalize hmail : parcel :: state.mail caller = mail at hself
  generalize hkids : state.kids caller = kids at hself
  cases hself with
  | idle | acked _ _ | served _ => cases hmail
  | asked =>
      obtain ⟨rfl, hrest⟩ := List.cons.inj hmail
      exact hstaged.request hphase hrest hkids
  | forked hchild hforked =>
      obtain ⟨rfl, hrest⟩ := List.cons.inj hmail
      refine hstaged.acked hphase ?_
      rw [hrest, hkids]
      exact .acked hchild hforked
  | bound hchild hwaits =>
      obtain ⟨rfl, hrest⟩ := List.cons.inj hmail
      refine hstaged.acked hphase ?_
      rw [hrest, hkids]
      exact .offered hchild hwaits
  | offered hchild hwaits =>
      obtain ⟨rfl, hrest⟩ := List.cons.inj hmail
      exact hstaged.offered (hports _ _ hkids hwaits) hwaits hphase hrest
        hkids
  | greeted hwaits =>
      obtain ⟨rfl, hrest⟩ := List.cons.inj hmail
      exact hstaged.greeted hsound hwaits hphase hrest hkids

theorem Handshake.Staged.deliver
    (hstaged : state.Staged lobby) (hsound : state.Sound lobby)
    {position : ℕ} {parcel : Parcel Caller}
    (hparcel : state.flight[position]? = some parcel)
    (horder : state.InOrder (.deliver position)) :
    (Handshake.receive lobby
      { state with flight := state.flight.eraseIdx position }
      parcel).Staged lobby := by
  obtain ⟨caller, hcaller⟩ :=
    (hsound.parcels parcel (List.mem_of_getElem? hparcel)).has_caller
  have htaken : Handshake.Sound lobby
      { state with flight := state.flight.eraseIdx position } :=
    hsound.fewer fun _ hmem => List.mem_of_mem_eraseIdx hmem
  have hothers : Handshake.StagedBut lobby
      { state with flight := state.flight.eraseIdx position } caller := by
    intro other hother
    rw [Handshake.mail_taken_other hparcel hcaller hother]
    exact hstaged other
  refine hothers.receive htaken ?_
  rw [← hstaged.mail_taken hparcel horder hcaller]
  exact hstaged caller

/-- What happens to one of the children happens to the child of a client. -/
theorem Handshake.Staged.child_cases
    (hstaged : state.Staged lobby) (hsound : state.Sound lobby) {j : ℕ}
    {child : Child Caller} (hchild : state.children[j]? = some child) :
    ∃ caller, child.requester = .main caller ∧
      state.kids caller = [child] := by
  obtain ⟨caller, hforked⟩ :=
    hsound.forked child (List.mem_of_getElem? hchild)
  have hcaller : child.caller? = some caller := by
    rw [Child.caller?, hforked.requester_eq]
  have hmem : child ∈ state.kids caller :=
    List.mem_filter.mpr
      ⟨List.mem_of_getElem? hchild, decide_eq_true hcaller⟩
  refine ⟨caller, hforked.requester_eq, ?_⟩
  have hstage := hstaged caller
  generalize state.kids caller = kids at hstage hmem ⊢
  generalize state.mail caller = mail at hstage
  generalize state.callers caller = phase at hstage
  cases hstage with
  | idle | asked => cases hmem
  | forked _ _ | acked _ _ | bound _ _ | offered _ _ | greeted _
  | served _ => rw [List.mem_singleton.mp hmem]

theorem Handshake.kids_set
    {j : ℕ} {child : Child Caller} (after : Child Caller)
    (hchild : state.children[j]? = some child)
    (hrequester : child.requester = .main caller)
    (hkids : state.kids caller = [child])
    (hafter : after.requester = child.requester)
    (hchildren : next.children = state.children.set j after) :
    next.kids caller = [after] ∧
      ∀ other, other ≠ caller → next.kids other = state.kids other := by
  have hcaller : child.caller? = some caller := by
    rw [Child.caller?, hrequester]
  have hcaller' : after.caller? = some caller := by
    rw [Child.caller?, hafter, hrequester]
  constructor
  · rw [Handshake.kids, hchildren]
    exact (filter_set_of_only hchild hkids (decide_eq_true hcaller)
      (decide_eq_true hcaller')).2
  · intro other hother
    have hne : ¬ some caller = some other :=
      fun heq => hother (Option.some.inj heq).symm
    rw [Handshake.kids, hchildren]
    exact filter_set_of_other hchild
      (by rw [decide_eq_true_eq, hcaller]; exact hne)
      (by rw [decide_eq_true_eq, hcaller']; exact hne)

theorem Handshake.Staged.bind
    (hstaged : state.Staged lobby) (hsound : state.Sound lobby)
    {j port : ℕ} {child : Child Caller}
    (hchild : state.children[j]? = some child)
    (hphase : child.phase = .forked) :
    (state.bind j port child).Staged lobby := by
  obtain ⟨caller, hrequester, hkids⟩ := hstaged.child_cases hsound hchild
  obtain ⟨hown, hothers⟩ := Handshake.kids_set
    { child with phase := .waiting port } hchild hrequester hkids rfl
    (by rfl : (state.bind j port child).children = _)
  have hstage := hstaged caller
  rw [hkids] at hstage
  generalize hcaller : state.callers caller = phase at hstage
  generalize hmail : state.mail caller = mail at hstage
  have hmove : ∀ (after : List (Parcel Caller)) (phase : CallerPhase),
      lobby.Expects caller child → state.callers caller = phase →
      state.mail caller ++ [lobby.portParcel caller port] = after →
      lobby.Stage caller phase after
        [{ child with phase := .waiting port }] →
      (state.bind j port child).Staged lobby := by
    intro after phase hexpects hat hafter hstage
    have hflight : (state.bind j port child).flight =
        state.flight ++ [lobby.portParcel caller port] := by
      rw [Handshake.bind, hexpects.index_eq, hexpects.cliaddr_eq]
      rfl
    have hparcel : (lobby.portParcel caller port).caller? = some caller :=
      rfl
    exact (hstaged.but caller).move (fun _ _ => rfl)
      (fun other hother =>
        Handshake.mail_append_other hparcel hflight hother)
      hothers hat ((Handshake.mail_append hparcel hflight).trans hafter)
      hown hstage
  cases hstage with
  | forked hexpects _ =>
      refine hmove _ _ hexpects hcaller (by rw [hmail]; rfl)
        (.bound ⟨hexpects.index_eq, hexpects.cliaddr_eq⟩ rfl)
  | acked hexpects _ =>
      refine hmove _ _ hexpects hcaller (by rw [hmail]; rfl)
        (.offered ⟨hexpects.index_eq, hexpects.cliaddr_eq⟩ rfl)
  | bound _ hwaits | offered _ hwaits | greeted hwaits =>
      rw [hphase] at hwaits
      cases hwaits
  | served hserved =>
      rw [hphase] at hserved
      cases hserved

theorem Handshake.Staged.exit
    (hstaged : state.Staged lobby) (hsound : state.Sound lobby)
    {j port : ℕ} {child : Child Caller}
    (hchild : state.children[j]? = some child)
    (hphase : child.phase = .serving port) :
    Handshake.Staged lobby { state with
      children := state.children.set j
        { child with phase := .exited port } } := by
  obtain ⟨caller, hrequester, hkids⟩ := hstaged.child_cases hsound hchild
  let next : Handshake Caller := { state with
    children := state.children.set j { child with phase := .exited port } }
  obtain ⟨hown, hothers⟩ := Handshake.kids_set
    { child with phase := .exited port } hchild hrequester hkids rfl
    (by rfl : next.children = _)
  have hstage := hstaged caller
  rw [hkids] at hstage
  generalize hcaller : state.callers caller = phase at hstage
  generalize hmail : state.mail caller = mail at hstage
  cases hstage with
  | forked _ hother | acked _ hother | bound _ hother | offered _ hother
  | greeted hother =>
      rw [hphase] at hother
      cases hother
  | served hserved =>
      rw [hphase] at hserved
      cases hserved
      exact (hstaged.but caller).move (fun _ _ => rfl) (fun _ _ => rfl)
        hothers hcaller hmail hown (.served rfl)

theorem Handshake.Staged.step
    (hstaged : state.Staged lobby) (hsound : state.Sound lobby)
    {event : HandshakeEvent Caller} (horder : state.InOrder event)
    (hstep : state.step lobby event = some next) :
    next.Staged lobby := by
  cases event with
  | ask caller =>
      simp only [Handshake.step, Option.ite_none_right_eq_some,
        Option.some.injEq] at hstep
      obtain ⟨hidle, rfl⟩ := hstep
      exact hstaged.ask hidle
  | deliver position =>
      obtain ⟨parcel, hparcel, rfl⟩ := Option.map_eq_some_iff.mp hstep
      exact hstaged.deliver hsound hparcel horder
  | duplicate position => exact absurd horder id
  | lose position => exact absurd horder id
  | bind j port =>
      obtain ⟨child, hchild, hbind⟩ := Option.bind_eq_some_iff.mp hstep
      simp only [Option.ite_none_right_eq_some,
        Option.some.injEq] at hbind
      obtain ⟨⟨hphase, _⟩, rfl⟩ := hbind
      exact hstaged.bind hsound hchild hphase
  | exit j =>
      obtain ⟨child, hchild, hexit⟩ := Option.bind_eq_some_iff.mp hstep
      cases hphase : child.phase with
      | serving port =>
          simp only [hphase, Option.some.injEq] at hexit
          subst hexit
          exact hstaged.exit hsound hchild hphase
      | forked => simp [hphase] at hexit
      | waiting port => simp [hphase] at hexit
      | exited port => simp [hphase] at hexit

theorem Handshake.Initial.staged
    (hinit : state.Initial) : state.Staged lobby := by
  subst hinit
  exact fun _ => .idle

end Stages

end NetworkProgramming.Transfer
