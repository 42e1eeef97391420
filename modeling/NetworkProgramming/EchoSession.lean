import NetworkProgramming.EchoClient
import Mathlib.Data.List.TakeWhile

/-!
# What is typed and what is shown

The clients of `EchoClient` at the server of `EchoServer`.  Every client has a
connection of its own, and the bytes pass through four places: what was
typed, what the client wrote, what the server wrote, what the client showed.
Each of them is a beginning of the one before.
-/

namespace NetworkProgramming.Echo

open Transition

/-! ## The server between its clients -/

section Server

variable {shared : Bool} {server next : Server}

theorem Connection.reset_goes (connection : Connection) :
    connection.Goes { connection with broken := true } :=
  ⟨rfl, rfl, rfl, rfl, (fun hbroken => by cases hbroken),
    List.prefix_rfl, id⟩

theorem Server.goes_update
    {c d : ℕ} {connection : Connection}
    (hgoes : (server.connections c).Goes connection) :
    (server.connections d).Goes
      (Function.update server.connections c connection d) := by
  by_cases hd : d = c
  · subst hd
    rw [Function.update_self]
    exact hgoes
  · rw [Function.update_of_ne hd]
    exact .refl _

theorem Server.onDescriptor_goes
    {t c : ℕ} {act : Thread → Connection → Option (Thread × Connection)}
    (hact : ∀ thread connection after next,
      act thread connection = some (next, after) → connection.Goes after)
    (hstep : server.onDescriptor t act = some next) :
    (server.connections c).Goes (next.connections c) ∧
      next.accepted = server.accepted ∧ next.exited = server.exited := by
  simp only [Server.onDescriptor, Option.ite_none_right_eq_some,
    Option.bind_eq_some_iff, Option.map_eq_some_iff] at hstep
  obtain ⟨_, d, _, ⟨thread, connection⟩, hpair, rfl⟩ := hstep
  exact ⟨server.goes_update (hact _ _ _ _ hpair), rfl, rfl⟩

theorem Server.alone_frame
    {t : ℕ} {act : Thread → Option Thread}
    (hstep : server.alone t act = some next) :
    next.connections = server.connections ∧
      next.accepted = server.accepted ∧ next.exited = server.exited := by
  simp only [Server.alone, Option.ite_none_right_eq_some,
    Option.map_eq_some_iff] at hstep
  obtain ⟨_, thread, _, rfl⟩ := hstep
  exact ⟨rfl, rfl, rfl⟩

/-- One event of the server or the network, as a client sees it. -/
structure Server.Progress (server next : Server) : Prop where
  goes : ∀ c < server.accepted,
    (server.connections c).Goes (next.connections c)
  accepted : next.accepted = server.accepted ∨
    next.accepted = server.accepted + 1 ∧
      ∃ service fd, next.connections server.accepted =
        ⟨service, fd, true, [], [], false, false, []⟩
  exited : server.exited = true → next.exited = true

theorem Server.progress_of_frame
    (hconnections : next.connections = server.connections)
    (haccepted : next.accepted = server.accepted)
    (hexited : server.exited = true → next.exited = true) :
    server.Progress next := by
  refine ⟨?_, .inl haccepted, hexited⟩
  intro c _
  rw [hconnections]
  exact .refl _

theorem Server.step_progress
    {event : ServerEvent} (hinner : event.isClient = false)
    (hstep : server.step shared event = some next) :
    server.Progress next := by
  cases event with
  | accept service fd =>
      simp only [Server.step, Option.ite_none_right_eq_some,
        Option.some.injEq] at hstep
      obtain ⟨_, rfl⟩ := hstep
      refine ⟨?_, .inr ⟨rfl, service, fd, ?_⟩, id⟩
      · intro c hc
        simp only [Server.accept]
        rw [Function.update_of_ne (Nat.ne_of_lt hc)]
        exact .refl _
      · simp only [Server.accept]
        rw [Function.update_self]
  | start k =>
      simp only [Server.step, Option.ite_none_right_eq_some,
        Option.map_eq_some_iff] at hstep
      obtain ⟨_, service, _, rfl⟩ := hstep
      exact Server.progress_of_frame rfl rfl id
  | peer c event =>
      simp only [Server.step, Option.ite_none_right_eq_some,
        Option.map_eq_some_iff] at hstep
      obtain ⟨_, connection, hpeer, rfl⟩ := hstep
      cases event with
      | send bytes => cases hinner
      | finish => cases hinner
      | reset =>
          simp only [Connection.peer, Option.some.injEq] at hpeer
          subst hpeer
          exact ⟨fun d _ => server.goes_update
            (server.connections c).reset_goes, .inl rfl, id⟩
  | store t =>
      obtain ⟨hconnections, haccepted, hexited⟩ :=
        Server.alone_frame hstep
      exact Server.progress_of_frame hconnections haccepted
        fun h => hexited.trans h
  | tick t ctime =>
      obtain ⟨hconnections, haccepted, hexited⟩ :=
        Server.alone_frame hstep
      exact Server.progress_of_frame hconnections haccepted
        fun h => hexited.trans h
  | read t outcome =>
      have hgoes := fun c => Server.onDescriptor_goes (c := c)
        (fun _ _ _ _ hread => Thread.read_goes hread) hstep
      exact ⟨fun c _ => (hgoes c).1, .inl (hgoes 0).2.1,
        fun h => (hgoes 0).2.2.trans h⟩
  | write t outcome =>
      have hgoes := fun c => Server.onDescriptor_goes (c := c)
        (fun _ _ _ _ hwrite => Thread.write_goes hwrite) hstep
      exact ⟨fun c _ => (hgoes c).1, .inl (hgoes 0).2.1,
        fun h => (hgoes 0).2.2.trans h⟩
  | readError t =>
      simp only [Server.step, Option.ite_none_right_eq_some,
        Option.some.injEq] at hstep
      obtain ⟨_, rfl⟩ := hstep
      exact Server.progress_of_frame rfl rfl fun _ => rfl
  | badWrite t =>
      simp only [Server.step, Option.ite_none_right_eq_some,
        Option.some.injEq] at hstep
      obtain ⟨_, rfl⟩ := hstep
      exact Server.progress_of_frame rfl rfl id

/-- As long as its peer has not finished, an echo connection stays open. -/
theorem Server.Paired.isOpen_of_unfinished
    (hpaired : server.Paired) {c : ℕ} (hc : c < server.accepted)
    (hecho : (server.connections c).service = .echo)
    (hwhole : (server.connections c).broken = false)
    (hfinished : (server.connections c).finished = false) :
    (server.connections c).isOpen = true := by
  by_cases hstarted : c < server.started
  · have hserves := hpaired.served c hstarted
    cases hserves.echoes (hserves.service.trans hecho) hwhole with
    | reading _ hrunning => exact hserves.isOpen hrunning
    | flushed hdone =>
        rw [hfinished] at hdone
        cases hdone
  · -- the thread of the last connection has not begun
    have hcounts := hpaired.counts
    have hcreated := hpaired.created
    have hlast : c = server.started := by omega
    obtain ⟨service, hservice⟩ : ∃ service, service ∈ server.created := by
      apply List.exists_mem_of_length_pos
      omega
    rw [hlast]
    exact (hpaired.newborn service hservice).isOpen

theorem Server.Paired.hears
    (hpaired : server.Paired) (c : ℕ) (event : PeerEvent) :
    (server.hears c event).Paired := by
  cases hpeer : (server.connections c).peer event with
  | none =>
      rw [Server.hears, Connection.after, hpeer, Option.getD_none,
        Function.update_eq_self]
      exact hpaired
  | some connection =>
      rw [Server.hears, Connection.after, hpeer, Option.getD_some]
      exact hpaired.peer hpeer

end Server

/-! ## A client and its connection -/

/-- What a client has done before its connection is accepted. -/
structure Client.Fresh (client : Client) : Prop where
  inputs : client.inputs = fun _ => ⟨[], false⟩
  call : client.call = none
  wrote : client.wrote = []
  ended : client.ended = false

structure Client.Joined (client : Client) (connection : Connection) :
    Prop where
  heard : (client.inputs .socket).taken <+: connection.answer
  sent : connection.sent <+: client.wrote
  whole : connection.broken = false → connection.sent = client.wrote
  finished : connection.finished = client.ended

theorem Client.Fresh.joined
    {client : Client} (hfresh : client.Fresh) (service : Service) (fd : ℤ) :
    client.Joined ⟨service, fd, true, [], [], false, false, []⟩ := by
  refine ⟨?_, ?_, ?_, ?_⟩
  · rw [hfresh.inputs]
  · exact List.nil_prefix
  · intro _
    rw [hfresh.wrote]
    rfl
  · rw [hfresh.ended]

theorem Client.Joined.goes
    {client : Client} {connection after : Connection}
    (hjoined : client.Joined connection) (hgoes : connection.Goes after) :
    client.Joined after := by
  refine ⟨hjoined.heard.trans hgoes.answer, ?_, ?_, ?_⟩
  · rw [hgoes.sent]
    exact hjoined.sent
  · intro hwhole
    rw [hgoes.sent]
    exact hjoined.whole (hgoes.broken hwhole)
  · rw [hgoes.finished]
    exact hjoined.finished

theorem Client.Joined.of_eq
    {client next : Client} {connection : Connection}
    (hjoined : client.Joined connection)
    (hinputs : next.inputs = client.inputs)
    (hwrote : next.wrote = client.wrote)
    (hended : next.ended = client.ended) :
    next.Joined connection := by
  refine ⟨?_, ?_, ?_, ?_⟩
  · rw [hinputs]
    exact hjoined.heard
  · rw [hwrote]
    exact hjoined.sent
  · rw [hwrote]
    exact hjoined.whole
  · rw [hended]
    exact hjoined.finished

/-- The client writes to its socket. -/
theorem Client.Joined.send
    {client next : Client} {connection : Connection} {bytes : List UInt8}
    (hjoined : client.Joined connection)
    (hopen : connection.broken = false → connection.isOpen = true)
    (hactive : client.ended = false)
    (hheard : (next.inputs .socket).taken = (client.inputs .socket).taken)
    (hwrote : next.wrote = client.wrote ++ bytes)
    (hended : next.ended = false) :
    next.Joined (connection.after (.send bytes)) := by
  have hfinished := hjoined.finished.trans hactive
  cases hbroken : connection.broken with
  | false =>
      have hafter : connection.after (.send bytes) =
          { connection with unread := connection.unread ++ bytes } := by
        simp only [Connection.after, Connection.peer, hfinished, hbroken,
          hopen hbroken, and_self, if_true, Option.getD_some]
      have hsent : (connection.after (.send bytes)).sent = next.wrote := by
        rw [hafter, hwrote, ← hjoined.whole hbroken]
        simp only [Connection.sent, List.append_assoc]
      refine ⟨?_, ?_, fun _ => hsent, ?_⟩
      · rw [hafter, hheard]
        exact hjoined.heard
      · rw [hsent]
      · rw [hafter, hended]
        exact hfinished
  | true =>
      have hafter : connection.after (.send bytes) = connection := by
        simp only [Connection.after, Connection.peer, hbroken,
          Bool.true_eq_false, false_and, and_false, if_false,
          Option.getD_none]
      rw [hafter]
      refine ⟨?_, ?_, ?_, ?_⟩
      · rw [hheard]
        exact hjoined.heard
      · rw [hwrote]
        exact hjoined.sent.trans (List.prefix_append _ _)
      · intro hwhole
        rw [hbroken] at hwhole
        cases hwhole
      · rw [hended]
        exact hfinished

theorem Connection.after_finish (connection : Connection) :
    connection.after .finish = { connection with finished := true } := by
  cases hfinished : connection.finished with
  | false =>
      simp only [Connection.after, Connection.peer, hfinished, if_true,
        Option.getD_some]
  | true =>
      simp only [Connection.after, Connection.peer, hfinished,
        Bool.true_eq_false, if_false, Option.getD_none]
      cases connection
      subst hfinished
      rfl

theorem Client.Joined.finish
    {client next : Client} {connection : Connection}
    (hjoined : client.Joined connection)
    (hheard : (next.inputs .socket).taken = (client.inputs .socket).taken)
    (hwrote : next.wrote = client.wrote) (hended : next.ended = true) :
    next.Joined (connection.after .finish) := by
  rw [Connection.after_finish]
  refine ⟨?_, ?_, ?_, ?_⟩
  · rw [hheard]
    exact hjoined.heard
  · rw [hwrote]
    exact hjoined.sent
  · rw [hwrote]
    exact hjoined.whole
  · exact hended.symm

/-! ## What a call leaves alone -/

section Calls

variable {client next : Client} {bytes : List UInt8}

theorem Client.wrote_handOn
    (client : Client) (line : List UInt8) (source : Source) :
    (client.handOn line source).wrote =
      client.wrote ++ sentFor line source := by
  cases source with
  | socket => exact (List.append_nil _).symm
  | stdin => rfl

theorem Client.keysDone_handOn
    (client : Client) (line : List UInt8) (source : Source) :
    (client.handOn line source).keysDone = client.keysDone := by
  cases source with
  | socket => rfl
  | stdin => rfl

theorem Client.ended_handOn
    (client : Client) (line : List UInt8) (source : Source) :
    (client.handOn line source).ended = client.ended := by
  cases source with
  | socket => rfl
  | stdin => rfl

/-- The descriptors are where they were, and what is new was written. -/
structure Client.Continues (client next : Client) (bytes : List UInt8) :
    Prop where
  heard : (next.inputs .socket).taken = (client.inputs .socket).taken
  keysDone : next.keysDone = client.keysDone
  wrote : next.wrote = client.wrote ++ bytes

theorem Client.store_continues
    (hstore : client.store = some (next, bytes)) :
    client.Continues next bytes ∧ next.inputs = client.inputs ∧
      next.ended = client.ended := by
  obtain ⟨source, hcall, hstore⟩ := Option.bind_eq_some_iff.mp hstore
  obtain ⟨⟨reader, result⟩, _, hstore⟩ := Option.map_eq_some_iff.mp hstore
  cases result with
  | none =>
      simp only [Prod.mk.injEq] at hstore
      obtain ⟨rfl, rfl⟩ := hstore
      exact ⟨⟨rfl, rfl, (List.append_nil _).symm⟩, rfl, rfl⟩
  | some line =>
      simp only [Prod.mk.injEq] at hstore
      obtain ⟨rfl, rfl⟩ := hstore
      have hinputs := Client.inputs_handOn { client with reader := reader }
        line source
      refine ⟨⟨?_, Client.keysDone_handOn _ _ _,
        Client.wrote_handOn _ _ _⟩, hinputs, Client.ended_handOn _ _ _⟩
      rw [hinputs]

/-- A call which goes on has stored something. -/
theorem Client.Keeps.store_ready
    (hkeeps : client.Keeps) (hstore : client.store = some (next, bytes)) :
    next.call = none ∨ next.reader ≠ .empty := by
  obtain ⟨source, hcall, hstore⟩ := Option.bind_eq_some_iff.mp hstore
  obtain ⟨⟨reader, result⟩, hreader, hstore⟩ :=
    Option.map_eq_some_iff.mp hstore
  rcases Reader.store_oneLine hkeeps.single hreader with
    ⟨rfl, _, hnonempty⟩ | ⟨line, rfl, rfl⟩
  · simp only [Prod.mk.injEq] at hstore
    obtain ⟨rfl, rfl⟩ := hstore
    exact .inr hnonempty
  · simp only [Prod.mk.injEq] at hstore
    obtain ⟨rfl, rfl⟩ := hstore
    exact .inl (Client.call_handOn _ _ _)

theorem Client.eof_continues
    (hactive : client.ended = false)
    (heof : client.eof = some (next, bytes)) :
    client.Continues next bytes ∧ next.call = none ∧
      (next.ended = true → bytes = []) ∧
      ∀ source, (next.inputs source).ended = true →
        (client.inputs source).ended = true ∨
          client.call = some source := by
  obtain ⟨source, hcall, heof⟩ := Option.bind_eq_some_iff.mp heof
  simp only [Option.ite_none_right_eq_some] at heof
  obtain ⟨_, heof⟩ := heof
  have htaken : (Function.update client.inputs source
      ⟨(client.inputs source).taken, true⟩ .socket).taken =
        (client.inputs .socket).taken := by
    by_cases hsocket : .socket = source
    · subst hsocket
      rw [Function.update_self]
    · rw [Function.update_of_ne hsocket]
  have hended : ∀ other, (Function.update client.inputs source
      ⟨(client.inputs source).taken, true⟩ other).ended = true →
        (client.inputs other).ended = true ∨
          client.call = some other := by
    intro other hother
    by_cases hsame : other = source
    · subst hsame
      exact .inr hcall
    · rw [Function.update_of_ne hsame] at hother
      exact .inl hother
  split at heof
  · simp only [Option.some.injEq, Prod.mk.injEq] at heof
    obtain ⟨rfl, rfl⟩ := heof
    exact ⟨⟨htaken, rfl, (List.append_nil _).symm⟩, rfl, fun _ => rfl,
      hended⟩
  · simp only [Option.some.injEq, Prod.mk.injEq] at heof
    obtain ⟨rfl, rfl⟩ := heof
    refine ⟨⟨?_, Client.keysDone_handOn _ _ _,
      Client.wrote_handOn _ _ _⟩, Client.call_handOn _ _ _, ?_, ?_⟩
    · rw [Client.inputs_handOn]
      exact htaken
    · rw [Client.ended_handOn]
      intro htrue
      have hfalse : client.ended = true := htrue
      rw [hactive] at hfalse
      cases hfalse
    · rw [Client.inputs_handOn]
      exact hended

/-- `read` from the socket returns what the server has written. -/
theorem Client.Joined.read
    {connection : Connection} {n : ℕ} (hjoined : client.Joined connection)
    (hread : client.read connection.answer n = some next) :
    next.Joined connection := by
  obtain ⟨source, _, hread⟩ := Option.bind_eq_some_iff.mp hread
  simp only [Option.ite_none_right_eq_some, Option.some.injEq] at hread
  obtain ⟨_, rfl⟩ := hread
  refine ⟨?_, hjoined.sent, hjoined.whole, hjoined.finished⟩
  by_cases hsocket : .socket = source
  · subst hsocket
    simp only [Function.update_self, Client.available]
    obtain ⟨fresh, hfresh⟩ := hjoined.heard
    rw [← hfresh, List.drop_left]
    exact (List.prefix_append_right_inj _).mpr (List.take_prefix n fresh)
  · simp only [Function.update_of_ne hsocket]
    exact hjoined.heard

theorem Client.read_frame
    {answer : List UInt8} {n : ℕ}
    (hread : client.read answer n = some next) :
    next.keysDone = client.keysDone ∧ next.reader ≠ .empty ∧
      ∀ source, (next.inputs source).ended = true →
        (client.inputs source).ended = true := by
  obtain ⟨source, _, hread⟩ := Option.bind_eq_some_iff.mp hread
  simp only [Option.ite_none_right_eq_some, Option.some.injEq] at hread
  obtain ⟨⟨_, _, hpos, _, hlength⟩, rfl⟩ := hread
  refine ⟨rfl, ?_, ?_⟩
  · intro hempty
    have hrest := congrArg (List.length ∘ Reader.rest) hempty
    simp only [Function.comp_apply, List.length_take, Reader.empty,
      List.length_nil] at hrest
    omega
  · intro other hended
    by_cases hsame : other = source
    · subst hsame
      simp only [Function.update_self, Bool.false_eq_true] at hended
    · simp only [Function.update_of_ne hsame] at hended
      exact hended

end Calls

/-! ## All clients -/

/-- One client in a deployment.  A call of `Readline` was made because there
was something to read, and a descriptor at its end stays there. -/
structure Deployment.SoundAt (state : Deployment) (c : ℕ) : Prop where
  keeps : (state.clients c).Keeps
  fresh : state.server.accepted ≤ c → (state.clients c).Fresh
  joined : c < state.server.accepted →
    (state.clients c).Joined (state.server.connections c)
  ready : (state.clients c).ended = false →
    ∀ source, (state.clients c).call = some source →
      (state.clients c).reader ≠ .empty ∨ state.available c source ≠ [] ∨
        state.Over c source
  final : ∀ source, ((state.clients c).inputs source).ended = true →
    state.Over c source

structure Deployment.Sound (state : Deployment) : Prop where
  paired : state.server.Paired
  clients : ∀ c, state.SoundAt c

section Sound

variable {shared : Bool} {state next : Deployment} {c : ℕ}

theorem Deployment.SoundAt.of_eq
    (hsound : state.SoundAt c)
    (hclient : next.clients c = state.clients c)
    (hconnection : next.server.connections c =
      state.server.connections c)
    (haccepted : next.server.accepted = state.server.accepted)
    (hexited : next.server.exited = state.server.exited) :
    next.SoundAt c := by
  have havailable : next.available c = state.available c := by
    funext source
    rw [Deployment.available, Deployment.available, hclient, hconnection]
  have hover : next.Over c = state.Over c := by
    funext source
    cases source with
    | socket =>
        rw [Deployment.Over, Deployment.Over, hconnection, hexited]
    | stdin => rw [Deployment.Over, Deployment.Over, hclient]
  constructor
  case keeps =>
    rw [hclient]
    exact hsound.keeps
  case fresh =>
    rw [hclient, haccepted]
    exact hsound.fresh
  case joined =>
    rw [hclient, haccepted, hconnection]
    exact hsound.joined
  case ready =>
    rw [hclient, havailable, hover]
    exact hsound.ready
  case final =>
    rw [hclient, hover]
    exact hsound.final

/-- What was available stays available, and what was over stays over. -/
theorem Deployment.progress_kept
    (hprogress : state.server.Progress next.server)
    (hclients : next.clients = state.clients)
    (hc : c < state.server.accepted) (source : Source) :
    (state.available c source ≠ [] → next.available c source ≠ []) ∧
      (state.Over c source → next.Over c source) := by
  have hgoes := hprogress.goes c hc
  cases source with
  | socket =>
      constructor
      · intro hsome hnone
        obtain ⟨more, hmore⟩ := hgoes.answer
        simp only [Deployment.available, Client.available, hclients,
          ← hmore, List.drop_append, List.append_eq_nil_iff] at hsome hnone
        exact hsome hnone.1
      · rintro (hclosed | hexited)
        · left
          cases hopen : (next.server.connections c).isOpen with
          | false => rfl
          | true =>
              rw [hgoes.isOpen hopen] at hclosed
              cases hclosed
        · exact .inr (hprogress.exited hexited)
  | stdin =>
      have havailable : next.available c .stdin =
          state.available c .stdin := by
        simp only [Deployment.available, Client.available, hclients]
      rw [havailable, Deployment.Over, Deployment.Over, hclients]
      exact ⟨id, id⟩

theorem Deployment.SoundAt.progress
    (hsound : state.SoundAt c)
    (hprogress : state.server.Progress next.server)
    (hclients : next.clients = state.clients) :
    next.SoundAt c := by
  have hmonotone : state.server.accepted ≤ next.server.accepted := by
    rcases hprogress.accepted with haccepted | ⟨haccepted, _⟩
    · exact haccepted.ge
    · omega
  by_cases hc : c < state.server.accepted
  · have hkept := Deployment.progress_kept hprogress hclients hc
    constructor
    case keeps =>
      rw [hclients]
      exact hsound.keeps
    case fresh =>
      intro hlate
      omega
    case joined =>
      intro _
      rw [hclients]
      exact (hsound.joined hc).goes (hprogress.goes c hc)
    case ready =>
      rw [hclients]
      intro halive source hcall
      rcases hsound.ready halive source hcall with hreader | hsome | hover
      · exact .inl hreader
      · exact .inr (.inl ((hkept source).1 hsome))
      · exact .inr (.inr ((hkept source).2 hover))
    case final =>
      intro source hended
      rw [hclients] at hended
      exact (hkept source).2 (hsound.final source hended)
  · have hfresh := hsound.fresh (Nat.le_of_not_lt hc)
    constructor
    case keeps =>
      rw [hclients]
      exact hsound.keeps
    case fresh =>
      intro _
      rw [hclients]
      exact hfresh
    case joined =>
      intro hnew
      rcases hprogress.accepted with haccepted | ⟨haccepted, hnewborn⟩
      · omega
      · obtain ⟨service, fd, hconnection⟩ := hnewborn
        have hlast : c = state.server.accepted := by omega
        rw [hclients, hlast, hconnection, ← hlast]
        exact hfresh.joined service fd
    case ready =>
      intro _ source hcall
      rw [hclients, hfresh.call] at hcall
      cases hcall
    case final =>
      intro source hended
      rw [hclients, hfresh.inputs] at hended
      cases hended

/-- An event of one active client. -/
theorem Deployment.Sound.put
    (hsound : state.Sound) (hactive : state.Active c) {client : Client}
    {connection : Connection}
    (hclients : next.clients = Function.update state.clients c client)
    (hconnections : next.server.connections =
      Function.update state.server.connections c connection)
    (haccepted : next.server.accepted = state.server.accepted)
    (hexited : next.server.exited = state.server.exited)
    (hpaired : next.server.Paired)
    (hkeeps : client.Keeps) (hjoined : client.Joined connection)
    (hready : client.ended = false →
      ∀ source, client.call = some source →
        client.reader ≠ .empty ∨ next.available c source ≠ [] ∨
          next.Over c source)
    (hfinal : ∀ source, (client.inputs source).ended = true →
      next.Over c source) :
    next.Sound := by
  refine ⟨hpaired, ?_⟩
  intro d
  by_cases hd : d = c
  · subst hd
    have hclient : next.clients d = client := by
      rw [hclients, Function.update_self]
    have hnew : next.server.connections d = connection := by
      rw [hconnections, Function.update_self]
    constructor
    case keeps =>
      rw [hclient]
      exact hkeeps
    case fresh =>
      intro hlate
      rw [haccepted] at hlate
      exact absurd hactive.1 (Nat.not_lt.mpr hlate)
    case joined =>
      intro _
      rw [hclient, hnew]
      exact hjoined
    case ready =>
      rw [hclient]
      exact hready
    case final =>
      rw [hclient]
      exact hfinal
  · refine (hsound.clients d).of_eq ?_ ?_ haccepted hexited
    · rw [hclients, Function.update_of_ne hd]
    · rw [hconnections, Function.update_of_ne hd]

theorem Deployment.Over.of_eq
    {source : Source} (hover : state.Over c source)
    (hkeys : (next.clients c).keysDone = (state.clients c).keysDone)
    (hopen : (next.server.connections c).isOpen =
      (state.server.connections c).isOpen)
    (hexited : next.server.exited = state.server.exited) :
    next.Over c source := by
  cases source with
  | socket =>
      rw [Deployment.Over, hopen, hexited]
      exact hover
  | stdin =>
      rw [Deployment.Over, hkeys]
      exact hover

/-- A client which does something without its socket. -/
theorem Deployment.Sound.alone
    (hsound : state.Sound) (hactive : state.Active c) {client : Client}
    (hnext : next = { state with
      clients := Function.update state.clients c client })
    (hkeysDone : client.keysDone = (state.clients c).keysDone)
    (hkeeps : client.Keeps)
    (hjoined : client.Joined (state.server.connections c))
    (hready : ∀ source, client.call = some source →
      client.reader ≠ .empty ∨ next.available c source ≠ [] ∨
        next.Over c source)
    (hfinal : ∀ source, (client.inputs source).ended = true →
      state.Over c source) :
    next.Sound := by
  subst hnext
  refine hsound.put hactive rfl
    (Function.update_eq_self c state.server.connections).symm rfl rfl
    hsound.paired hkeeps hjoined (fun _ => hready) ?_
  intro source hended
  refine (hfinal source hended).of_eq ?_ rfl rfl
  dsimp only
  rw [Function.update_self, hkeysDone]

theorem Connection.isOpen_after (connection : Connection)
    (event : PeerEvent) :
    (connection.after event).isOpen = connection.isOpen := by
  rw [Connection.after]
  cases hpeer : connection.peer event with
  | none => rfl
  | some after => exact (Connection.peer_descriptor hpeer).2

theorem Deployment.Sound.moves
    (hsound : state.Sound) (hactive : state.Active c) {client : Client}
    {bytes : List UInt8}
    (hcontinues : (state.clients c).Continues client bytes)
    (hended : client.ended = false) (hkeeps : client.Keeps)
    (hready : client.call = none ∨ client.reader ≠ .empty)
    (hfinal : ∀ source, (client.inputs source).ended = true →
      state.Over c source) :
    (state.moves c client bytes).Sound := by
  obtain ⟨hc, hecho, halive⟩ := hactive
  have hjoined := (hsound.clients c).joined hc
  have hopen : (state.server.connections c).broken = false →
      (state.server.connections c).isOpen = true := fun hwhole =>
    hsound.paired.isOpen_of_unfinished hc hecho hwhole
      (hjoined.finished.trans halive)
  refine hsound.put ⟨hc, hecho, halive⟩ rfl rfl rfl rfl
    (hsound.paired.hears c _) hkeeps
    (hjoined.send hopen halive hcontinues.heard hcontinues.wrote hended)
    ?_ ?_
  · intro _ source hcall
    rcases hready with hnone | hnonempty
    · rw [hnone] at hcall
      cases hcall
    · exact .inl hnonempty
  · intro source hdone
    refine (hfinal source hdone).of_eq ?_ ?_ rfl
    · dsimp only [Deployment.moves]
      rw [Function.update_self, hcontinues.keysDone]
    · dsimp only [Deployment.moves, Server.hears]
      rw [Function.update_self, Connection.isOpen_after]

theorem Deployment.Sound.exits
    (hsound : state.Sound) (hactive : state.Active c) {client : Client}
    (hcontinues : (state.clients c).Continues client [])
    (hkeeps : client.Keeps)
    (hfinal : ∀ source, (client.inputs source).ended = true →
      state.Over c source) :
    (state.exits c client).Sound := by
  have hjoined := (hsound.clients c).joined hactive.1
  have hwrote := hcontinues.wrote
  rw [List.append_nil] at hwrote
  refine hsound.put hactive rfl rfl rfl rfl (hsound.paired.hears c _)
    (hkeeps.of_eq rfl rfl rfl rfl rfl)
    (hjoined.finish hcontinues.heard hwrote rfl) ?_ ?_
  · intro halive
    cases halive
  · intro source hdone
    refine (hfinal source hdone).of_eq ?_ ?_ rfl
    · dsimp only [Deployment.exits]
      rw [Function.update_self]
      exact hcontinues.keysDone
    · dsimp only [Deployment.exits, Server.hears]
      rw [Function.update_self, Connection.isOpen_after]

/-- The user types, or will type nothing more. -/
theorem Deployment.Sound.keys
    (hsound : state.Sound) (c : ℕ) {keys : List UInt8} {keysDone : Bool}
    (hkeys : (state.clients c).keys ≠ [] → keys ≠ [])
    (hdone : (state.clients c).keysDone = true → keysDone = true) :
    Deployment.Sound { state with
      clients := Function.update state.clients c
        { state.clients c with keys := keys, keysDone := keysDone } } := by
  refine ⟨hsound.paired, ?_⟩
  intro d
  have hold := hsound.clients d
  by_cases hd : d = c
  · subst hd
    have hover : ∀ source, state.Over d source →
        Deployment.Over { state with
          clients := Function.update state.clients d
            { state.clients d with keys := keys, keysDone := keysDone } }
          d source := by
      intro source hover
      cases source with
      | socket => exact hover
      | stdin =>
          dsimp only [Deployment.Over]
          rw [Function.update_self]
          exact hdone hover
    constructor
    case keeps =>
      dsimp only
      rw [Function.update_self]
      exact hold.keeps.of_eq rfl rfl rfl rfl rfl
    case fresh =>
      intro hlate
      have hfresh := hold.fresh hlate
      dsimp only
      rw [Function.update_self]
      exact ⟨hfresh.inputs, hfresh.call, hfresh.wrote, hfresh.ended⟩
    case joined =>
      intro hc
      dsimp only
      rw [Function.update_self]
      exact (hold.joined hc).of_eq rfl rfl rfl
    case ready =>
      dsimp only [Deployment.available]
      rw [Function.update_self]
      intro halive source hcall
      rcases hold.ready halive source hcall with hreader | hsome | hdone
      · exact .inl hreader
      · refine .inr (.inl ?_)
        cases source with
        | socket => exact hsome
        | stdin => exact hkeys hsome
      · exact .inr (.inr (hover source hdone))
    case final =>
      dsimp only
      rw [Function.update_self]
      intro source hended
      exact hover source (hold.final source hended)
  · refine hold.of_eq ?_ rfl rfl rfl
    dsimp only
    rw [Function.update_of_ne hd]

theorem Deployment.Sound.step
    (hsound : state.Sound) {event : DeploymentEvent}
    (hallowed : state.LineReads event)
    (hstep : state.step shared event = some next) :
    next.Sound := by
  cases event with
  | server event =>
      simp only [Deployment.step, Option.ite_none_right_eq_some,
        Option.map_eq_some_iff] at hstep
      obtain ⟨hinner, server, hserver, rfl⟩ := hstep
      refine ⟨hsound.paired.step hallowed hserver, ?_⟩
      intro c
      exact (hsound.clients c).progress (Server.step_progress hinner hserver)
        rfl
  | keys c bytes =>
      simp only [Deployment.step, Option.ite_none_right_eq_some,
        Option.some.injEq] at hstep
      obtain ⟨_, rfl⟩ := hstep
      refine hsound.keys c ?_ id
      intro hsome hnil
      exact hsome (List.append_eq_nil_iff.mp hnil).1
  | keysDone c =>
      simp only [Deployment.step, Option.some.injEq] at hstep
      subst hstep
      exact hsound.keys c id fun _ => rfl
  | select c source =>
      simp only [Deployment.step, Option.ite_none_right_eq_some,
        Option.some.injEq] at hstep
      obtain ⟨⟨hactive, hcall, hsome⟩, rfl⟩ := hstep
      have hold := hsound.clients c
      refine hsound.alone hactive rfl rfl (hold.keeps.select hcall source)
        ((hold.joined hactive.1).of_eq rfl rfl rfl) ?_ hold.final
      intro other hother
      have hsame := Option.some.inj hother
      subst hsame
      right
      rcases hsome with hsome | hover
      · left
        dsimp only [Deployment.available]
        rw [Function.update_self]
        cases source with
        | socket => exact hsome
        | stdin => exact hsome
      · right
        refine hover.of_eq ?_ rfl rfl
        dsimp only
        rw [Function.update_self]
  | read c n =>
      simp only [Deployment.step, Option.ite_none_right_eq_some,
        Option.map_eq_some_iff] at hstep
      obtain ⟨hactive, client, hread, rfl⟩ := hstep
      have hold := hsound.clients c
      obtain ⟨hkeysDone, hnonempty, hended⟩ := Client.read_frame hread
      exact hsound.alone hactive rfl hkeysDone
        (hold.keeps.read hallowed hread)
        ((hold.joined hactive.1).read hread)
        (fun _ _ => .inl hnonempty)
        fun source hdone => hold.final source (hended source hdone)
  | store c =>
      simp only [Deployment.step, Option.ite_none_right_eq_some,
        Option.map_eq_some_iff] at hstep
      obtain ⟨hactive, ⟨client, bytes⟩, hstore, rfl⟩ := hstep
      have hold := hsound.clients c
      obtain ⟨hcontinues, hinputs, hended⟩ := Client.store_continues hstore
      refine hsound.moves hactive hcontinues (hended.trans hactive.2.2)
        (hold.keeps.store hstore) (hold.keeps.store_ready hstore) ?_
      intro source hdone
      rw [hinputs] at hdone
      exact hold.final source hdone
  | eof c =>
      simp only [Deployment.step, Option.ite_none_right_eq_some,
        Option.map_eq_some_iff] at hstep
      obtain ⟨⟨hactive, hover⟩, ⟨client, bytes⟩, heof, rfl⟩ := hstep
      have hold := hsound.clients c
      obtain ⟨hcontinues, hcall, hbytes, hended⟩ :=
        Client.eof_continues hactive.2.2 heof
      have hfinal : ∀ source, (client.inputs source).ended = true →
          state.Over c source := by
        intro source hdone
        rcases hended source hdone with hbefore | hcurrent
        · exact hold.final source hbefore
        · exact (hover source hcurrent).2
      split
      next hexit =>
        rw [hbytes hexit] at hcontinues
        exact hsound.exits hactive hcontinues (hold.keeps.eof heof) hfinal
      next hgoes =>
        rw [Bool.not_eq_true] at hgoes
        exact hsound.moves hactive hcontinues hgoes (hold.keeps.eof heof)
          (.inl hcall) hfinal
  | interrupt c =>
      simp only [Deployment.step, Option.ite_none_right_eq_some,
        Option.some.injEq] at hstep
      obtain ⟨hactive, rfl⟩ := hstep
      have hold := hsound.clients c
      exact hsound.exits hactive ⟨rfl, rfl, (List.append_nil _).symm⟩
        hold.keeps hold.final

end Sound

/-! ## Whole runs -/

def Deployment.listening : Deployment :=
  ⟨Server.listening, fun _ => Client.connected⟩

def Deployment.Initial (state : Deployment) : Prop :=
  state = Deployment.listening

theorem Deployment.listening_initial : Deployment.listening.Initial :=
  rfl

theorem Deployment.sound_listening : Deployment.listening.Sound := by
  refine ⟨Server.paired_listening, ?_⟩
  intro c
  constructor
  case keeps =>
    refine Client.keeps_of_none rfl rfl ?_
    intro source
    cases source with
    | socket => exact .reading [] Reader.reads_empty rfl rfl
    | stdin => exact .reading [] Reader.reads_empty rfl rfl
  case fresh =>
    intro _
    exact ⟨rfl, rfl, rfl, rfl⟩
  case joined =>
    intro hc
    cases hc
  case ready =>
    intro _ source hcall
    cases hcall
  case final =>
    intro source hended
    cases hended

/-- The client which does something in an event, apart from its user. -/
def DeploymentEvent.client? : DeploymentEvent → Option ℕ
  | .select c _ | .read c _ | .store c | .eof c => some c
  | .server _ | .keys _ _ | .keysDone _ | .interrupt _ => none

/-- Neither the client nor its thread has anything to do. -/
def Deployment.Resting (shared : Bool) (state : Deployment) (c : ℕ) :
    Prop :=
  state.server.Idle shared c ∧
    ∀ event : DeploymentEvent, event.client? = some c →
      state.step shared event = none

section Printed

variable {shared : Bool} {state : Deployment} {c : ℕ}

/-- The bytes which were shown, as they came through the four places. -/
theorem Deployment.Sound.shown_isPrefix
    (hsound : state.Sound) (hc : c < state.server.started)
    (hecho : (state.server.connections c).service = .echo)
    (hfits : FitsLines (state.clients c).typed) :
    (state.clients c).shown.flatten <+: (state.clients c).typed := by
  have hold := hsound.clients c
  have hjoined := hold.joined (hc.trans_le hsound.paired.started_le)
  have htaken : ((state.clients c).inputs .stdin).taken <+:
      (state.clients c).typed :=
    List.prefix_append _ _
  have hwrote : (state.clients c).wrote <+: (state.clients c).typed :=
    ((hold.keeps.hands .stdin).handed_isPrefix
      (hfits.of_isPrefix htaken)).trans htaken
  have hsent : (state.server.connections c).sent <+:
      (state.clients c).typed :=
    hjoined.sent.trans hwrote
  have hanswer : (state.server.connections c).answer <+:
      (state.clients c).typed := by
    have hspeaks := (hsound.paired.served c hc).speaks
    rw [Connection.Speaks, hecho,
      (hfits.of_isPrefix hsent).echoAll_eq] at hspeaks
    exact hspeaks.trans hsent
  have hheard := hjoined.heard.trans hanswer
  exact ((hold.keeps.hands .socket).handed_isPrefix
    (hfits.of_isPrefix hheard)).trans hheard

/-- Lines without a zero byte are shown as they are. -/
theorem Client.printed_eq
    {client : Client} (hnonzero : 0 ∉ client.shown.flatten) :
    client.printed = client.shown.flatten := by
  have hsame : ∀ line ∈ client.shown, shownText line = line := by
    intro line hline
    apply List.takeWhile_eq_self_iff.mpr
    intro b hb
    rw [decide_eq_true_eq]
    rintro rfl
    exact hnonzero (List.mem_flatten.mpr ⟨line, hline, hb⟩)
  rw [Client.printed, List.map_congr_left hsame, List.map_id']

/-- An input which nobody is reading was handed on completely. -/
theorem Input.Hands.handed_eq_taken
    {input : Input} {handed : List UInt8}
    (hhands : input.Hands .empty handed) (hfits : FitsLines input.taken)
    (hongoing : input.ended = false) :
    handed = input.taken ∧ openLine input.taken = [] := by
  cases hhands with
  | reading consumed hreads hhanded =>
      have htaken : input.taken = consumed :=
        hreads.taken.trans (List.append_nil _)
      have hopen : openLine input.taken = [] := by
        rw [htaken]
        exact hreads.line.symm
      rw [hhanded, ← htaken]
      exact ⟨hfits.echoLines_eq hopen, hopen⟩
  | flushed hended =>
      rw [hongoing] at hended
      cases hended

/-- Nothing is left to read for a client at rest. -/
theorem Deployment.available_of_resting
    (hactive : state.Active c) (hrest : state.Resting shared c)
    {source : Source} (hcall : (state.clients c).call = some source)
    (hongoing : ((state.clients c).inputs source).ended = false) :
    (state.clients c).reader.rest = [] ∧
      state.available c source = [] := by
  have hstore := hrest.2 (.store c) rfl
  simp only [Deployment.step, if_pos hactive, Option.map_eq_none_iff,
    Client.store, hcall, Option.bind_some] at hstore
  have hempty := Reader.store_eq_none_iff.mp hstore
  refine ⟨hempty, ?_⟩
  rcases hsome : state.available c source with _ | ⟨b, rest⟩
  · rfl
  · have hread := hrest.2 (.read c 1) rfl
    rw [Deployment.available] at hsome
    simp [Deployment.step, hactive, Client.read, hcall, hempty, hongoing,
      hsome, maxline] at hread

/-- At rest everything the client wrote has come back to it. -/
theorem Deployment.Sound.echoed_at_rest
    (hsound : state.Sound) (hc : c < state.server.started)
    (hactive : state.Active c)
    (hwhole : (state.server.connections c).broken = false)
    (hup : state.server.exited = false)
    (hrest : state.Resting shared c) :
    (state.server.connections c).answer =
      echoLines (state.clients c).wrote := by
  have hjoined := (hsound.clients c).joined hactive.1
  have hanswer := hsound.paired.answer_of_idle hup hc hactive.2.1 hwhole
    hrest.1
  have hfinished := hjoined.finished.trans hactive.2.2
  rw [hfinished, if_neg (by decide), hjoined.whole hwhole] at hanswer
  exact hanswer

theorem Deployment.SoundAt.input_ongoing
    (hold : state.SoundAt c) {source : Source}
    (hongoing : ¬ state.Over c source) :
    ((state.clients c).inputs source).ended = false := by
  cases hended : ((state.clients c).inputs source).ended with
  | false => rfl
  | true => exact absurd (hold.final source hended) hongoing

theorem Deployment.Sound.call_none_at_rest
    (hsound : state.Sound) (hc : c < state.server.started)
    (hactive : state.Active c)
    (hwhole : (state.server.connections c).broken = false)
    (hup : state.server.exited = false)
    (hrest : state.Resting shared c)
    (hfits : FitsLines (state.clients c).typed)
    (hopen : openLine (state.clients c).typed = [])
    (hongoing : ∀ source, ¬ state.Over c source) :
    (state.clients c).call = none := by
  have hold := hsound.clients c
  have hjoined := hold.joined hactive.1
  have hinputs := fun source => hold.input_ongoing (hongoing source)
  cases hcall : (state.clients c).call with
  | none => rfl
  | some source =>
      exfalso
      obtain ⟨hempty, havailable⟩ :=
        Deployment.available_of_resting hactive hrest hcall
          (hinputs source)
      -- the call has taken everything, and waits within a line
      have hline : (state.clients c).reader.line ≠ [] := by
        rcases hold.ready hactive.2.2 source hcall with
          hreader | hsome | hover
        · intro hnil
          exact hreader (Reader.eq_empty hnil hempty)
        · exact absurd havailable hsome
        · exact absurd hover (hongoing source)
      apply hline
      cases hold.keeps.current hcall with
      | flushed hended =>
          rw [hinputs source] at hended
          cases hended
      | reading consumed hreads _ _ =>
          rw [hreads.line]
          have htaken := hreads.taken
          rw [hempty, List.append_nil] at htaken
          rw [← htaken]
          cases source with
          | stdin =>
              have hkeys : (state.clients c).keys = [] := havailable
              rw [Client.typed, hkeys, List.append_nil] at hopen
              exact hopen
          | socket =>
              have hstdin := hold.keeps.others hcall
                (by decide : Source.stdin ≠ .socket)
              have hpart : ((state.clients c).inputs .stdin).taken <+:
                  (state.clients c).typed :=
                List.prefix_append _ _
              have hfitsTaken := hfits.of_isPrefix hpart
              obtain ⟨hwrote, hlast⟩ :=
                hstdin.handed_eq_taken hfitsTaken (hinputs .stdin)
              have hwrote' : (state.clients c).wrote =
                  ((state.clients c).inputs .stdin).taken := hwrote
              have hanswer := hsound.echoed_at_rest hc hactive hwhole hup
                hrest
              rw [hwrote', hfitsTaken.echoLines_eq hlast] at hanswer
              have hheard : ((state.clients c).inputs .socket).taken =
                  (state.server.connections c).answer :=
                hjoined.heard.eq_of_length_le
                  (List.drop_eq_nil_iff.mp havailable)
              rw [hheard, hanswer]
              exact hlast

end Printed

theorem Server.idle_of_waits
    {shared : Bool} {server : Server} {t : ℕ}
    (hwaits : (server.threads t).Waits)
    (hfound : server.connectionAt (server.threads t).fd = some t)
    (hunread : (server.connections t).unread = [])
    (hfinished : (server.connections t).finished = false)
    (hwhole : (server.connections t).broken = false) :
    server.Idle shared t := by
  obtain ⟨hecho, hbuf, hrest⟩ := hwaits
  intro event hevent
  cases event with
  | accept service fd => cases hevent
  | start k => cases hevent
  | peer c event => cases hevent
  | store u =>
      obtain rfl : u = t := Option.some.inj hevent
      simp [Server.step, Server.alone, Thread.store,
        Reader.store_eq_none_iff.mpr hrest]
  | tick u ctime =>
      obtain rfl : u = t := Option.some.inj hevent
      simp [Server.step, Server.alone, Thread.tick, hecho]
  | read u outcome =>
      obtain rfl : u = t := Option.some.inj hevent
      cases outcome with
      | chunk n =>
          have hnone : ¬ (0 < n ∧ n ≤ maxline ∧ n ≤ 0) := by omega
          simp only [Server.step, Server.onDescriptor, hfound,
            Option.bind_some, Thread.read, hunread, List.length_nil,
            hnone, and_false, if_false, ite_self, Option.map_none]
      | eof =>
          simp [Server.step, Server.onDescriptor, hfound, Thread.read,
            hfinished, hwhole]
  | write u outcome =>
      obtain rfl : u = t := Option.some.inj hevent
      simp [Server.step, Server.onDescriptor, hfound, Thread.write, hbuf]
  | readError u =>
      obtain rfl : u = t := Option.some.inj hevent
      simp [Server.step, hfound, hwhole]
  | badWrite u =>
      obtain rfl : u = t := Option.some.inj hevent
      simp [Server.step, hbuf]

theorem Deployment.resting_of_select
    {shared : Bool} {state : Deployment} {c : ℕ}
    (hidle : state.server.Idle shared c)
    (hcall : (state.clients c).call = none)
    (hnothing : ∀ source, state.available c source = [])
    (hongoing : ∀ source, ¬ state.Over c source) :
    state.Resting shared c := by
  refine ⟨hidle, ?_⟩
  intro event hevent
  cases event with
  | server event => cases hevent
  | keys d bytes => cases hevent
  | keysDone d => cases hevent
  | interrupt d => cases hevent
  | select d source =>
      obtain rfl : d = c := Option.some.inj hevent
      simp [Deployment.step, hnothing source, hongoing source]
  | read d n =>
      obtain rfl : d = c := Option.some.inj hevent
      simp [Deployment.step, Client.read, hcall]
  | store d =>
      obtain rfl : d = c := Option.some.inj hevent
      simp [Deployment.step, Client.store, hcall]
  | eof d =>
      obtain rfl : d = c := Option.some.inj hevent
      simp [Deployment.step, Client.eof, hcall]

/-- One line goes to the server and comes back in two pieces. -/
def oneEcho : List DeploymentEvent :=
  [.server (.accept .echo 4), .server (.start 0), .keys 0 [104, 105, 10],
    .select 0 .stdin, .read 0 3, .store 0, .store 0, .store 0,
    .server (.read 0 (.chunk 3)), .server (.store 0), .server (.store 0),
    .server (.store 0), .server (.write 0 .delivered), .select 0 .socket,
    .read 0 1, .store 0, .read 0 2, .store 0, .store 0]

/-- Two lines come back in one `read`.  The second one stays in the buffer,
and the next call for the keyboard returns it: it is sent again. -/
example :
    ∃ state, Reachable (Deployment.step false) Unrestricted
        Deployment.Initial state ∧
      (state.clients 0).typed = [97, 10, 98, 10, 99, 10] ∧
      (state.clients 0).wrote = [97, 10, 98, 10, 98, 10] := by
  obtain ⟨state, hreach, htest⟩ :=
    Transition.exists_reachable_of_replay (Deployment.step false)
      Unrestricted Deployment.listening_initial
      [.server (.accept .echo 4), .server (.start 0),
        .keys 0 [97, 10], .select 0 .stdin, .read 0 2, .store 0, .store 0,
        .keys 0 [98, 10], .select 0 .stdin, .read 0 2, .store 0, .store 0,
        .server (.read 0 (.chunk 4)), .server (.store 0),
        .server (.store 0), .server (.write 0 .delivered),
        .server (.store 0), .server (.store 0),
        .server (.write 0 .delivered), .select 0 .socket, .read 0 4,
        .store 0, .store 0, .keys 0 [99, 10], .select 0 .stdin, .store 0,
        .store 0]
      (fun state : Deployment =>
        decide ((state.clients 0).typed = [97, 10, 98, 10, 99, 10]) &&
        decide ((state.clients 0).wrote = [97, 10, 98, 10, 98, 10]))
      (by decide +kernel)
  simp only [Bool.and_eq_true, decide_eq_true_eq] at htest
  exact ⟨state, hreach, htest⟩

end NetworkProgramming.Echo
