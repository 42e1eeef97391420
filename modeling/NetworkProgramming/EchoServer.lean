import NetworkProgramming.EchoReadline
import NetworkProgramming.Transition
import Mathlib.Logic.Function.Basic

/-!
# The echo and time server

The main loop of `Assignment1/code/tcpechotimesrv.c` accepts connections at
two ports and creates a thread for each.  A thread is given the address of
the variable `connfd` and reads the descriptor from there when it begins to
run; the next `accept` writes the same variable.  When every thread has begun
before the next connection is accepted, each connection has a thread of its
own, and what the thread answers depends on this connection alone.

An error of `read` ends the whole process, since `Readline` calls `err_sys`.
The signal of a write to a connection which was reset ends the thread, and
the descriptor stays open.
-/

namespace NetworkProgramming.Echo

open Transition

inductive Service where
  | echo
  | time
  deriving DecidableEq

/-- A connection as the server sees it: what `read` has returned, what it
could still return, and what was written.  `isOpen` is about the descriptor
of the server; the peer sends nothing more after `finished`, and has reset
the connection if it is `broken`. -/
structure Connection where
  service : Service
  fd : ℤ
  isOpen : Bool
  taken : List UInt8
  unread : List UInt8
  finished : Bool
  broken : Bool
  answer : List UInt8
  deriving DecidableEq

def Connection.sent (connection : Connection) : List UInt8 :=
  connection.taken ++ connection.unread

inductive PeerEvent where
  | send (bytes : List UInt8)
  | finish
  | reset
  deriving DecidableEq

def Connection.peer (connection : Connection) :
    PeerEvent → Option Connection
  | .send bytes =>
      if connection.finished = false ∧ connection.broken = false ∧
          connection.isOpen = true then
        some { connection with unread := connection.unread ++ bytes }
      else none
  | .finish =>
      if connection.finished = false then
        some { connection with finished := true }
      else none
  | .reset => some { connection with broken := true }

/-! ## One thread -/

/-- A thread.  `buf` holds the bytes of a `write` which is still to come. -/
structure Thread where
  service : Service
  fd : ℤ
  reader : Reader
  buf : Option (List UInt8)
  running : Bool
  deriving DecidableEq

/-- The thread has read its argument. -/
def Thread.begun (service : Service) (fd : ℤ) : Thread :=
  ⟨service, fd, .empty, none, true⟩

inductive ReadOutcome where
  | chunk (n : ℕ)
  | eof
  deriving DecidableEq

inductive WriteOutcome where
  | delivered
  | failed
  | signal
  deriving DecidableEq

/-- `Readline` of `echo_server_thread`, as long as it finds bytes in its
buffer. -/
def Thread.store (thread : Thread) : Option Thread :=
  if thread.service = .echo ∧ thread.buf = none then
    thread.reader.store.map fun stored =>
      { thread with reader := stored.1, buf := stored.2 }
  else none

/-- The thread is in `read`. -/
def Thread.Waits (thread : Thread) : Prop :=
  thread.service = .echo ∧ thread.buf = none ∧ thread.reader.rest = []

instance (thread : Thread) : Decidable thread.Waits :=
  inferInstanceAs (Decidable (_ ∧ _ ∧ _))

/-- A `read` which returns.  At the end of the stream `readline` returns the
bytes it has, and without any the thread closes the connection and exits. -/
def Thread.read (outcome : ReadOutcome) (thread : Thread)
    (connection : Connection) : Option (Thread × Connection) :=
  if thread.Waits then
    match outcome with
    | .chunk n =>
        if connection.broken = false ∧ 0 < n ∧ n ≤ maxline ∧
            n ≤ connection.unread.length then
          let chunk := connection.unread.take n
          some ({ thread with reader := ⟨thread.reader.line, chunk⟩ },
            { connection with
              taken := connection.taken ++ chunk
              unread := connection.unread.drop n })
        else none
    | .eof =>
        if connection.broken = true ∨
            connection.finished = true ∧ connection.unread = [] then
          if thread.reader.line = [] then
            some ({ thread with running := false },
              { connection with isOpen := false })
          else
            some ({ thread with
                reader := ⟨[], thread.reader.rest⟩
                buf := some thread.reader.line }, connection)
        else none
  else none

/-- The array which `time_server_thread` writes, all of it: 24 bytes of the
text from `ctime`, the end of the line, and zeros. -/
def daytime (ctime : List UInt8) : List UInt8 :=
  let text := ctime.take 24 ++ [13, 10]
  text ++ List.replicate (maxline - text.length) 0

def Thread.tick (ctime : List UInt8) (thread : Thread) : Option Thread :=
  if thread.service = .time ∧ thread.buf = none ∧ 24 ≤ ctime.length then
    some { thread with buf := some (daytime ctime) }
  else none

/-- `write` returned `-1`, which only `time_server_thread` looks at. -/
def Thread.unwritten (thread : Thread) : Thread :=
  match thread.service with
  | .echo => { thread with buf := none }
  | .time => { thread with buf := none, running := false }

theorem Thread.unwritten_service (thread : Thread) :
    thread.unwritten.service = thread.service := by
  unfold Thread.unwritten
  split <;> rfl

theorem Thread.unwritten_fd (thread : Thread) :
    thread.unwritten.fd = thread.fd := by
  unfold Thread.unwritten
  split <;> rfl

def Thread.write (outcome : WriteOutcome) (thread : Thread)
    (connection : Connection) : Option (Thread × Connection) :=
  thread.buf.bind fun bytes =>
    match outcome with
    | .delivered =>
        if connection.broken = false then
          some ({ thread with buf := none },
            { connection with answer := connection.answer ++ bytes })
        else none
    | .failed =>
        if connection.broken = true then
          match thread.service with
          | .echo => some (thread.unwritten, connection)
          | .time => some (thread.unwritten,
              { connection with isOpen := false })
        else none
    | .signal =>
        -- `sig_pipe` ends the thread, which does not close its descriptor
        if connection.broken = true then
          some ({ thread with running := false }, connection)
        else none

/-! ## The server -/

/-- The process.  `connfd` are the variables of the two blocks of the main
loop, and `created` the threads which have not read their argument yet.
Threads and connections are numbered in the order in which they began. -/
structure Server where
  connfd : Service → ℤ
  created : List Service
  threads : ℕ → Thread
  started : ℕ
  connections : ℕ → Connection
  accepted : ℕ
  exited : Bool

/-- The connection which is open at a descriptor. -/
def Server.connectionAt (server : Server) (fd : ℤ) : Option ℕ :=
  (List.range server.accepted).find? fun c =>
    (server.connections c).isOpen && decide ((server.connections c).fd = fd)

def Server.Runs (server : Server) (t : ℕ) : Prop :=
  server.exited = false ∧ t < server.started ∧
    (server.threads t).running = true

instance (server : Server) (t : ℕ) : Decidable (server.Runs t) :=
  inferInstanceAs (Decidable (_ ∧ _ ∧ _))

inductive ServerEvent where
  | accept (service : Service) (fd : ℤ)
  | start (k : ℕ)
  | peer (c : ℕ) (event : PeerEvent)
  | store (t : ℕ)
  | tick (t : ℕ) (ctime : List UInt8)
  | read (t : ℕ) (outcome : ReadOutcome)
  | write (t : ℕ) (outcome : WriteOutcome)
  | readError (t : ℕ)
  | badWrite (t : ℕ)

/-- `accept` and `Pthread_create`.  The variables belong to different blocks;
`shared` says whether the compiler gave them one place. -/
def Server.accept (shared : Bool) (server : Server) (service : Service)
    (fd : ℤ) : Server :=
  { server with
    connfd := fun other =>
      if other = service ∨ shared = true then fd else server.connfd other
    created := server.created ++ [service]
    connections := Function.update server.connections server.accepted
      ⟨service, fd, true, [], [], false, false, []⟩
    accepted := server.accepted + 1 }

def Server.start (server : Server) (k : ℕ) (service : Service) : Server :=
  { server with
    created := server.created.eraseIdx k
    threads := Function.update server.threads server.started
      (.begun service (server.connfd service))
    started := server.started + 1 }

/-- The pair of a thread and a connection changes. -/
def Server.put (server : Server) (t c : ℕ) (thread : Thread)
    (connection : Connection) : Server :=
  { server with
    threads := Function.update server.threads t thread
    connections := Function.update server.connections c connection }

/-- A thread does something which concerns nobody else. -/
def Server.alone (server : Server) (t : ℕ)
    (act : Thread → Option Thread) : Option Server :=
  if server.Runs t then
    (act (server.threads t)).map fun thread =>
      { server with threads := Function.update server.threads t thread }
  else none

/-- A thread uses its descriptor. -/
def Server.onDescriptor (server : Server) (t : ℕ)
    (act : Thread → Connection → Option (Thread × Connection)) :
    Option Server :=
  if server.Runs t then
    (server.connectionAt (server.threads t).fd).bind fun c =>
      (act (server.threads t) (server.connections c)).map fun after =>
        server.put t c after.1 after.2
  else none

def Server.step (shared : Bool) (server : Server) :
    ServerEvent → Option Server
  | .accept service fd =>
      if server.exited = false ∧ server.connectionAt fd = none then
        some (server.accept shared service fd)
      else none
  | .start k =>
      if server.exited = false then
        (server.created[k]?).map (server.start k)
      else none
  | .peer c event =>
      if c < server.accepted then
        ((server.connections c).peer event).map fun connection =>
          { server with
            connections := Function.update server.connections c connection }
      else none
  | .store t => server.alone t Thread.store
  | .tick t ctime => server.alone t (Thread.tick ctime)
  | .read t outcome => server.onDescriptor t (Thread.read outcome)
  | .write t outcome => server.onDescriptor t (Thread.write outcome)
  | .readError t =>
      if server.Runs t ∧ (server.threads t).Waits ∧
          ((server.connectionAt (server.threads t).fd).map fun c =>
            (server.connections c).broken) ≠ some false then
        some { server with exited := true }
      else none
  | .badWrite t =>
      if server.Runs t ∧ (server.threads t).buf ≠ none ∧
          server.connectionAt (server.threads t).fd = none then
        some { server with
          threads := Function.update server.threads t
            (server.threads t).unwritten }
      else none

/-- The server after its two calls of `Listen`. -/
def Server.listening : Server where
  connfd := fun _ => 0
  created := []
  threads := fun _ => .begun .echo 0
  started := 0
  connections := fun _ => ⟨.echo, 0, false, [], [], false, false, []⟩
  accepted := 0
  exited := false

def Server.Initial (server : Server) : Prop :=
  server = Server.listening

theorem Server.listening_initial : Server.listening.Initial :=
  rfl

/-- No connection is accepted while a thread has still to read the descriptor
of the last one. -/
def Server.Prompt (server : Server) : ServerEvent → Prop
  | .accept _ _ => server.created = []
  | .start _ | .peer _ _ | .store _ | .tick _ _ | .read _ _ | .write _ _
  | .readError _ | .badWrite _ => True

instance (server : Server) (event : ServerEvent) :
    Decidable (server.Prompt event) :=
  match event with
  | .accept _ _ => inferInstanceAs (Decidable (_ = _))
  | .start _ | .peer _ _ | .store _ | .tick _ _ | .read _ _ | .write _ _
  | .readError _ | .badWrite _ => inferInstanceAs (Decidable True)

/-! ## What a thread has answered -/

/-- What may be written to a connection. -/
def Connection.Speaks (connection : Connection) : Prop :=
  match connection.service with
  | .echo => connection.answer <+: echoAll connection.sent
  | .time => ∃ ctimes : List (List UInt8),
      connection.answer <+: (ctimes.map daytime).flatten

/-- The thread still reads, or the stream has ended and everything was handed
on. -/
inductive Thread.Echoes (thread : Thread) (connection : Connection) : Prop
  | reading (consumed : List UInt8)
      (running : thread.running = true)
      (reads : thread.reader.Reads connection.taken consumed)
      (answer : connection.answer ++ thread.buf.getD [] =
        echoLines consumed)
  | flushed
      (finished : connection.finished = true)
      (unread : connection.unread = [])
      (reader : thread.reader = .empty)
      (answer : connection.answer ++ thread.buf.getD [] =
        echoAll connection.sent)
      (ended : thread.running = false → thread.buf = none)

def Thread.Answers (thread : Thread) (connection : Connection) : Prop :=
  match connection.service with
  | .echo => thread.Echoes connection
  | .time => ∃ ctimes : List (List UInt8),
      connection.answer ++ thread.buf.getD [] =
        (ctimes.map daytime).flatten

theorem Thread.Answers.speaks
    {thread : Thread} {connection : Connection}
    (hanswers : thread.Answers connection) :
    connection.Speaks := by
  have hpart : connection.answer <+:
      connection.answer ++ thread.buf.getD [] :=
    List.prefix_append _ _
  unfold Thread.Answers at hanswers
  unfold Connection.Speaks
  cases hservice : connection.service with
  | echo =>
      rw [hservice] at hanswers
      cases hanswers with
      | reading consumed _ hreads hanswer =>
          rw [hanswer] at hpart
          have hsent : connection.sent =
              consumed ++ (thread.reader.rest ++ connection.unread) := by
            rw [Connection.sent, hreads.taken, List.append_assoc]
          rw [hsent]
          exact hpart.trans (echoLines_isPrefix_echoAll _ _)
      | flushed _ _ _ hanswer _ =>
          rw [hanswer] at hpart
          exact hpart
  | time =>
      rw [hservice] at hanswers
      obtain ⟨ctimes, hanswer⟩ := hanswers
      exact ⟨ctimes, hanswer ▸ hpart⟩

/-- A thread and the connection it was created for. -/
structure Thread.Serves (thread : Thread) (connection : Connection) :
    Prop where
  service : thread.service = connection.service
  fd : thread.fd = connection.fd
  isOpen : thread.running = true → connection.isOpen = true
  broken : connection.broken = true → connection.Speaks
  answers : connection.broken = false → thread.Answers connection

theorem Thread.Serves.speaks
    {thread : Thread} {connection : Connection}
    (hserves : thread.Serves connection) :
    connection.Speaks := by
  cases hbroken : connection.broken with
  | false => exact (hserves.answers hbroken).speaks
  | true => exact hserves.broken hbroken

section Serves

variable {thread next : Thread} {connection after : Connection}

theorem Thread.serves_of_broken
    (hservice : thread.service = connection.service)
    (hfd : thread.fd = connection.fd)
    (hopen : thread.running = true → connection.isOpen = true)
    (hbroken : connection.broken = true) (hspeaks : connection.Speaks) :
    thread.Serves connection := by
  refine ⟨hservice, hfd, hopen, fun _ => hspeaks, ?_⟩
  intro hwhole
  rw [hbroken] at hwhole
  cases hwhole

theorem Thread.serves_of_whole
    (hservice : thread.service = connection.service)
    (hfd : thread.fd = connection.fd)
    (hopen : thread.running = true → connection.isOpen = true)
    (hwhole : connection.broken = false)
    (hanswers : thread.Answers connection) :
    thread.Serves connection := by
  refine ⟨hservice, hfd, hopen, ?_, fun _ => hanswers⟩
  intro hbroken
  rw [hwhole] at hbroken
  cases hbroken

theorem Thread.Serves.echoes
    (hserves : thread.Serves connection) (hecho : thread.service = .echo)
    (hwhole : connection.broken = false) :
    thread.Echoes connection := by
  have hanswers := hserves.answers hwhole
  rw [Thread.Answers, ← hserves.service, hecho] at hanswers
  exact hanswers

theorem Thread.answers_of_echoes
    (hecho : connection.service = .echo)
    (hechoes : thread.Echoes connection) :
    thread.Answers connection := by
  rw [Thread.Answers, hecho]
  exact hechoes

/-- What the peer does before it has finished. -/
theorem Thread.Answers.of_unfinished
    (hanswers : thread.Answers connection)
    (hfinished : connection.finished = false)
    (hservice : after.service = connection.service)
    (htaken : after.taken = connection.taken)
    (hanswer : after.answer = connection.answer) :
    thread.Answers after := by
  unfold Thread.Answers at hanswers ⊢
  rw [hservice]
  cases hecho : connection.service with
  | echo =>
      rw [hecho] at hanswers
      cases hanswers with
      | reading consumed hrunning hreads hlines =>
          rw [← htaken] at hreads
          rw [← hanswer] at hlines
          exact .reading consumed hrunning hreads hlines
      | flushed hdone =>
          rw [hfinished] at hdone
          cases hdone
  | time =>
      rw [hecho] at hanswers
      rw [hanswer]
      exact hanswers

theorem Thread.Serves.peer
    (hserves : thread.Serves connection) {event : PeerEvent}
    (hpeer : connection.peer event = some after) :
    thread.Serves after := by
  cases event with
  | send bytes =>
      simp only [Connection.peer, Option.ite_none_right_eq_some,
        Option.some.injEq] at hpeer
      obtain ⟨⟨hfinished, hbroken, _⟩, rfl⟩ := hpeer
      refine Thread.serves_of_whole hserves.service hserves.fd
        hserves.isOpen hbroken ?_
      exact (hserves.answers hbroken).of_unfinished hfinished rfl rfl rfl
  | finish =>
      simp only [Connection.peer, Option.ite_none_right_eq_some,
        Option.some.injEq] at hpeer
      obtain ⟨hfinished, rfl⟩ := hpeer
      refine ⟨hserves.service, hserves.fd, hserves.isOpen, hserves.broken,
        ?_⟩
      intro hbroken
      exact (hserves.answers hbroken).of_unfinished hfinished rfl rfl rfl
  | reset =>
      simp only [Connection.peer, Option.some.injEq] at hpeer
      subst hpeer
      exact Thread.serves_of_broken hserves.service hserves.fd
        hserves.isOpen rfl hserves.speaks

theorem Thread.Serves.store
    (hserves : thread.Serves connection)
    (hstore : thread.store = some next) :
    next.Serves connection := by
  simp only [Thread.store, Option.ite_none_right_eq_some,
    Option.map_eq_some_iff] at hstore
  obtain ⟨⟨hecho, hbuf⟩, ⟨reader, result⟩, hreader, rfl⟩ := hstore
  refine ⟨hserves.service, hserves.fd, hserves.isOpen, hserves.broken, ?_⟩
  intro hwhole
  have hservice := hserves.service ▸ hecho
  apply Thread.answers_of_echoes hservice
  cases hserves.echoes hecho hwhole with
  | reading consumed hrunning hreads hanswer =>
      obtain ⟨after, hafter, hlines⟩ := hreads.store hreader
      refine .reading after hrunning hafter ?_
      rw [hlines, ← hanswer, hbuf]
      simp
  | flushed _ _ hempty =>
      rw [hempty] at hreader
      cases hreader

theorem Thread.Serves.tick
    (hserves : thread.Serves connection) {ctime : List UInt8}
    (htick : thread.tick ctime = some next) :
    next.Serves connection := by
  simp only [Thread.tick, Option.ite_none_right_eq_some,
    Option.some.injEq] at htick
  obtain ⟨⟨htime, hbuf, _⟩, rfl⟩ := htick
  refine ⟨hserves.service, hserves.fd, hserves.isOpen, hserves.broken, ?_⟩
  intro hwhole
  have hanswers := hserves.answers hwhole
  unfold Thread.Answers at hanswers ⊢
  rw [← hserves.service, htime] at hanswers ⊢
  obtain ⟨ctimes, hanswer⟩ := hanswers
  refine ⟨ctimes ++ [ctime], ?_⟩
  rw [List.map_append, List.flatten_append, ← hanswer, hbuf]
  simp

/-- The end of the stream, with or without an unfinished line. -/
theorem Thread.Serves.readEof
    (hserves : thread.Serves connection) (hwaits : thread.Waits)
    (hrunning : thread.running = true)
    (hend : connection.broken = true ∨
      connection.finished = true ∧ connection.unread = []) :
    (thread.reader.line = [] →
      Thread.Serves { thread with running := false }
        { connection with isOpen := false }) ∧
    (thread.reader.line ≠ [] →
      Thread.Serves { thread with
        reader := ⟨[], thread.reader.rest⟩
        buf := some thread.reader.line } connection) := by
  obtain ⟨hecho, hbuf, hrest⟩ := hwaits
  have hservice := hserves.service ▸ hecho
  -- everything the peer sent was handed out
  have hclosed : connection.broken = false →
      connection.finished = true ∧ connection.unread = [] := by
    intro hwhole
    rcases hend with hbroken | hend
    · rw [hwhole] at hbroken
      cases hbroken
    · exact hend
  have hall : ∀ consumed, connection.unread = [] →
      thread.reader.Reads connection.taken consumed →
      connection.sent = consumed := by
    intro consumed hunread hreads
    rw [Connection.sent, hunread, hreads.taken, hrest, List.append_nil,
      List.append_nil]
  constructor
  · intro hline
    refine ⟨hserves.service, hserves.fd, ?_, hserves.broken, ?_⟩
    · intro hstopped
      cases hstopped
    · intro hwhole
      refine Thread.answers_of_echoes (by exact hservice) ?_
      obtain ⟨hfinished, hunread⟩ := hclosed hwhole
      have hempty := Reader.eq_empty hline hrest
      cases hserves.echoes hecho hwhole with
      | reading consumed _ hreads hanswer =>
          refine .flushed hfinished hunread hempty ?_ fun _ => hbuf
          have hopen : openLine consumed = [] :=
            hreads.line.symm.trans hline
          change connection.answer ++ thread.buf.getD [] =
            echoAll connection.sent
          rw [hall consumed hunread hreads, echoAll, hopen,
            List.append_nil, hanswer]
      | flushed _ _ _ hanswer _ =>
          exact .flushed hfinished hunread hempty hanswer fun _ => hbuf
  · intro hline
    refine ⟨hserves.service, hserves.fd, hserves.isOpen, hserves.broken, ?_⟩
    intro hwhole
    apply Thread.answers_of_echoes hservice
    obtain ⟨hfinished, hunread⟩ := hclosed hwhole
    cases hserves.echoes hecho hwhole with
    | reading consumed _ hreads hanswer =>
        refine .flushed hfinished hunread ?_ ?_ ?_
        · rw [Reader.empty, hrest]
        · rw [hall consumed hunread hreads, echoAll, ← hanswer, hbuf,
            hreads.line]
          simp
        · intro hstopped
          rw [hrunning] at hstopped
          cases hstopped
    | flushed _ _ hempty =>
        rw [hempty] at hline
        exact absurd rfl hline

theorem Thread.Serves.read
    (hserves : thread.Serves connection)
    (hrunning : thread.running = true) {outcome : ReadOutcome}
    (hread : thread.read outcome connection = some (next, after)) :
    next.Serves after := by
  unfold Thread.read at hread
  rw [Option.ite_none_right_eq_some] at hread
  obtain ⟨hwaits, hread⟩ := hread
  cases outcome with
  | chunk n =>
      simp only [Option.ite_none_right_eq_some, Option.some.injEq,
        Prod.mk.injEq] at hread
      obtain ⟨⟨hwhole, hpos, _, hlength⟩, rfl, rfl⟩ := hread
      obtain ⟨hecho, _, hrest⟩ := hwaits
      refine Thread.serves_of_whole hserves.service hserves.fd
        hserves.isOpen hwhole ?_
      apply Thread.answers_of_echoes (hserves.service ▸ hecho)
      cases hserves.echoes hecho hwhole with
      | reading consumed _ hreads hanswer =>
          exact .reading consumed hrunning (hreads.fill hrest _) hanswer
      | flushed _ hunread =>
          rw [hunread, List.length_nil] at hlength
          omega
  | eof =>
      simp only [Option.ite_none_right_eq_some] at hread
      obtain ⟨hend, hread⟩ := hread
      have heof := hserves.readEof hwaits hrunning hend
      split at hread
      next hline =>
        simp only [Option.some.injEq, Prod.mk.injEq] at hread
        obtain ⟨rfl, rfl⟩ := hread
        exact heof.1 hline
      next hline =>
        simp only [Option.some.injEq, Prod.mk.injEq] at hread
        obtain ⟨rfl, rfl⟩ := hread
        exact heof.2 hline

theorem Thread.Serves.write
    (hserves : thread.Serves connection)
    (hrunning : thread.running = true) {outcome : WriteOutcome}
    (hwrite : thread.write outcome connection = some (next, after)) :
    next.Serves after := by
  obtain ⟨bytes, hbuf, hwrite⟩ := Option.bind_eq_some_iff.mp hwrite
  cases outcome with
  | delivered =>
      simp only [Option.ite_none_right_eq_some, Option.some.injEq,
        Prod.mk.injEq] at hwrite
      obtain ⟨hwhole, rfl, rfl⟩ := hwrite
      refine Thread.serves_of_whole hserves.service hserves.fd
        hserves.isOpen hwhole ?_
      have hanswers := hserves.answers hwhole
      unfold Thread.Answers at hanswers ⊢
      cases hservice : connection.service with
      | echo =>
          rw [hservice] at hanswers
          cases hanswers with
          | reading consumed _ hreads hanswer =>
              refine .reading consumed hrunning hreads ?_
              rw [← hanswer, hbuf]
              simp
          | flushed hfinished hunread hempty hanswer _ =>
              refine .flushed hfinished hunread hempty ?_ fun _ => rfl
              change connection.answer ++ bytes ++ [] =
                echoAll connection.sent
              rw [← hanswer, hbuf]
              simp
      | time =>
          rw [hservice] at hanswers
          obtain ⟨ctimes, hanswer⟩ := hanswers
          refine ⟨ctimes, ?_⟩
          rw [← hanswer, hbuf]
          simp
  | failed =>
      simp only [Option.ite_none_right_eq_some] at hwrite
      obtain ⟨hbroken, hwrite⟩ := hwrite
      have hkept := thread.unwritten_service.trans hserves.service
      have hfd := thread.unwritten_fd.trans hserves.fd
      cases hservice : thread.service with
      | echo =>
          simp only [hservice, Option.some.injEq, Prod.mk.injEq] at hwrite
          obtain ⟨rfl, rfl⟩ := hwrite
          exact Thread.serves_of_broken hkept hfd
            (fun _ => hserves.isOpen hrunning) hbroken
            (hserves.broken hbroken)
      | time =>
          simp only [hservice, Option.some.injEq, Prod.mk.injEq] at hwrite
          obtain ⟨rfl, rfl⟩ := hwrite
          refine Thread.serves_of_broken hkept hfd ?_ hbroken
            (hserves.broken hbroken)
          simp only [Thread.unwritten, hservice]
          exact id
  | signal =>
      simp only [Option.ite_none_right_eq_some, Option.some.injEq,
        Prod.mk.injEq] at hwrite
      obtain ⟨hbroken, rfl, rfl⟩ := hwrite
      refine Thread.serves_of_broken hserves.service hserves.fd ?_ hbroken
        (hserves.broken hbroken)
      intro hstopped
      cases hstopped

end Serves

/-! ## A thread for each connection -/

/-- A connection whose thread has not begun. -/
structure Connection.Newborn (connection : Connection) (service : Service)
    (fd : ℤ) : Prop where
  service : connection.service = service
  fd : connection.fd = fd
  isOpen : connection.isOpen = true
  taken : connection.taken = []
  answer : connection.answer = []

/-- Threads and connections have the same numbers, except for the last
connection when its thread has not begun. -/
structure Server.Paired (server : Server) : Prop where
  counts : server.started + server.created.length = server.accepted
  created : server.created.length ≤ 1
  newborn : ∀ service ∈ server.created,
    (server.connections server.started).Newborn service
      (server.connfd service)
  distinct : ∀ c d, c < server.accepted → d < server.accepted →
    (server.connections c).isOpen = true →
    (server.connections d).isOpen = true →
    (server.connections c).fd = (server.connections d).fd → c = d
  served : ∀ t < server.started,
    (server.threads t).Serves (server.connections t)

theorem Connection.Newborn.serves
    {connection : Connection} {service : Service} {fd : ℤ}
    (hnewborn : connection.Newborn service fd) :
    (Thread.begun service fd).Serves connection := by
  refine ⟨hnewborn.service.symm, hnewborn.fd.symm,
    fun _ => hnewborn.isOpen, ?_, ?_⟩
  · intro _
    unfold Connection.Speaks
    rw [hnewborn.answer]
    cases connection.service with
    | echo => exact List.nil_prefix
    | time => exact ⟨[], List.nil_prefix⟩
  · intro _
    unfold Thread.Answers
    cases connection.service with
    | echo =>
        refine .reading [] rfl ?_ ?_
        · rw [hnewborn.taken]
          exact Reader.reads_empty
        · rw [hnewborn.answer]
          rfl
    | time =>
        refine ⟨[], ?_⟩
        rw [hnewborn.answer]
        rfl

theorem Connection.Newborn.peer
    {connection after : Connection} {service : Service} {fd : ℤ}
    (hnewborn : connection.Newborn service fd) {event : PeerEvent}
    (hpeer : connection.peer event = some after) :
    after.Newborn service fd := by
  cases event with
  | send bytes =>
      simp only [Connection.peer, Option.ite_none_right_eq_some,
        Option.some.injEq] at hpeer
      obtain ⟨_, rfl⟩ := hpeer
      exact ⟨hnewborn.service, hnewborn.fd, hnewborn.isOpen,
        hnewborn.taken, hnewborn.answer⟩
  | finish =>
      simp only [Connection.peer, Option.ite_none_right_eq_some,
        Option.some.injEq] at hpeer
      obtain ⟨_, rfl⟩ := hpeer
      exact ⟨hnewborn.service, hnewborn.fd, hnewborn.isOpen,
        hnewborn.taken, hnewborn.answer⟩
  | reset =>
      simp only [Connection.peer, Option.some.injEq] at hpeer
      subst hpeer
      exact ⟨hnewborn.service, hnewborn.fd, hnewborn.isOpen,
        hnewborn.taken, hnewborn.answer⟩

/-- The peer does not touch the descriptor of the server. -/
theorem Connection.peer_descriptor
    {connection after : Connection} {event : PeerEvent}
    (hpeer : connection.peer event = some after) :
    after.fd = connection.fd ∧ after.isOpen = connection.isOpen := by
  cases event with
  | send bytes =>
      simp only [Connection.peer, Option.ite_none_right_eq_some,
        Option.some.injEq] at hpeer
      obtain ⟨_, rfl⟩ := hpeer
      exact ⟨rfl, rfl⟩
  | finish =>
      simp only [Connection.peer, Option.ite_none_right_eq_some,
        Option.some.injEq] at hpeer
      obtain ⟨_, rfl⟩ := hpeer
      exact ⟨rfl, rfl⟩
  | reset =>
      simp only [Connection.peer, Option.some.injEq] at hpeer
      subst hpeer
      exact ⟨rfl, rfl⟩

/-- What the server and the network do to a connection, as its peer sees
it. -/
structure Connection.Goes (connection after : Connection) : Prop where
  service : after.service = connection.service
  fd : after.fd = connection.fd
  sent : after.sent = connection.sent
  finished : after.finished = connection.finished
  broken : after.broken = false → connection.broken = false
  answer : connection.answer <+: after.answer
  isOpen : after.isOpen = true → connection.isOpen = true

theorem Connection.Goes.refl (connection : Connection) :
    connection.Goes connection :=
  ⟨rfl, rfl, rfl, rfl, id, List.prefix_rfl, id⟩

/-- A descriptor is only ever closed. -/
theorem Connection.goes_closed (connection : Connection) :
    connection.Goes { connection with isOpen := false } :=
  ⟨rfl, rfl, rfl, rfl, id, List.prefix_rfl, fun hclosed => by cases hclosed⟩

theorem Thread.read_goes
    {thread next : Thread} {connection after : Connection}
    {outcome : ReadOutcome}
    (hread : thread.read outcome connection = some (next, after)) :
    connection.Goes after := by
  unfold Thread.read at hread
  rw [Option.ite_none_right_eq_some] at hread
  obtain ⟨_, hread⟩ := hread
  cases outcome with
  | chunk n =>
      simp only [Option.ite_none_right_eq_some, Option.some.injEq,
        Prod.mk.injEq] at hread
      obtain ⟨_, _, rfl⟩ := hread
      refine ⟨rfl, rfl, ?_, rfl, id, List.prefix_rfl, id⟩
      simp only [Connection.sent, List.append_assoc,
        List.take_append_drop]
  | eof =>
      simp only [Option.ite_none_right_eq_some] at hread
      obtain ⟨_, hread⟩ := hread
      split at hread
      · simp only [Option.some.injEq, Prod.mk.injEq] at hread
        obtain ⟨_, rfl⟩ := hread
        exact connection.goes_closed
      · simp only [Option.some.injEq, Prod.mk.injEq] at hread
        obtain ⟨_, rfl⟩ := hread
        exact .refl _

theorem Thread.write_goes
    {thread next : Thread} {connection after : Connection}
    {outcome : WriteOutcome}
    (hwrite : thread.write outcome connection = some (next, after)) :
    connection.Goes after := by
  obtain ⟨bytes, _, hwrite⟩ := Option.bind_eq_some_iff.mp hwrite
  cases outcome with
  | delivered =>
      simp only [Option.ite_none_right_eq_some, Option.some.injEq,
        Prod.mk.injEq] at hwrite
      obtain ⟨_, _, rfl⟩ := hwrite
      exact ⟨rfl, rfl, rfl, rfl, id, List.prefix_append _ _, id⟩
  | failed =>
      simp only [Option.ite_none_right_eq_some] at hwrite
      obtain ⟨_, hwrite⟩ := hwrite
      cases hservice : thread.service with
      | echo =>
          simp only [hservice, Option.some.injEq, Prod.mk.injEq] at hwrite
          obtain ⟨_, rfl⟩ := hwrite
          exact .refl _
      | time =>
          simp only [hservice, Option.some.injEq, Prod.mk.injEq] at hwrite
          obtain ⟨_, rfl⟩ := hwrite
          exact connection.goes_closed
  | signal =>
      simp only [Option.ite_none_right_eq_some, Option.some.injEq,
        Prod.mk.injEq] at hwrite
      obtain ⟨_, _, rfl⟩ := hwrite
      exact .refl _

section Paired

variable {server next : Server}

theorem Server.paired_listening : Server.listening.Paired := by
  refine ⟨rfl, Nat.zero_le 1, ?_, ?_, ?_⟩
  · intro service hservice
    cases hservice
  · intro c d hc
    cases hc
  · intro t ht
    cases ht

theorem Server.Paired.started_le (hpaired : server.Paired) :
    server.started ≤ server.accepted := by
  have hcounts := hpaired.counts
  omega

theorem Server.Paired.connectionAt
    (hpaired : server.Paired) {c : ℕ} (hc : c < server.accepted)
    (hopen : (server.connections c).isOpen = true) :
    server.connectionAt (server.connections c).fd = some c := by
  have hsome : (server.connectionAt
      (server.connections c).fd).isSome = true := by
    rw [Server.connectionAt, List.find?_isSome]
    exact ⟨c, List.mem_range.mpr hc, by simp [hopen]⟩
  obtain ⟨d, hd⟩ := Option.isSome_iff_exists.mp hsome
  have hrange := List.mem_range.mp (List.mem_of_find?_eq_some hd)
  have htest := List.find?_some hd
  rw [Bool.and_eq_true, decide_eq_true_eq] at htest
  rw [hd, hpaired.distinct d c hrange hc htest.1 hopen htest.2]

/-- A running thread finds the connection it was created for. -/
theorem Server.Paired.connectionAt_thread
    (hpaired : server.Paired) {t : ℕ} (hruns : server.Runs t) :
    server.connectionAt (server.threads t).fd = some t := by
  have hserves := hpaired.served t hruns.2.1
  rw [hserves.fd]
  exact hpaired.connectionAt
    (hruns.2.1.trans_le hpaired.started_le) (hserves.isOpen hruns.2.2)

theorem Server.Paired.distinct_update
    (hpaired : server.Paired) {t : ℕ} {connection : Connection}
    (hfd : connection.fd = (server.connections t).fd)
    (hopen : connection.isOpen = true →
      (server.connections t).isOpen = true)
    {c d : ℕ} (hc : c < server.accepted) (hd : d < server.accepted)
    (hopenC :
      (Function.update server.connections t connection c).isOpen = true)
    (hopenD :
      (Function.update server.connections t connection d).isOpen = true)
    (hsame : (Function.update server.connections t connection c).fd =
      (Function.update server.connections t connection d).fd) :
    c = d := by
  have hold : ∀ e,
      (Function.update server.connections t connection e).fd =
        (server.connections e).fd ∧
      ((Function.update server.connections t connection e).isOpen = true →
        (server.connections e).isOpen = true) := by
    intro e
    by_cases he : e = t
    · subst he
      rw [Function.update_self]
      exact ⟨hfd, hopen⟩
    · rw [Function.update_of_ne he]
      exact ⟨rfl, id⟩
  have hsameFd : (server.connections c).fd = (server.connections d).fd :=
    (hold c).1.symm.trans (hsame.trans (hold d).1)
  exact hpaired.distinct c d hc hd ((hold c).2 hopenC) ((hold d).2 hopenD)
    hsameFd

theorem Server.Paired.put
    (hpaired : server.Paired) {t : ℕ} (ht : t < server.started)
    {thread : Thread} {connection : Connection}
    (hserves : thread.Serves connection)
    (hfd : connection.fd = (server.connections t).fd)
    (hopen : connection.isOpen = true →
      (server.connections t).isOpen = true) :
    (server.put t t thread connection).Paired := by
  constructor
  case counts => exact hpaired.counts
  case created => exact hpaired.created
  case newborn =>
    intro service hservice
    change (Function.update server.connections t connection
      server.started).Newborn service (server.connfd service)
    rw [Function.update_of_ne (Nat.ne_of_gt ht)]
    exact hpaired.newborn service hservice
  case distinct =>
    intro c d hc hd
    exact hpaired.distinct_update hfd hopen hc hd
  case served =>
    intro u hu
    change (Function.update server.threads t thread u).Serves
      (Function.update server.connections t connection u)
    by_cases hut : u = t
    · subst hut
      rw [Function.update_self, Function.update_self]
      exact hserves
    · rw [Function.update_of_ne hut, Function.update_of_ne hut]
      exact hpaired.served u hu

theorem Server.Paired.accept
    (hpaired : server.Paired) (hprompt : server.created = [])
    (shared : Bool) (service : Service) {fd : ℤ}
    (hfree : server.connectionAt fd = none) :
    (server.accept shared service fd).Paired := by
  have hcounts : server.started = server.accepted := by
    have hcounts := hpaired.counts
    rw [hprompt] at hcounts
    exact hcounts
  have hunused : ∀ c < server.accepted,
      (server.connections c).isOpen = true →
      (server.connections c).fd ≠ fd := by
    intro c hc hopen hsame
    have hnone := List.find?_eq_none.mp hfree c (List.mem_range.mpr hc)
    rw [Bool.and_eq_true, decide_eq_true_eq] at hnone
    exact hnone ⟨hopen, hsame⟩
  have hnew : (server.accept shared service fd).connections
      server.accepted = ⟨service, fd, true, [], [], false, false, []⟩ :=
    Function.update_self ..
  have hsame : ∀ c, c ≠ server.accepted →
      (server.accept shared service fd).connections c =
        server.connections c :=
    fun c hc => Function.update_of_ne hc ..
  have hcreated : (server.accept shared service fd).created =
      [service] := by
    simp only [Server.accept, hprompt, List.nil_append]
  constructor
  case counts =>
    rw [hcreated]
    change server.started + 1 = server.accepted + 1
    rw [hcounts]
  case created =>
    rw [hcreated]
    exact le_rfl
  case newborn =>
    intro other hother
    rw [hcreated, List.mem_singleton] at hother
    subst hother
    have hstarted : (server.accept shared other fd).started =
        server.accepted := hcounts
    rw [hstarted, hnew]
    exact ⟨rfl, by simp [Server.accept], rfl, rfl, rfl⟩
  case distinct =>
    intro c d hc hd hopenC hopenD hsameFd
    have hbound : ∀ e, e < (server.accept shared service fd).accepted →
        e ≠ server.accepted → e < server.accepted := by
      intro e he hne
      have he' : e < server.accepted + 1 := he
      omega
    by_cases hcNew : c = server.accepted
    · by_cases hdNew : d = server.accepted
      · rw [hcNew, hdNew]
      · rw [hsame d hdNew] at hopenD hsameFd
        rw [hcNew, hnew] at hsameFd
        exact absurd hsameFd.symm
          (hunused d (hbound d hd hdNew) hopenD)
    · rw [hsame c hcNew] at hopenC hsameFd
      by_cases hdNew : d = server.accepted
      · rw [hdNew, hnew] at hsameFd
        exact absurd hsameFd (hunused c (hbound c hc hcNew) hopenC)
      · rw [hsame d hdNew] at hopenD hsameFd
        exact hpaired.distinct c d (hbound c hc hcNew) (hbound d hd hdNew)
          hopenC hopenD hsameFd
  case served =>
    intro t ht
    have ht' : t < server.started := ht
    rw [hsame t (by omega)]
    exact hpaired.served t ht

theorem Server.Paired.start
    (hpaired : server.Paired) {k : ℕ} {service : Service}
    (hcreated : server.created[k]? = some service) :
    (server.start k service).Paired := by
  obtain ⟨hk, hget⟩ := List.getElem?_eq_some_iff.mp hcreated
  have hlength := hpaired.created
  have hnewborn := hpaired.newborn service (List.mem_of_getElem? hcreated)
  have hnone : (server.start k service).created = [] := by
    apply List.eq_nil_of_length_eq_zero
    change (server.created.eraseIdx k).length = 0
    rw [List.length_eraseIdx_of_lt hk]
    omega
  constructor
  case counts =>
    rw [hnone]
    have hcounts := hpaired.counts
    change server.started + 1 + 0 = server.accepted
    omega
  case created =>
    rw [hnone]
    exact Nat.zero_le 1
  case newborn =>
    rw [hnone]
    intro other hother
    cases hother
  case distinct => exact hpaired.distinct
  case served =>
    intro t ht
    change (Function.update server.threads server.started
      (.begun service (server.connfd service)) t).Serves
        (server.connections t)
    by_cases hlast : t = server.started
    · subst hlast
      rw [Function.update_self]
      exact hnewborn.serves
    · rw [Function.update_of_ne hlast]
      have ht' : t < server.started + 1 := ht
      exact hpaired.served t (by omega)

theorem Server.Paired.peer
    (hpaired : server.Paired) {c : ℕ} {event : PeerEvent}
    {connection : Connection}
    (hpeer : (server.connections c).peer event = some connection) :
    Server.Paired { server with
      connections := Function.update server.connections c connection } := by
  obtain ⟨hfd, hopen⟩ := Connection.peer_descriptor hpeer
  constructor
  case counts => exact hpaired.counts
  case created => exact hpaired.created
  case newborn =>
    intro service hservice
    have hnewborn := hpaired.newborn service hservice
    change (Function.update server.connections c connection
      server.started).Newborn service (server.connfd service)
    by_cases hlast : server.started = c
    · subst hlast
      rw [Function.update_self]
      exact hnewborn.peer hpeer
    · rw [Function.update_of_ne hlast]
      exact hnewborn
  case distinct =>
    intro d e hd he
    exact hpaired.distinct_update hfd (fun h => hopen ▸ h) hd he
  case served =>
    intro t ht
    change (server.threads t).Serves
      (Function.update server.connections c connection t)
    by_cases htc : t = c
    · subst htc
      rw [Function.update_self]
      exact (hpaired.served t ht).peer hpeer
    · rw [Function.update_of_ne htc]
      exact hpaired.served t ht

/-- A thread which does something alone. -/
theorem Server.Paired.alone
    (hpaired : server.Paired) {t : ℕ} {act : Thread → Option Thread}
    (hact : ∀ thread connection after, Thread.Serves thread connection →
      act thread = some after → after.Serves connection)
    (hstep : server.alone t act = some next) :
    next.Paired := by
  simp only [Server.alone, Option.ite_none_right_eq_some,
    Option.map_eq_some_iff] at hstep
  obtain ⟨⟨_, ht, _⟩, thread, hthread, rfl⟩ := hstep
  have hserves := hact _ _ _ (hpaired.served t ht) hthread
  have hput := hpaired.put ht hserves rfl id
  rw [Server.put, Function.update_eq_self] at hput
  exact hput

/-- A thread which uses its descriptor meets its own connection. -/
theorem Server.Paired.onDescriptor
    (hpaired : server.Paired) {t : ℕ}
    {act : Thread → Connection → Option (Thread × Connection)}
    (hact : ∀ thread connection next after, Thread.Serves thread connection →
      thread.running = true → act thread connection = some (next, after) →
      next.Serves after ∧ connection.Goes after)
    (hstep : server.onDescriptor t act = some next) :
    next.Paired := by
  simp only [Server.onDescriptor, Option.ite_none_right_eq_some] at hstep
  obtain ⟨hruns, hstep⟩ := hstep
  rw [hpaired.connectionAt_thread hruns, Option.bind_some,
    Option.map_eq_some_iff] at hstep
  obtain ⟨⟨thread, connection⟩, hpair, rfl⟩ := hstep
  obtain ⟨_, ht, hrunning⟩ := hruns
  obtain ⟨hserves, hgoes⟩ :=
    hact _ _ _ _ (hpaired.served t ht) hrunning hpair
  exact hpaired.put ht hserves hgoes.fd hgoes.isOpen

theorem Server.Paired.step
    {shared : Bool} (hpaired : server.Paired) {event : ServerEvent}
    (hprompt : server.Prompt event)
    (hstep : server.step shared event = some next) :
    next.Paired := by
  cases event with
  | accept service fd =>
      simp only [Server.step, Option.ite_none_right_eq_some,
        Option.some.injEq] at hstep
      obtain ⟨⟨_, hfree⟩, rfl⟩ := hstep
      exact hpaired.accept hprompt shared service hfree
  | start k =>
      simp only [Server.step, Option.ite_none_right_eq_some,
        Option.map_eq_some_iff] at hstep
      obtain ⟨_, service, hcreated, rfl⟩ := hstep
      exact hpaired.start hcreated
  | peer c event =>
      simp only [Server.step, Option.ite_none_right_eq_some,
        Option.map_eq_some_iff] at hstep
      obtain ⟨_, connection, hpeer, rfl⟩ := hstep
      exact hpaired.peer hpeer
  | store t =>
      exact hpaired.alone (fun _ _ _ hserves => hserves.store) hstep
  | tick t ctime =>
      exact hpaired.alone (fun _ _ _ hserves => hserves.tick) hstep
  | read t outcome =>
      refine hpaired.onDescriptor ?_ hstep
      intro thread connection _ _ hserves hrunning hread
      exact ⟨hserves.read hrunning hread, Thread.read_goes hread⟩
  | write t outcome =>
      refine hpaired.onDescriptor ?_ hstep
      intro thread connection _ _ hserves hrunning hwrite
      exact ⟨hserves.write hrunning hwrite, Thread.write_goes hwrite⟩
  | readError t =>
      simp only [Server.step, Option.ite_none_right_eq_some,
        Option.some.injEq] at hstep
      obtain ⟨_, rfl⟩ := hstep
      exact ⟨hpaired.counts, hpaired.created, hpaired.newborn,
        hpaired.distinct, hpaired.served⟩
  | badWrite t =>
      simp only [Server.step, Option.ite_none_right_eq_some,
        Option.some.injEq] at hstep
      obtain ⟨⟨hruns, _, hclosed⟩, _⟩ := hstep
      rw [hpaired.connectionAt_thread hruns] at hclosed
      cases hclosed

end Paired

/-! ## Whole runs -/

/-- The thread which does something in an event. -/
def ServerEvent.thread? : ServerEvent → Option ℕ
  | .store t | .tick t _ | .read t _ | .write t _ | .readError t
  | .badWrite t => some t
  | .accept _ _ | .start _ | .peer _ _ => none

/-- The thread has nothing to do. -/
def Server.Idle (shared : Bool) (server : Server) (t : ℕ) : Prop :=
  ∀ event : ServerEvent, event.thread? = some t →
    server.step shared event = none

/-- An idle thread has answered everything which was sent. -/
theorem Server.Paired.answer_of_idle
    {shared : Bool} {server : Server} (hpaired : server.Paired) {t : ℕ}
    (hup : server.exited = false) (ht : t < server.started)
    (hecho : (server.connections t).service = .echo)
    (hwhole : (server.connections t).broken = false)
    (hidle : server.Idle shared t) :
    (server.connections t).answer =
      if (server.connections t).finished = true then
        echoAll (server.connections t).sent
      else echoLines (server.connections t).sent := by
  have hserves := hpaired.served t ht
  have hservice := hserves.service.trans hecho
  have hechoes := hserves.echoes hservice hwhole
  cases hrunning : (server.threads t).running with
  | false =>
      cases hechoes with
      | reading _ hruns =>
          rw [hrunning] at hruns
          cases hruns
      | flushed hfinished _ _ hanswer hended =>
          rw [hended hrunning] at hanswer
          rw [if_pos hfinished, ← hanswer]
          simp
  | true =>
      have hruns : server.Runs t := ⟨hup, ht, hrunning⟩
      have hfound := hpaired.connectionAt_thread hruns
      have hbuf : (server.threads t).buf = none := by
        rcases hbuf : (server.threads t).buf with _ | bytes
        · rfl
        · have hnone := hidle (.write t .delivered) rfl
          simp [Server.step, Server.onDescriptor, hruns, hfound,
            Thread.write, hbuf, hwhole] at hnone
      have hrest : (server.threads t).reader.rest = [] := by
        have hnone := hidle (.store t) rfl
        simp only [Server.step, Server.alone, if_pos hruns, Thread.store,
          hservice, hbuf, and_self, if_true, Option.map_eq_none_iff]
          at hnone
        exact Reader.store_eq_none_iff.mp hnone
      have hwaits : (server.threads t).Waits := ⟨hservice, hbuf, hrest⟩
      have hunread : (server.connections t).unread = [] := by
        rcases hunread : (server.connections t).unread with _ | ⟨c, rest⟩
        · rfl
        · have hnone := hidle (.read t (.chunk 1)) rfl
          simp [Server.step, Server.onDescriptor, hruns, hfound,
            Thread.read, hwaits, hwhole, hunread, maxline] at hnone
      have hfinished : (server.connections t).finished = false := by
        cases hfinished : (server.connections t).finished with
        | false => rfl
        | true =>
            have hnone := hidle (.read t .eof) rfl
            by_cases hline : (server.threads t).reader.line = []
            · simp [Server.step, Server.onDescriptor, hruns, hfound,
                Thread.read, hwaits, hunread, hfinished, hline] at hnone
            · simp [Server.step, Server.onDescriptor, hruns, hfound,
                Thread.read, hwaits, hunread, hfinished, hline] at hnone
      cases hechoes with
      | reading consumed _ hreads hanswer =>
          have hsent : (server.connections t).sent = consumed := by
            rw [Connection.sent, hunread, hreads.taken, hrest,
              List.append_nil, List.append_nil]
          rw [hfinished, if_neg (by decide), hsent, ← hanswer, hbuf]
          simp
      | flushed hdone =>
          rw [hfinished] at hdone
          cases hdone

/-- Two clients at the echo port; the second one ends without a newline. -/
def twoClients : List ServerEvent :=
  [.accept .echo 4, .start 0, .peer 0 (.send [104, 105, 10]),
    .accept .echo 5, .start 0, .peer 1 (.send [111]), .read 0 (.chunk 2),
    .peer 1 .finish, .read 1 (.chunk 1), .store 0, .store 1, .store 0,
    .read 0 (.chunk 1), .read 1 .eof, .store 0, .write 1 .delivered,
    .write 0 .delivered, .read 1 .eof]

/-- Two connections are accepted before the threads begin: both threads take
the second one, and nobody answers the first. -/
example :
    ∃ server, Reachable (Server.step false) Unrestricted Server.Initial
        server ∧
      server.created = [] ∧ server.accepted = 2 ∧
      (server.connections 0).fd = 4 ∧
      (server.threads 0).fd = 5 ∧ (server.threads 1).fd = 5 := by
  obtain ⟨server, hreach, htest⟩ :=
    Transition.exists_reachable_of_replay (Server.step false) Unrestricted
      Server.listening_initial
      [.accept .echo 4, .accept .echo 5, .start 0, .start 0]
      (fun state : Server => decide (state.created = []) &&
        decide (state.accepted = 2) &&
        decide ((state.connections 0).fd = 4) &&
        decide ((state.threads 0).fd = 5) &&
        decide ((state.threads 1).fd = 5))
      (by decide +kernel)
  simp only [Bool.and_eq_true, decide_eq_true_eq, and_assoc] at htest
  exact ⟨server, hreach, htest⟩

end NetworkProgramming.Echo
