import ApLabs.Foundation.CMemory
import ApLabs.Foundation.SessionLog
import ApLabs.Foundation.Transition
import Mathlib.Data.Finset.Basic

/-!
# The chat server

The goroutines `main`, `broadcaster`, `handleConn` and `clientWriter` take
atomic steps over the program points between two channel operations.  All
channels are unbuffered: a send and its receive are one step of both goroutines.
A send on a closed channel and the close of a closed channel are steps that stop
the server.

A client's channel is made by its own handler, so it is named by its connection.
Every choice of the scheduler, of `select`, of the map iteration and of the
network is a label.
-/

namespace ApLabs.Chat

open ApLabs.Foundation.CMemory
open ApLabs.Foundation.SessionLog
open ApLabs.Foundation.Transition

/-- Connections are numbered in the order in which they were accepted. -/
abbrev Conn := Nat

/-! ## Messages -/

inductive Notice where
  | arrived
  | line (text : Bytes)
  | left
  deriving DecidableEq, Repr

/-- What the handler of `origin` sends on `messages`. -/
structure Post where
  origin : Conn
  who : Bytes
  notice : Notice
  deriving DecidableEq, Repr

def Post.text (post : Post) : Bytes :=
  match post.notice with
  | .arrived => post.who ++ bytes " has arrived"
  | .line text => post.who ++ bytes ": " ++ text
  | .left => post.who ++ bytes " has left"

/-- What is sent on a client's channel.  A post keeps the position at which the
broadcaster took it; no step reads that position. -/
inductive Message where
  | greeting (who : Bytes)
  | post (position : Nat) (content : Post)
  deriving DecidableEq, Repr

def Message.text : Message → Bytes
  | .greeting who => bytes "You are " ++ who
  | .post _ content => content.text

/-! ## Program points -/

/-- The point of `handleConn` whose operation comes next. -/
inductive Handler where
  | absent
  | start
  | greet
  | arrive
  | enter
  | scan
  | say (text : Bytes)
  | leave
  | depart
  | close
  | done
  deriving DecidableEq, Repr

/-- The point of `clientWriter` whose operation comes next. -/
inductive Writer where
  | unborn
  | start
  | receive
  | write (msg : Message)
  | done
  deriving DecidableEq, Repr

/-- The point of `broadcaster` whose operation comes next; `rest` holds the clients
that the loop over the map has not reached. -/
inductive Broadcaster where
  | select
  | range (msg : Message) (rest : Finset Conn)
  | send (msg : Message) (cli : Conn) (rest : Finset Conn)
  | closing (cli : Conn)
  deriving DecidableEq

inductive Channel where
  | unmade
  | opened
  | closed
  deriving DecidableEq, Repr

/-! ## States -/

/-- One connection with its two goroutines.  `input` lists the lines that `Scan`
returned, `written` and `dropped` the messages whose `Fprintln` returned before and
after `conn.Close()`; the source ignores network errors, and so do these lists. -/
structure Session where
  who : Bytes
  handler : Handler
  ch : Channel
  writer : Writer
  closed : Bool
  input : List Bytes
  received : List Message
  written : List Message
  dropped : List Message

/-- `log` records what the broadcaster has received from its three channels. -/
structure Server where
  accepted : Nat
  sessions : Conn → Session
  clients : Finset Conn
  broadcaster : Broadcaster
  log : List (Event Conn Post)
  panicked : Bool

def Session.unused : Session :=
  ⟨[], .absent, .unmade, .unborn, false, [], [], [], []⟩

namespace Server

def initial : Server := ⟨0, fun _ => .unused, ∅, .select, [], false⟩

def set (s : Server) (c : Conn) (session : Session) : Server :=
  { s with sessions := Function.update s.sessions c session }

@[simp] theorem set_accepted (s : Server) (c : Conn) (session : Session) :
    (s.set c session).accepted = s.accepted := rfl

@[simp] theorem set_sessions (s : Server) (c : Conn) (session : Session) :
    (s.set c session).sessions = Function.update s.sessions c session := rfl

@[simp] theorem set_clients (s : Server) (c : Conn) (session : Session) :
    (s.set c session).clients = s.clients := rfl

@[simp] theorem set_broadcaster (s : Server) (c : Conn) (session : Session) :
    (s.set c session).broadcaster = s.broadcaster := rfl

@[simp] theorem set_log (s : Server) (c : Conn) (session : Session) :
    (s.set c session).log = s.log := rfl

@[simp] theorem set_panicked (s : Server) (c : Conn) (session : Session) :
    (s.set c session).panicked = s.panicked := rfl

/-- What a step keeps of the session that it updates, it keeps of all. -/
theorem update_keeps {α : Type} (field : Session → α) {sessions : Conn → Session} {c : Conn}
    {session : Session} (same : field session = field (sessions c)) (d : Conn) :
    field (Function.update sessions c session d) = field (sessions d) := by
  rcases eq_or_ne d c with rfl | other
  · rw [Function.update_self, same]
  · rw [Function.update_of_ne other]

end Server

/-! ## Steps -/

inductive Label where
  | accept (addr : Bytes)
  | acceptError
  | spawn (c : Conn)
  | greet (c : Conn)
  | post (c : Conn) (notice : Notice)
  | enter (c : Conn)
  | scanLine (c : Conn) (text : Bytes)
  | scanEnd (c : Conn)
  | leave (c : Conn)
  | connClose (c : Conn)
  | pick (msg : Message) (cli : Conn) (rest : Finset Conn)
  | deliver (msg : Message) (cli : Conn) (rest : Finset Conn)
  | rangeDone (msg : Message)
  | closeChan (cli : Conn)
  | writerStart (c : Conn)
  | write (c : Conn) (msg : Message)
  | writerDone (c : Conn)
  | greetPanic (c : Conn)
  | deliverPanic (msg : Message) (cli : Conn) (rest : Finset Conn)
  | closePanic (cli : Conn)
  deriving DecidableEq

/-- The notice that a handler waits to send on `messages`. -/
def Handler.notice? : Handler → Option Notice
  | .arrive => some .arrived
  | .say text => some (.line text)
  | .depart => some .left
  | _ => none

/-- Where a handler goes on once its notice is taken. -/
def Notice.resume : Notice → Handler
  | .arrived => .enter
  | .line _ => .scan
  | .left => .close

/-- Where a handler waits with its notice. -/
def Notice.point : Notice → Handler
  | .arrived => .arrive
  | .line text => .say text
  | .left => .depart

theorem Handler.point_of_notice {handler : Handler} {notice : Notice}
    (waits : handler.notice? = some notice) : handler = notice.point := by
  cases handler with
  | arrive | say text | depart =>
      cases waits
      rfl
  | absent | start | greet | enter | scan | leave | close | done => cases waits

theorem Handler.busy_of_notice {handler : Handler} {notice : Notice}
    (waits : handler.notice? = some notice) : handler ≠ .done := by
  rintro rfl
  cases waits

/-- A write after `conn.Close()` fails, and its error is ignored. -/
def Session.fprintln (session : Session) (msg : Message) : Session :=
  if session.closed then
    { session with writer := .receive, dropped := session.dropped ++ [msg] }
  else
    { session with writer := .receive, written := session.written ++ [msg] }

theorem Session.fprintln_eq (session : Session) (msg : Message) :
    ∃ written dropped, session.fprintln msg =
      { session with writer := .receive, written := written, dropped := dropped } := by
  by_cases closed : session.closed = true
  · exact ⟨_, _, if_pos closed⟩
  · exact ⟨_, _, if_neg closed⟩

namespace Server

/-- The goroutines of a label are at the operations it names. -/
@[reducible] def Ready (s : Server) : Label → Prop
  | .accept _ => True
  | .acceptError => True
  | .spawn c => (s.sessions c).handler = .start
  | .greet c => (s.sessions c).handler = .greet ∧ (s.sessions c).ch = .opened ∧
      (s.sessions c).writer = .receive
  | .post c notice => s.broadcaster = .select ∧ (s.sessions c).handler.notice? = some notice
  | .enter c => s.broadcaster = .select ∧ (s.sessions c).handler = .enter
  | .scanLine c _ => (s.sessions c).handler = .scan
  | .scanEnd c => (s.sessions c).handler = .scan
  | .leave c => s.broadcaster = .select ∧ (s.sessions c).handler = .leave
  | .connClose c => (s.sessions c).handler = .close
  | .pick msg cli rest => s.broadcaster = .range msg rest ∧ cli ∈ rest
  | .deliver msg cli rest => s.broadcaster = .send msg cli rest ∧
      (s.sessions cli).ch = .opened ∧ (s.sessions cli).writer = .receive
  | .rangeDone msg => s.broadcaster = .range msg ∅
  | .closeChan cli => s.broadcaster = .closing cli ∧ (s.sessions cli).ch = .opened
  | .writerStart c => (s.sessions c).writer = .start
  | .write c msg => (s.sessions c).writer = .write msg
  | .writerDone c => (s.sessions c).writer = .receive ∧ (s.sessions c).ch = .closed
  | .greetPanic c => (s.sessions c).handler = .greet ∧ (s.sessions c).ch = .closed
  | .deliverPanic msg cli rest => s.broadcaster = .send msg cli rest ∧
      (s.sessions cli).ch = .closed
  | .closePanic cli => s.broadcaster = .closing cli ∧ (s.sessions cli).ch = .closed

def Enabled (s : Server) (label : Label) : Prop :=
  s.panicked = false ∧ s.Ready label

instance (s : Server) (label : Label) : Decidable (s.Enabled label) :=
  have : Decidable (s.Ready label) := by cases label <;> infer_instance
  inferInstanceAs (Decidable (_ ∧ _))

/-- The message that the broadcaster makes of a notice. -/
def taken (s : Server) (c : Conn) (notice : Notice) : Post :=
  ⟨c, (s.sessions c).who, notice⟩

def next (s : Server) : Label → Server
  | .accept addr =>
      { s.set s.accepted { Session.unused with who := addr, handler := .start } with
        accepted := s.accepted + 1 }
  | .acceptError => s
  | .spawn c =>
      s.set c { s.sessions c with handler := .greet, ch := .opened, writer := .start }
  | .greet c =>
      s.set c { s.sessions c with
        handler := .arrive
        writer := .write (.greeting (s.sessions c).who)
        received := (s.sessions c).received ++ [.greeting (s.sessions c).who] }
  | .post c notice =>
      { s.set c { s.sessions c with handler := notice.resume } with
        broadcaster := .range (.post s.log.length (s.taken c notice)) s.clients
        log := s.log ++ [.post (s.taken c notice)] }
  | .enter c =>
      { s.set c { s.sessions c with handler := .scan } with
        clients := insert c s.clients
        log := s.log ++ [.join c] }
  | .scanLine c text =>
      s.set c { s.sessions c with
        handler := .say text
        input := (s.sessions c).input ++ [text] }
  | .scanEnd c => s.set c { s.sessions c with handler := .leave }
  | .leave c =>
      { s.set c { s.sessions c with handler := .depart } with
        clients := s.clients.erase c
        broadcaster := .closing c
        log := s.log ++ [.leave c] }
  | .connClose c => s.set c { s.sessions c with handler := .done, closed := true }
  | .pick msg cli rest => { s with broadcaster := .send msg cli (rest.erase cli) }
  | .deliver msg cli rest =>
      { s.set cli { s.sessions cli with
          writer := .write msg
          received := (s.sessions cli).received ++ [msg] } with
        broadcaster := .range msg rest }
  | .rangeDone _ => { s with broadcaster := .select }
  | .closeChan cli =>
      { s.set cli { s.sessions cli with ch := .closed } with broadcaster := .select }
  | .writerStart c => s.set c { s.sessions c with writer := .receive }
  | .write c msg => s.set c ((s.sessions c).fprintln msg)
  | .writerDone c => s.set c { s.sessions c with writer := .done }
  | .greetPanic _ => { s with panicked := true }
  | .deliverPanic _ _ _ => { s with panicked := true }
  | .closePanic _ => { s with panicked := true }

end Server

def server : System Server Label := ⟨.initial, Server.Enabled, Server.next⟩

instance (s : Server) (label : Label) : Decidable (server.Enabled s label) :=
  inferInstanceAs (Decidable (s.Enabled label))

end ApLabs.Chat
