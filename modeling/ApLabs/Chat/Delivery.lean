import ApLabs.Chat.History

/-!
# What a client receives

A post is addressed to the clients that are registered when the broadcaster takes
it.  A client has received its greeting and the posts addressed to it, in the order
in which they were taken, up to the post that is on its way to it.
-/

namespace ApLabs.Chat

open ApLabs.Foundation.CMemory
open ApLabs.Foundation.SessionLog
open ApLabs.Foundation.Transition
open ApLabs.Foundation.Transition.System

/-- The part of the broadcast in progress that has not reached the client. -/
def Broadcaster.pending (c : Conn) : Broadcaster → List Message
  | .range msg rest => if c ∈ rest then [msg] else []
  | .send msg cli rest => if c = cli ∨ c ∈ rest then [msg] else []
  | .select | .closing _ => []

/-- The message that is being distributed. -/
def Broadcaster.current? : Broadcaster → Option Message
  | .range msg _ | .send msg _ _ => some msg
  | .select | .closing _ => none

/-- What is sent to the client or about to be. -/
def Server.addressed (s : Server) (c : Conn) : List Message :=
  (s.sessions c).received ++ s.broadcaster.pending c

def asMessage (entry : Nat × Post) : Message :=
  .post entry.1 entry.2

/-- What its handler has sent on the client's channel. -/
def Session.opening (session : Session) : List Message :=
  match session.handler with
  | .absent | .start | .greet => []
  | _ => [.greeting session.who]

variable {s : Server}

theorem Broadcaster.pending_eq (c : Conn) (broadcaster : Broadcaster) :
    broadcaster.pending c = [] ∨
      ∃ msg, broadcaster.current? = some msg ∧ broadcaster.pending c = [msg] := by
  cases broadcaster with
  | select | closing cli => exact Or.inl rfl
  | range msg rest =>
      by_cases ahead : c ∈ rest
      · exact Or.inr ⟨msg, rfl, if_pos ahead⟩
      · exact Or.inl (if_neg ahead)
  | send msg cli rest =>
      by_cases ahead : c = cli ∨ c ∈ rest
      · exact Or.inr ⟨msg, rfl, if_pos ahead⟩
      · exact Or.inl (if_neg ahead)

/-! ## Presence and registration -/

/-- The log and the clients map agree on who is present. -/
theorem Scripts.present_iff (scripts : Scripts s) (control : Control s) (c : Conn) :
    Present c s.log ↔ c ∈ s.clients := by
  have handler := (control.session c).handler
  rw [← present_eventsOf Post.origin, (scripts c).events, Session.present_processed]
  cases point : (s.sessions c).handler <;> rw [point] at handler <;> simp_all

/-- The points of a handler before its greeting is sent. -/
def Handler.Silent : Handler → Prop
  | .absent | .start | .greet => True
  | _ => False

/-- A handler that has not sent its greeting has no part in the log. -/
theorem Scripts.heard_of_silent {c : Conn} (scripts : Scripts s)
    (silent : (s.sessions c).handler.Silent) : heard c s.log = [] := by
  apply heard_of_not_joined
  intro joined
  have among : .join c ∈ eventsOf Post.origin c s.log :=
    (mem_eventsOf Post.origin).mpr ⟨joined, rfl⟩
  rw [(scripts c).events, Session.processed] at among
  cases point : (s.sessions c).handler with
  | absent | start | greet =>
      rw [point] at among
      cases among
  | _ =>
      rw [point] at silent
      exact silent.elim

/-! ## Deliveries -/

def Deliveries (s : Server) : Prop :=
  ∀ c, s.addressed c = (s.sessions c).opening ++ (heard c s.log).map asMessage

namespace Deliveries

/-- Before its greeting nothing is received and nothing is on the way. -/
theorem of_silent {c : Conn} (deliveries : Deliveries s) (scripts : Scripts s)
    (silent : (s.sessions c).handler.Silent) :
    (s.sessions c).received = [] ∧ s.broadcaster.pending c = [] := by
  have all := deliveries c
  have unopened : (s.sessions c).opening = [] := by
    unfold Session.opening
    cases point : (s.sessions c).handler with
    | absent | start | greet => rfl
    | _ =>
        rw [point] at silent
        exact silent.elim
  rw [unopened, scripts.heard_of_silent silent] at all
  exact List.append_eq_nil_iff.mp all

/-- A step keeps the deliveries of all sessions whose receipts, opening, pending
message and heard posts it keeps. -/
theorem keep {after : Server} (deliveries : Deliveries s)
    (received : ∀ d, (after.sessions d).received = (s.sessions d).received)
    (opening : ∀ d, (after.sessions d).opening = (s.sessions d).opening)
    (pending : ∀ d, after.broadcaster.pending d = s.broadcaster.pending d)
    (heard : ∀ d, heard d after.log = heard d s.log) : Deliveries after := by
  intro d
  rw [Server.addressed, received, opening, pending, heard]
  exact deliveries d

theorem set {c : Conn} {session : Session} (deliveries : Deliveries s)
    (received : session.received = (s.sessions c).received)
    (opening : session.opening = (s.sessions c).opening) : Deliveries (s.set c session) := by
  apply deliveries.keep
  · exact Server.update_keeps Session.received received
  · exact Server.update_keeps Session.opening opening
  · exact fun d => rfl
  · exact fun d => rfl

/-- The greeting is the first message on a client's channel. -/
theorem greet {c : Conn} (deliveries : Deliveries s) (scripts : Scripts s)
    (greets : (s.sessions c).handler = .greet) : Deliveries (s.next (.greet c)) := by
  intro d
  rcases eq_or_ne d c with rfl | other
  · have silent : (s.sessions d).handler.Silent := greets.symm ▸ trivial
    simp [Server.next, Server.addressed, deliveries.of_silent scripts silent, Session.opening,
      scripts.heard_of_silent silent]
  · simpa [Server.next, Server.addressed, other] using deliveries d

/-- Taking a message addresses it to the registered clients, which are those whose
window the log has open. -/
theorem post {c : Conn} {notice : Notice} (deliveries : Deliveries s) (scripts : Scripts s)
    (control : Control s) (select : s.broadcaster = .select)
    (waits : (s.sessions c).handler.notice? = some notice) :
    Deliveries (s.next (.post c notice)) := by
  intro d
  have before := deliveries d
  rw [Server.addressed, select, Broadcaster.pending, List.append_nil] at before
  have opening : ((s.next (.post c notice)).sessions d).opening = (s.sessions d).opening := by
    apply Server.update_keeps Session.opening
    simp only [Session.opening, Handler.point_of_notice waits]
    cases notice <;> rfl
  have received : ((s.next (.post c notice)).sessions d).received = (s.sessions d).received := by
    apply Server.update_keeps Session.received
    rfl
  have log : (s.next (.post c notice)).log = s.log ++ [.post (s.taken c notice)] := rfl
  have broadcaster : (s.next (.post c notice)).broadcaster.pending d =
      if d ∈ s.clients then [.post s.log.length (s.taken c notice)] else [] := rfl
  rw [Server.addressed, opening, received, log, broadcaster, heard_concat, List.map_append,
    ← List.append_assoc, before]
  congr 1
  by_cases present : Present d s.log
  · have member := (scripts.present_iff control d).mp present
    simp [present, member, Event.content?, asMessage]
  · have missing : d ∉ s.clients := mt (scripts.present_iff control d).mpr present
    simp [present, missing]

/-- The message moves from the broadcaster to the end of what its client received. -/
theorem deliver {msg : Message} {cli : Conn} {rest : Finset Conn} (deliveries : Deliveries s)
    (sending : s.broadcaster = .send msg cli rest) (once : cli ∉ rest) :
    Deliveries (s.next (.deliver msg cli rest)) := by
  intro d
  have before := deliveries d
  rw [Server.addressed, sending, Broadcaster.pending] at before
  rcases eq_or_ne d cli with rfl | other
  · simpa [Server.next, Server.addressed, Broadcaster.pending, Session.opening, once] using before
  · simpa [Server.next, Server.addressed, Broadcaster.pending, other] using before

theorem next {label : Label} (control : Control s) (scripts : Scripts s)
    (deliveries : Deliveries s) (enabled : s.Enabled label) : Deliveries (s.next label) := by
  obtain ⟨running, ready⟩ := enabled
  cases label with
  | accept addr =>
      have silent : (s.sessions s.accepted).handler.Silent := by
        rw [control.fresh]
        trivial
      refine deliveries.set (deliveries.of_silent scripts silent).1.symm ?_
      simp only [Session.opening, control.fresh]
  | acceptError => exact deliveries
  | spawn c =>
      refine deliveries.set rfl ?_
      simp only [Session.opening, show (s.sessions c).handler = .start from ready]
  | greet c => exact deliveries.greet scripts ready.1
  | post c notice => exact deliveries.post scripts control ready.1 ready.2
  | enter c =>
      apply deliveries.keep
      · exact Server.update_keeps Session.received rfl
      · apply Server.update_keeps Session.opening
        simp only [Session.opening, ready.2]
      · exact fun d => rfl
      · intro d
        simp [Server.next, heard_concat, Event.content?]
  | scanLine c text =>
      refine deliveries.set rfl ?_
      simp only [Session.opening, show (s.sessions c).handler = .scan from ready]
  | scanEnd c =>
      refine deliveries.set rfl ?_
      simp only [Session.opening, show (s.sessions c).handler = .scan from ready]
  | leave c =>
      apply deliveries.keep
      · exact Server.update_keeps Session.received rfl
      · apply Server.update_keeps Session.opening
        simp only [Session.opening, ready.2]
      · intro d
        simp [Server.next, ready.1, Broadcaster.pending]
      · intro d
        simp [Server.next, heard_concat, Event.content?]
  | connClose c =>
      refine deliveries.set rfl ?_
      simp only [Session.opening, show (s.sessions c).handler = .close from ready]
  | pick msg cli rest =>
      refine deliveries.keep (fun d => rfl) (fun d => rfl) ?_ (fun d => rfl)
      intro d
      rcases eq_or_ne d cli with same | other
      · simp [Server.next, ready.1, Broadcaster.pending, same, ready.2]
      · simp [Server.next, ready.1, Broadcaster.pending, other]
  | deliver msg cli rest =>
      exact deliveries.deliver ready.1 (control.sending ready.1).2.1
  | rangeDone msg =>
      refine deliveries.keep (fun d => rfl) (fun d => rfl) ?_ (fun d => rfl)
      intro d
      simp [Server.next, show s.broadcaster = .range msg ∅ from ready, Broadcaster.pending]
  | closeChan cli =>
      apply deliveries.keep
      · exact Server.update_keeps Session.received rfl
      · exact Server.update_keeps Session.opening rfl
      · intro d
        simp [Server.next, ready.1, Broadcaster.pending]
      · exact fun d => rfl
  | writerStart c => exact deliveries.set rfl rfl
  | write c msg =>
      obtain ⟨written, dropped, wrote⟩ := (s.sessions c).fprintln_eq msg
      rw [Server.next, wrote]
      exact deliveries.set rfl rfl
  | writerDone c => exact deliveries.set rfl rfl
  | greetPanic c => exact deliveries
  | deliverPanic msg cli rest => exact deliveries
  | closePanic cli => exact deliveries

end Deliveries

theorem deliveries_of_reachable (reachable : server.Reachable s) : Deliveries s :=
  reachable.induct_known
    (fun _ reachable => And.intro (control_of_reachable reachable) (scripts_of_reachable reachable))
    (fun _ => rfl)
    fun _ _ known deliveries enabled => deliveries.next known.1 known.2 enabled

/-! ## Received sequences -/

theorem asMessage_injective : Function.Injective asMessage := by
  rintro ⟨position, post⟩ ⟨position', post'⟩ equal
  cases equal
  rfl

/-- A registered connection's handler has greeted it. -/
theorem Scripts.opening_of_joined {c : Conn} (scripts : Scripts s) (joined : .join c ∈ s.log) :
    (s.sessions c).opening = [.greeting (s.sessions c).who] := by
  have among : .join c ∈ eventsOf Post.origin c s.log :=
    (mem_eventsOf Post.origin).mpr ⟨joined, rfl⟩
  rw [(scripts c).events, Session.processed] at among
  unfold Session.opening
  cases point : (s.sessions c).handler with
  | absent | start | greet =>
      rw [point] at among
      cases among
  | _ => rfl

/-- Whatever a connection has received is its greeting and some of the posts, in
order and none twice. -/
theorem received_sublist (scripts : Scripts s) (deliveries : Deliveries s) {c : Conn}
    (joined : .join c ∈ s.log) :
    (s.sessions c).received.Sublist
      (.greeting (s.sessions c).who :: (posts s.log).map asMessage) := by
  have all := deliveries c
  rw [scripts.opening_of_joined joined] at all
  apply (List.prefix_append _ (s.broadcaster.pending c)).sublist.trans
  rw [← Server.addressed, all]
  exact ((heard_sublist c s.log).map asMessage).cons_cons _

theorem greeting_not_posted (who : Bytes) : .greeting who ∉ (posts s.log).map asMessage := by
  intro among
  obtain ⟨entry, -, equal⟩ := List.mem_map.mp among
  cases equal

theorem messages_nodup (who : Bytes) :
    (.greeting who :: (posts s.log).map asMessage).Nodup :=
  List.nodup_cons.mpr ⟨greeting_not_posted who, (posts_nodup s.log).map asMessage_injective⟩

/-- Two connections receive their common messages in the same order. -/
theorem received_comm (scripts : Scripts s) (deliveries : Deliveries s) {c d : Conn}
    (first : .join c ∈ s.log) (second : .join d ∈ s.log) :
    (s.sessions c).received.filter (· ∈ (s.sessions d).received) =
      (s.sessions d).received.filter (· ∈ (s.sessions c).received) := by
  have left := received_sublist scripts deliveries first
  have right := received_sublist scripts deliveries second
  rcases eq_or_ne (s.sessions c).who (s.sessions d).who with same | other
  · rw [same] at left
    exact List.filter_mem_comm_of_sublist (messages_nodup _) left right
  · have different : Message.greeting (s.sessions c).who ∉
        .greeting (s.sessions d).who :: (posts s.log).map asMessage := by
      rw [List.mem_cons, not_or]
      exact ⟨fun equal => other (Message.greeting.inj equal), greeting_not_posted _⟩
    apply List.filter_mem_comm_of_sublist (List.nodup_cons.mpr ⟨different, messages_nodup _⟩)
    · exact left.trans ((List.sublist_cons_self _ _).cons_cons _)
    · exact right.trans (List.sublist_cons_self _ _)

/-- A registered connection has received its greeting and exactly the posts taken
between its entering and its leaving, once each and in the order in which they were
taken, except that the post being distributed may still be missing; and any two of
them agree on the order of what they have in common. -/
theorem reachable_received_window (reachable : server.Reachable s) {c : Conn}
    (joined : .join c ∈ s.log) :
    (∃ missing, (s.sessions c).received ++ missing =
        .greeting (s.sessions c).who :: (heard c s.log).map asMessage ∧
      (missing = [] ∨ ∃ msg, s.broadcaster.current? = some msg ∧ missing = [msg])) ∧
    (s.sessions c).received.Nodup ∧
    ∀ d, .join d ∈ s.log →
      (s.sessions c).received.filter (· ∈ (s.sessions d).received) =
        (s.sessions d).received.filter (· ∈ (s.sessions c).received) := by
  have scripts := scripts_of_reachable reachable
  have deliveries := deliveries_of_reachable reachable
  refine ⟨⟨s.broadcaster.pending c, ?_, Broadcaster.pending_eq c _⟩, ?_, ?_⟩
  · rw [← Server.addressed, deliveries c, scripts.opening_of_joined joined]
    rfl
  · exact (received_sublist scripts deliveries joined).nodup (messages_nodup _)
  · exact fun d joined' => received_comm scripts deliveries joined joined'

theorem sampleState_received_window :
    (∃ missing, (sampleState.sessions 1).received ++ missing =
        .greeting (sampleState.sessions 1).who :: (heard 1 sampleState.log).map asMessage ∧
      (missing = [] ∨ ∃ msg, sampleState.broadcaster.current? = some msg ∧ missing = [msg])) :=
  (reachable_received_window sampleState_reachable (by decide)).1

end ApLabs.Chat
