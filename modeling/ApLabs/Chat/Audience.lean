import ApLabs.Chat.Delivery

/-!
# Who hears a connection

A connection is registered when its lines are taken and unregistered when its
arrival and its departure are.  So it hears its own lines only, and whoever is
registered throughout its stay hears all of it.
-/

namespace ApLabs.Chat

open ApLabs.Foundation.CMemory
open ApLabs.Foundation.SessionLog
open ApLabs.Foundation.Transition
open ApLabs.Foundation.Transition.System

variable {s : Server}

/-! ## Own posts -/

/-- Exactly the lines find their own sender registered. -/
def Posted (s : Server) : Prop :=
  ∀ entry ∈ posts s.log,
    Present entry.2.origin (s.log.take entry.1) ↔ ∃ text, entry.2.notice = .line text

theorem Posted.record {after : Server} {event : Event Conn Post} (posted : Posted s)
    (log : after.log = s.log ++ [event])
    (last : ∀ content, event = .post content →
      (Present content.origin s.log ↔ ∃ text, content.notice = .line text)) : Posted after := by
  intro entry among
  rw [log, posts_concat] at among
  rw [log]
  rcases List.mem_append.mp among with earlier | new
  · rw [List.take_append_of_le_length (position_lt earlier).le]
    exact posted entry earlier
  · cases event with
    | post content =>
        obtain rfl := List.mem_singleton.mp new
        simpa using last content rfl
    | join member | leave member => cases new

/-- A handler that waits with a notice is registered exactly when it is a line. -/
theorem Scripts.present_notice {c : Conn} {notice : Notice} (scripts : Scripts s)
    (waits : (s.sessions c).handler.notice? = some notice) :
    Present c s.log ↔ ∃ text, notice = .line text := by
  rw [← present_eventsOf Post.origin, (scripts c).events, Session.present_processed,
    Handler.point_of_notice waits]
  cases notice with
  | arrived | line text | left => simp [Notice.point]

theorem Posted.next {label : Label} (scripts : Scripts s) (posted : Posted s)
    (enabled : s.Enabled label) : Posted (s.next label) := by
  cases label with
  | post c notice =>
      apply posted.record rfl
      rintro content ⟨⟩
      exact scripts.present_notice enabled.2.2
  | enter c => exact posted.record rfl nofun
  | leave c => exact posted.record rfl nofun
  | _ => exact posted

theorem posted_of_reachable (reachable : server.Reachable s) : Posted s :=
  reachable.induct_known (fun _ => scripts_of_reachable) (fun _ among => nomatch among)
    fun _ _ scripts posted enabled => posted.next scripts enabled

/-! ## Addressed posts -/

/-- The post of a message, if the connection has sent it. -/
def Message.from? (c : Conn) : Message → Option Post
  | .greeting _ => none
  | .post _ content => if content.origin = c then some content else none

/-- The posts addressed to a connection are those it hears. -/
theorem Deliveries.mem_addressed {c : Conn} {position : Nat} {content : Post}
    (deliveries : Deliveries s) :
    .post position content ∈ s.addressed c ↔ (position, content) ∈ heard c s.log := by
  rw [deliveries c, List.mem_append]
  constructor
  · rintro (opening | among)
    · unfold Session.opening at opening
      split at opening <;> simp at opening
    · obtain ⟨entry, member, equal⟩ := List.mem_map.mp among
      cases equal
      exact member
  · intro member
    exact Or.inr (List.mem_map_of_mem (f := asMessage) member)

/-- What is addressed to a connection from another one is what it hears from it. -/
theorem Deliveries.addressed_from (deliveries : Deliveries s) (c d : Conn) :
    (s.addressed d).filterMap (Message.from? c) =
      ((heard d s.log).filter fun entry => entry.2.origin = c).map Prod.snd := by
  have opening : (s.sessions d).opening.filterMap (Message.from? c) = [] := by
    unfold Session.opening
    split <;> rfl
  rw [deliveries d, List.filterMap_append, opening, List.nil_append, List.filterMap_map,
    ← List.filterMap_eq_map, List.filterMap_filter]
  congr 1
  funext entry
  by_cases spoken : entry.2.origin = c <;> simp [asMessage, Message.from?, spoken]

/-! ## Whole stays -/

theorem Session.arrived_once (c : Conn) (session : Session) :
    session.post c .arrived ∉
      .join c :: (session.input.map fun text => session.post c (.line text)) ++
        [.leave c, session.post c .left] := by
  simp [Session.post]

theorem Session.script_concat (c : Conn) (session : Session) :
    session.script c =
      session.entered c session.input ++ [.leave c] ++ [session.post c .left] := by
  rw [Session.script, List.append_assoc]
  rfl

theorem Session.left_once (c : Conn) (session : Session) :
    session.post c .left ∉ session.entered c session.input ++ [.leave c] := by
  simp [Session.entered, Session.post]

/-- The handler of a departed connection has sent its whole script. -/
theorem Scripts.departed {c : Conn} (scripts : Scripts s)
    (left : (s.sessions c).post c .left ∈ s.log) :
    eventsOf Post.origin c s.log = (s.sessions c).script c := by
  have among : (s.sessions c).post c .left ∈ eventsOf Post.origin c s.log :=
    (mem_eventsOf Post.origin).mpr ⟨left, rfl⟩
  rw [(scripts c).events] at among ⊢
  obtain ⟨rest, whole⟩ := (s.sessions c).script_extends c
  obtain ⟨before, after, split⟩ := List.append_of_mem among
  rw [Session.script_concat, split, List.append_assoc, List.cons_append] at whole
  have nothing := List.eq_nil_of_last whole.symm ((s.sessions c).left_once c)
  rw [Session.script_concat, ← whole, nothing, split, (List.append_eq_nil_iff.mp nothing).1]

/-- Between a connection's arrival and its departure lie all its events. -/
theorem Scripts.stay {c : Conn} {before middle last : List (Event Conn Post)}
    (scripts : Scripts s)
    (log : s.log = before ++ (s.sessions c).post c .arrived :: middle ++
      (s.sessions c).post c .left :: last) :
    eventsOf Post.origin c before = [] ∧ eventsOf Post.origin c last = [] := by
  have left : (s.sessions c).post c .left ∈ s.log := by simp [log]
  have own : ∀ notice, ((s.sessions c).post c notice).by Post.origin = c := fun _ => rfl
  have events := scripts.departed left
  rw [log, eventsOf_append, eventsOf_append, eventsOf_cons_own Post.origin (own .arrived),
    eventsOf_cons_own Post.origin (own .left)] at events
  constructor
  · apply List.eq_nil_of_first _ ((s.sessions c).arrived_once c)
    · exact eventsOf Post.origin c middle ++
        (s.sessions c).post c .left :: eventsOf Post.origin c last
    · rw [List.append_assoc, List.cons_append] at events
      exact events.symm
  · rw [Session.script_concat] at events
    exact List.eq_nil_of_last events.symm ((s.sessions c).left_once c)

theorem Session.script_posts (c : Conn) (session : Session) :
    (session.script c).filterMap Event.content? =
      ⟨c, session.who, .arrived⟩ ::
        session.input.map (fun text => ⟨c, session.who, .line text⟩) ++
          [⟨c, session.who, .left⟩] := by
  have lines : (session.input.map fun text => session.post c (.line text)).filterMap
      Event.content? = session.input.map fun text => ⟨c, session.who, .line text⟩ := by
    rw [List.filterMap_map, ← List.filterMap_eq_map]
    rfl
  simp only [Session.script, Session.entered, List.cons_append, List.filterMap_cons,
    List.filterMap_append, lines]
  rfl

/-- The broadcaster processes a prefix of each connection's script; no arrival or
departure is addressed to its own connection, every line is, and whoever is
registered from before an arrival until after the departure is addressed the whole
stay, in order and once. -/
theorem reachable_audience (reachable : server.Reachable s) :
    (∀ c, eventsOf Post.origin c s.log <+: (s.sessions c).script c) ∧
    (∀ c position content, .post position content ∈ s.addressed c → content.origin = c →
      ∃ text, content.notice = .line text) ∧
    (∀ c position who text, s.log[position]? = some (.post ⟨c, who, .line text⟩) →
      .post position ⟨c, who, .line text⟩ ∈ s.addressed c) ∧
    ∀ c d before middle last,
      s.log = before ++ (s.sessions c).post c .arrived :: middle ++
        (s.sessions c).post c .left :: last →
      .join d ∈ before → .leave d ∉ before ++ (s.sessions c).post c .arrived :: middle →
      (s.addressed d).filterMap (Message.from? c) =
        ⟨c, (s.sessions c).who, .arrived⟩ ::
          (s.sessions c).input.map (fun text => ⟨c, (s.sessions c).who, .line text⟩) ++
            [⟨c, (s.sessions c).who, .left⟩] := by
  have scripts := scripts_of_reachable reachable
  have deliveries := deliveries_of_reachable reachable
  have posted := posted_of_reachable reachable
  refine ⟨?_, ?_, ?_, ?_⟩
  · intro c
    rw [(scripts c).events]
    exact (s.sessions c).script_extends c
  · rintro c position content addressed rfl
    have heard := mem_heard.mp (deliveries.mem_addressed.mp addressed)
    exact (posted (position, content) (mem_posts.mpr heard.1)).mp heard.2
  · intro c position who text found
    have present := (posted (position, _) (mem_posts.mpr found)).mpr ⟨text, rfl⟩
    exact deliveries.mem_addressed.mpr (mem_heard.mpr ⟨found, present⟩)
  · intro c d before middle last log joined stays
    obtain ⟨silent, ended⟩ := scripts.stay log
    have left : (s.sessions c).post c .left ∈ s.log := by simp [log]
    rw [deliveries.addressed_from, heard_from, scripts.departed left, Session.script_posts]
    intro entry among spoken
    have window : s.log = before ++
        ((s.sessions c).post c .arrived :: middle ++ [(s.sessions c).post c .left]) ++ last := by
      rw [log]
      simp
    rw [window] at among
    obtain ⟨lower, upper⟩ := position_between silent ended among spoken
    rw [List.length_append] at upper
    rw [log]
    exact present_of_between joined stays lower (Nat.le_of_lt_succ upper)

/-- Bob's whole stay, his departure on its way to Alice. -/
def stayRun : List Label :=
  let hi := Message.post 4 ⟨1, bytes "bob", .line (bytes "hi")⟩
  sampleRun ++
    [.deliver hi 1 ∅, .rangeDone hi, .write 0 hi, .scanEnd 1, .leave 1, .closeChan 1,
      .post 1 .left, .pick (.post 6 ⟨1, bytes "bob", .left⟩) 0 {0}]

theorem stayRun_audience :
    ((server.after .initial stayRun).addressed 0).filterMap (Message.from? 1) =
      [⟨1, bytes "bob", .arrived⟩, ⟨1, bytes "bob", .line (bytes "hi")⟩,
        ⟨1, bytes "bob", .left⟩] :=
  (reachable_audience (s := server.after .initial stayRun) (Runs.leads (by decide))).2.2.2 1 0
    [.post ⟨0, bytes "alice", .arrived⟩, .join 0]
    [.join 1, .post ⟨1, bytes "bob", .line (bytes "hi")⟩, .leave 1] []
    (by decide) (by decide) (by decide)

end ApLabs.Chat
