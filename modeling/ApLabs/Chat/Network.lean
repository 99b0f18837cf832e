import ApLabs.Chat.Client
import ApLabs.Chat.Wire

/-!
# The server and its clients

The client of a connection and the handler of that connection share two byte streams.  The
network delivers what one side has written to the other in order, in chunks and with any
delay, and may lose what is still on its way when a connection ends.  What a client shows
is then made of whole messages of its connection, and every line that a message quotes was
typed at the keyboard of the client that it names.
-/

namespace ApLabs.Chat

open ApLabs.Foundation.CMemory
open ApLabs.Foundation.Copying
open ApLabs.Foundation.Framing
open ApLabs.Foundation.SessionLog
open ApLabs.Foundation.Transition
open ApLabs.Foundation.Transition.System

/-! ## Lines -/

/-- A carriage return at the end of a line is not part of it. -/
def dropCR (line : Bytes) : Bytes :=
  if line.getLast? = some (byte '\r') then line.dropLast else line

/-- The tokens that `ScanLines` makes of the bytes that have arrived; a last line without
a line feed counts at the end of the stream. -/
def scanLines (arrived : Bytes) (eof : Bool) : List Bytes :=
  (lines (byte '\n') arrived).map dropCR ++
    if eof ∧ unfinished (byte '\n') arrived ≠ [] then [dropCR (unfinished (byte '\n') arrived)]
    else []

def MaxScanTokenSize : Nat := 65536

/-- What `Scan` does with the bytes that have arrived. -/
inductive Scanned where
  | waits
  | token (text : Bytes)
  | stops
  deriving DecidableEq, Repr

/-- `Scan` after `count` tokens; a line that does not fit into the buffer is an error. -/
def scan (arrived : Bytes) (eof : Bool) (count : Nat) : Scanned :=
  match (lines (byte '\n') arrived)[count]? with
  | some line => if line.length < MaxScanTokenSize then .token (dropCR line) else .stops
  | none =>
      if (lines (byte '\n') arrived).length < count then .stops
      else if MaxScanTokenSize ≤ (unfinished (byte '\n') arrived).length then .stops
      else if eof = false then .waits
      else if unfinished (byte '\n') arrived = [] then .stops
      else .token (dropCR (unfinished (byte '\n') arrived))

theorem scan_token {arrived text : Bytes} {eof : Bool} {count : Nat}
    (token : scan arrived eof count = .token text) :
    (scanLines arrived eof)[count]? = some text := by
  unfold scan at token
  unfold scanLines
  split at token
  next line found =>
    split at token
    · cases token
      have inside := (List.getElem?_eq_some_iff.mp found).1
      rw [List.getElem?_append_left (by rwa [List.length_map]), List.getElem?_map, found]
      rfl
    · cases token
  next missing =>
    have past := List.getElem?_eq_none_iff.mp missing
    split at token
    · cases token
    next whole =>
      split at token
      · cases token
      · split at token
        · cases token
        · split at token
          · cases token
          next more some_ rest =>
            cases token
            have here : count = (lines (byte '\n') arrived).length := by omega
            have ended : eof = true := by simpa using some_
            rw [List.getElem?_append_right (by rw [List.length_map]; omega), List.length_map,
              here, Nat.sub_self, if_pos ⟨ended, rest⟩]
            rfl

theorem dropCR_begins (line : Bytes) : dropCR line <+: line := by
  unfold dropCR
  split
  · exact List.dropLast_prefix line
  · exact List.prefix_rfl

/-- More bytes do not change a token, and the end of the stream adds one at most. -/
theorem scanLines_mono {arrived more : Bytes} (earlier : arrived <+: more) (eof : Bool) :
    scanLines arrived false <+: scanLines more eof := by
  rw [scanLines]
  simp only [Bool.false_eq_true, false_and, if_false, List.append_nil]
  obtain ⟨rest, later⟩ := lines_mono (byte '\n') earlier
  rw [scanLines, ← later, List.map_append, List.append_assoc]
  exact List.prefix_append _ _

/-- A token is the beginning of a line, or of what will be one. -/
theorem scanLines_begins {arrived typed text : Bytes} {eof : Bool} (part : arrived <+: typed)
    (among : text ∈ scanLines arrived eof) :
    byte '\n' ∉ text ∧ ∃ line ∈ typed.splitOn (byte '\n'), text <+: line := by
  rw [scanLines, List.mem_append] at among
  rcases among with complete | last
  · obtain ⟨line, member, rfl⟩ := List.mem_map.mp complete
    constructor
    · exact fun inside =>
        lines_clean _ _ line member ((dropCR_begins line).subset inside)
    · refine ⟨line, ?_, dropCR_begins line⟩
      exact mem_splitOn_of_lines ((lines_mono _ part).subset member)
  · split at last
    · obtain rfl := List.mem_singleton.mp last
      constructor
      · exact fun inside =>
          unfinished_clean _ arrived ((dropCR_begins _).subset inside)
      · obtain ⟨line, member, begins⟩ := unfinished_begins (byte '\n') part
        exact ⟨line, member, (dropCR_begins _).trans begins⟩
    · cases last

/-! ## States and steps -/

/-- `arrived` lists what the server has read from each connection, and `eof` tells that the
last read found its end or an error. -/
structure Net where
  server : Server
  clients : Conn → Client
  arrived : Conn → Bytes
  eof : Conn → Bool

namespace Net

inductive Label where
  | server (label : Chat.Label)
  | client (c : Conn) (label : Client.Label)
  | arrive (c : Conn) (chunk : Bytes)
  | eof (c : Conn)
  deriving DecidableEq

def initial : Net := ⟨.initial, fun _ => .initial, fun _ => [], fun _ => false⟩

/-- A connection is accepted once its client has dialled, and `Scan` works on what has
arrived. -/
@[reducible] def Serves (s : Net) : Chat.Label → Prop
  | .accept _ => (s.clients s.server.accepted).main ≠ .dial
  | .scanLine c text =>
      scan (s.arrived c) (s.eof c) (s.server.sessions c).input.length = .token text
  | .scanEnd c => scan (s.arrived c) (s.eof c) (s.server.sessions c).input.length = .stops
  | _ => True

/-- A client reads what the server has written on its connection. -/
@[reducible] def Reads (s : Net) (c : Conn) : Client.Label → Prop
  | .incoming (.read chunk _) =>
      (s.clients c).incoming.source ++ chunk <+: (s.server.sessions c).output
  | _ => True

@[reducible] def Enabled (s : Net) : Label → Prop
  | .server label => s.server.Enabled label ∧ s.Serves label
  | .client c label => (s.clients c).Enabled label ∧ s.Reads c label
  | .arrive c chunk => chunk ≠ [] ∧ s.eof c = false ∧
      s.arrived c ++ chunk <+: (s.clients c).outgoing.sink
  | .eof c => s.eof c = false

def next (s : Net) : Label → Net
  | .server label => { s with server := s.server.next label }
  | .client c label =>
      { s with clients := Function.update s.clients c ((s.clients c).next label) }
  | .arrive c chunk =>
      { s with arrived := Function.update s.arrived c (s.arrived c ++ chunk) }
  | .eof c => { s with eof := Function.update s.eof c true }

end Net

def net : System Net Net.Label := ⟨.initial, Net.Enabled, Net.next⟩

instance (s : Net) : (label : Chat.Label) → Decidable (s.Serves label)
  | .accept _ => inferInstanceAs (Decidable (_ ≠ _))
  | .scanLine _ _ | .scanEnd _ => inferInstanceAs (Decidable (_ = _))
  | .acceptError | .spawn _ | .greet _ | .post _ _ | .enter _ | .leave _ | .connClose _
  | .pick _ _ _ | .deliver _ _ _ | .rangeDone _ | .closeChan _ | .writerStart _ | .write _ _
  | .writerDone _ | .greetPanic _ | .deliverPanic _ _ _ | .closePanic _ => instDecidableTrue

instance (s : Net) (c : Conn) : (label : Client.Label) → Decidable (s.Reads c label)
  | .incoming (.read _ _) => inferInstanceAs (Decidable (_ <+: _))
  | .incoming (.write _ _) | .incoming (.writeError _ _ _) => instDecidableTrue
  | .dial _ | .outgoing _ | .copied _ | .close | .ended _ | .println | .receive =>
      instDecidableTrue

instance (s : Net) : (label : Net.Label) → Decidable (net.Enabled s label)
  | .server _ | .client _ _ | .arrive _ _ => inferInstanceAs (Decidable (_ ∧ _))
  | .eof _ => inferInstanceAs (Decidable (_ = false))

/-! ## The server's side -/

section Server

variable {s : Server}

theorem written_fresh (reachable : server.Reachable s) :
    (s.sessions s.accepted).written = [] := by
  have control := control_of_reachable reachable
  have silent : (s.sessions s.accepted).handler.Silent := by
    rw [control.fresh]
    trivial
  have received := (accounted_of_reachable reachable s.accepted).received
  rw [((deliveries_of_reachable reachable).of_silent (scripts_of_reachable reachable) silent).1]
    at received
  exact (List.append_eq_nil_iff.mp (List.append_eq_nil_iff.mp received.symm).1).1

/-- A step changes one session at most, and what it keeps growing there grows. -/
theorem update_grows {α : Type} {field : Session → List α} {c d : Conn} {session : Session}
    (grows : field (s.sessions d) <+: field session) :
    field (s.sessions c) <+: field (Function.update s.sessions d session c) := by
  rcases eq_or_ne c d with rfl | other
  · rwa [Function.update_self]
  · rw [Function.update_of_ne other]

theorem fprintln_written (session : Session) (msg : Message) :
    session.written <+: (session.fprintln msg).written := by
  unfold Session.fprintln
  split
  · exact List.prefix_rfl
  · exact List.prefix_append _ _

/-- What is written stays written. -/
theorem written_next (reachable : server.Reachable s) (label : Label) (c : Conn) :
    (s.sessions c).written <+: ((s.next label).sessions c).written := by
  cases label with
  | accept addr =>
      apply update_grows
      rw [written_fresh reachable]
      exact List.nil_prefix
  | write d msg => exact update_grows (fprintln_written _ msg)
  | spawn d | greet d | post d notice | enter d | scanLine d text | scanEnd d =>
      exact update_grows List.prefix_rfl
  | leave d | connClose d | deliver msg d rest | closeChan d | writerStart d | writerDone d =>
      exact update_grows List.prefix_rfl
  | acceptError | pick _ _ _ | rangeDone _ => exact List.prefix_rfl
  | greetPanic _ | deliverPanic _ _ _ | closePanic _ => exact List.prefix_rfl

theorem output_next (reachable : server.Reachable s) (label : Label) (c : Conn) :
    (s.sessions c).output <+: ((s.next label).sessions c).output := by
  obtain ⟨more, later⟩ := written_next reachable label c
  rw [Session.output, Session.output, ← later, List.flatMap_append]
  exact List.prefix_append _ _

/-- Only `Scan` adds to the input. -/
theorem input_next {label : Label} (other : ∀ d text, label ≠ .scanLine d text) (c : Conn) :
    ((s.next label).sessions c).input <+: (s.sessions c).input := by
  have kept : ∀ {d : Conn} {session : Session}, session.input <+: (s.sessions d).input →
      (Function.update s.sessions d session c).input <+: (s.sessions c).input := by
    intro d session shrinks
    rcases eq_or_ne c d with rfl | other
    · rwa [Function.update_self]
    · rw [Function.update_of_ne other]
  cases label with
  | accept addr => exact kept List.nil_prefix
  | scanLine d text => exact absurd rfl (other d text)
  | write d msg =>
      obtain ⟨written, dropped, wrote⟩ := (s.sessions d).fprintln_eq msg
      apply kept
      rw [wrote]
  | spawn d | greet d | post d notice | enter d | scanEnd d => exact kept List.prefix_rfl
  | leave d | connClose d | deliver msg d rest | closeChan d | writerStart d | writerDone d =>
      exact kept List.prefix_rfl
  | acceptError | pick _ _ _ | rangeDone _ => exact List.prefix_rfl
  | greetPanic _ | deliverPanic _ _ _ | closePanic _ => exact List.prefix_rfl

end Server

/-! ## Both sides -/

theorem prefix_concat {α : Type} {first whole : List α} {value : α} (part : first <+: whole)
    (next : whole[first.length]? = some value) : first ++ [value] <+: whole := by
  obtain ⟨rest, rfl⟩ := part
  rw [List.getElem?_append_right (Nat.le_refl _), Nat.sub_self] at next
  obtain ⟨tail, rfl⟩ := List.head?_eq_some_iff.mp (List.head?_eq_getElem? ▸ next)
  exact ⟨tail, by simp⟩

/-- Both sides of a connection run as they do alone, and each stream has arrived up to
some point. -/
structure Wired (s : Net) : Prop where
  server : Chat.server.Reachable s.server
  client : ∀ c, Chat.client.Reachable (s.clients c)
  incoming : ∀ c, (s.clients c).incoming.source <+: (s.server.sessions c).output
  arrived : ∀ c, s.arrived c <+: (s.clients c).outgoing.sink
  input : ∀ c, (s.server.sessions c).input <+: scanLines (s.arrived c) (s.eof c)

variable {s : Net}

namespace Wired

theorem initial : Wired .initial where
  server := Leads.refl _
  client _ := Leads.refl _
  incoming _ := List.prefix_rfl
  arrived _ := List.prefix_rfl
  input _ := List.nil_prefix

theorem serve {label : Chat.Label} (wired : Wired s) (enabled : s.server.Enabled label)
    (serves : s.Serves label) : Wired (s.next (.server label)) := by
  refine ⟨wired.server.leads ((Leads.refl _).step enabled), wired.client, ?_, wired.arrived, ?_⟩
  · exact fun c => (wired.incoming c).trans (output_next wired.server label c)
  · intro c
    by_cases scanned : ∃ d text, label = .scanLine d text
    · obtain ⟨d, text, rfl⟩ := scanned
      rcases eq_or_ne c d with rfl | other
      · have input : ((s.server.next (.scanLine c text)).sessions c).input =
            (s.server.sessions c).input ++ [text] := by simp [Server.next]
        exact input ▸ prefix_concat (wired.input c) (scan_token serves)
      · have input : ((s.server.next (.scanLine d text)).sessions c).input =
            (s.server.sessions c).input := by simp [Server.next, other]
        exact input ▸ wired.input c
    · have other : ∀ d text, label ≠ .scanLine d text :=
        fun d text same => scanned ⟨d, text, same⟩
      exact (input_next other c).trans (wired.input c)

/-- A step of a client's process. -/
theorem run {c : Conn} {label : Client.Label} (wired : Wired s)
    (enabled : (s.clients c).Enabled label) (reads : s.Reads c label) :
    Wired (s.next (.client c label)) := by
  have source : ((s.clients c).next label).incoming.source <+:
      (s.server.sessions c).output := by
    cases label with
    | incoming step =>
        cases step with
        | read chunk stop => exact reads
        | write chunk stop | writeError chunk stop count => exact wired.incoming c
    | dial err => cases err <;> exact wired.incoming c
    | outgoing _ | copied _ | close | ended _ | println | receive => exact wired.incoming c
  have sink : (s.clients c).outgoing.sink <+: ((s.clients c).next label).outgoing.sink := by
    cases label with
    | outgoing step => exact Flow.sink_next _ step
    | dial err => cases err <;> exact List.prefix_rfl
    | incoming _ | copied _ | close | ended _ | println | receive => exact List.prefix_rfl
  refine ⟨wired.server, ?_, ?_, ?_, wired.input⟩
  · apply (Function.forall_update_iff s.clients fun _ state => Chat.client.Reachable state).mpr
    exact ⟨(wired.client c).leads ((Leads.refl _).step enabled), fun d _ => wired.client d⟩
  · apply (Function.forall_update_iff s.clients fun d state =>
      state.incoming.source <+: (s.server.sessions d).output).mpr
    exact ⟨source, fun d _ => wired.incoming d⟩
  · apply (Function.forall_update_iff s.clients fun d state =>
      s.arrived d <+: state.outgoing.sink).mpr
    exact ⟨(wired.arrived c).trans sink, fun d _ => wired.arrived d⟩

theorem next {label : Net.Label} (wired : Wired s) (enabled : s.Enabled label) :
    Wired (s.next label) := by
  cases label with
  | server label => exact wired.serve enabled.1 enabled.2
  | client c label => exact wired.run enabled.1 enabled.2
  | arrive c chunk =>
      obtain ⟨-, going, part⟩ := enabled
      refine ⟨wired.server, wired.client, wired.incoming, ?_, ?_⟩
      · apply (Function.forall_update_iff s.arrived fun d bytes =>
          bytes <+: (s.clients d).outgoing.sink).mpr
        exact ⟨part, fun d _ => wired.arrived d⟩
      · apply (Function.forall_update_iff s.arrived fun d bytes =>
          (s.server.sessions d).input <+: scanLines bytes (s.eof d)).mpr
        have before := wired.input c
        rw [going] at before
        exact ⟨before.trans (scanLines_mono (List.prefix_append _ _) _), fun d _ => wired.input d⟩
  | eof c =>
      have going : s.eof c = false := enabled
      refine ⟨wired.server, wired.client, wired.incoming, wired.arrived, ?_⟩
      apply (Function.forall_update_iff s.eof fun d ended =>
        (s.server.sessions d).input <+: scanLines (s.arrived d) ended).mpr
      have before := wired.input c
      rw [going] at before
      exact ⟨before.trans (scanLines_mono List.prefix_rfl _), fun d _ => wired.input d⟩

end Wired

theorem wired_of_reachable (reachable : net.Reachable s) : Wired s :=
  reachable.induct Wired.initial fun _ _ wired enabled => wired.next enabled

/-! ## What a client shows -/

/-- The bytes typed at a client's keyboard. -/
def Net.typed (s : Net) (c : Conn) : Bytes := (s.clients c).outgoing.source

/-- The bytes on a client's screen. -/
def Net.shown (s : Net) (c : Conn) : Bytes := (s.clients c).incoming.sink

namespace Wired

theorem arrived_typed (wired : Wired s) (c : Conn) : s.arrived c <+: s.typed c :=
  (wired.arrived c).trans (Client.fits_of_reachable (wired.client c)).outgoing.sink_begins

theorem shown_output (wired : Wired s) (c : Conn) :
    s.shown c <+: (s.server.sessions c).output :=
  (Client.fits_of_reachable (wired.client c)).incoming.sink_begins.trans (wired.incoming c)

/-- Every line that the server has scanned was typed. -/
theorem input_typed (wired : Wired s) {c : Conn} {text : Bytes}
    (read : text ∈ (s.server.sessions c).input) :
    byte '\n' ∉ text ∧ ∃ line ∈ (s.typed c).splitOn (byte '\n'), text <+: line :=
  scanLines_begins (wired.arrived_typed c) ((wired.input c).subset read)

end Wired

/-- The complete lines on a client's screen are the messages of its connection, from the
first one on and in order.  Each names its kind and its sender, and what it quotes was
typed there. -/
theorem reachable_screen (reachable : net.Reachable s)
    (addresses : ∀ c < s.server.accepted, IsAddress (s.server.sessions c).who) (d : Conn) :
    ∃ messages, messages <+: (s.server.sessions d).received ∧
      lines (byte '\n') (s.shown d) = messages.map Message.text ∧
      ∀ msg ∈ messages, Record.parse msg.text = some msg.record ∧
        (msg.record = .greeting (s.server.sessions d).who ∨
          ∃ e < s.server.accepted, ∃ notice,
            .post ⟨e, (s.server.sessions e).who, notice⟩ ∈ s.server.log ∧
            msg.record = notice.record (s.server.sessions e).who ∧
            ∀ text, notice = .line text →
              ∃ line ∈ (s.typed e).splitOn (byte '\n'), text <+: line) := by
  have wired := wired_of_reachable reachable
  have control := control_of_reachable wired.server
  have scripts := scripts_of_reachable wired.server
  have deliveries := deliveries_of_reachable wired.server
  have valid := deliveries.valid scripts control addresses
    (fun c _ text read => (wired.input_typed read).1) (c := d)
  have written : (s.server.sessions d).written <+: (s.server.sessions d).received := by
    rw [(accounted_of_reachable wired.server d).received, List.append_assoc]
    exact List.prefix_append _ _
  have clean : ∀ text ∈ ((s.server.sessions d).written.map Message.record).map Record.text,
      byte '\n' ∉ text := by
    simp only [List.forall_mem_map]
    exact fun msg among => Record.text_clean (valid msg (written.subset among))
  have shown := wired.shown_output d
  rw [Session.output, wire_eq_frame] at shown
  have complete := List.prefix_iff_eq_take.mp (lines_of_prefix_frame clean shown)
  generalize (lines (byte '\n') (s.shown d)).length = count at complete
  refine ⟨(s.server.sessions d).written.take count, (List.take_prefix _ _).trans written, ?_, ?_⟩
  · rw [complete, List.map_map, List.map_take]
    congr 1
    exact List.map_congr_left fun msg _ => msg.record_text
  · intro msg among
    have received := written.subset (List.mem_of_mem_take among)
    constructor
    · rw [← msg.record_text]
      exact Record.parse_text (valid msg received)
    · rcases deliveries.genuine scripts control received with ⟨-, own⟩ | posted
      · exact Or.inl own
      · obtain ⟨e, accepted, notice, logged, record, read⟩ := posted
        refine Or.inr ⟨e, accepted, notice, logged, record, ?_⟩
        exact fun text line => (wired.input_typed (read text line)).2

/-- Alice is greeted, says hello and reads it on her own screen. -/
def echoRun : List Net.Label :=
  let who := bytes "[::1]:7"
  let arrived := Message.post 0 ⟨0, who, .arrived⟩
  let hi := Message.post 2 ⟨0, who, .line (bytes "hi")⟩
  let greeting := (Message.greeting who).wire
  [.client 0 (.dial false), .server (.accept who), .server (.spawn 0), .server (.writerStart 0),
    .server (.greet 0), .server (.write 0 (.greeting who)), .server (.post 0 .arrived),
    .server (.rangeDone arrived), .server (.enter 0),
    .client 0 (.outgoing (.read (bytes "hi\r\nbye") none)),
    .client 0 (.outgoing (.write (bytes "hi\r\nbye") none)), .arrive 0 (bytes "hi\r\nb"),
    .server (.scanLine 0 (bytes "hi")), .server (.post 0 (.line (bytes "hi"))),
    .server (.pick hi 0 {0}), .server (.deliver hi 0 ∅), .server (.write 0 hi),
    .client 0 (.incoming (.read (greeting ++ hi.wire) none)),
    .client 0 (.incoming (.write (greeting ++ hi.wire) none))]

def echoState : Net := net.after .initial echoRun

theorem echoState_screen :
    ∃ messages, messages <+: (echoState.server.sessions 0).received ∧
      lines (byte '\n') (echoState.shown 0) = messages.map Message.text := by
  obtain ⟨messages, received, screen, -⟩ :=
    reachable_screen (s := echoState) (Runs.leads (by decide)) (by decide) 0
  exact ⟨messages, received, screen⟩

end ApLabs.Chat
