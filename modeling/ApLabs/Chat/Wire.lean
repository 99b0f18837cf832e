import ApLabs.Chat.Audience
import ApLabs.Chat.Shutdown
import ApLabs.Foundation.Framing

/-!
# The bytes on a connection

A message is written as its text and a line feed, without any escaping.  An address
holds a colon, no blank and no final colon, so the word in front of the first blank
of a text tells a greeting, a line and a notice apart, and names the sender.
-/

namespace ApLabs.Chat

open ApLabs.Foundation.CMemory
open ApLabs.Foundation.Framing
open ApLabs.Foundation.SessionLog
open ApLabs.Foundation.Transition.System

/-- What `Fprintln` writes for a message. -/
def Message.wire (msg : Message) : Bytes := msg.text ++ [byte '\n']

/-- What the writer has put on the connection before it is closed. -/
def Session.output (session : Session) : Bytes := session.written.flatMap Message.wire

/-! ## Records -/

/-- What a receiver can learn from one message. -/
inductive Record where
  | greeting (who : Bytes)
  | arrived (who : Bytes)
  | line (who text : Bytes)
  | left (who : Bytes)
  deriving DecidableEq, Repr

namespace Record

def text : Record → Bytes
  | .greeting who => bytes "You are " ++ who
  | .arrived who => who ++ bytes " has arrived"
  | .line who text => who ++ bytes ": " ++ text
  | .left who => who ++ bytes " has left"

/-- A greeting begins with the word `You` and a line with a word that ends in a
colon; all other texts are notices. -/
def parse (text : Bytes) : Option Record :=
  let (word, rest) := cut (byte ' ') text
  if word = bytes "You" then
    if bytes " are " <+: rest then some (.greeting (rest.drop 5)) else none
  else if word.getLast? = some (byte ':') then
    if bytes " " <+: rest then some (.line word.dropLast (rest.drop 1)) else none
  else if rest = bytes " has arrived" then some (.arrived word)
  else if rest = bytes " has left" then some (.left word)
  else none

end Record

def Notice.record (who : Bytes) : Notice → Record
  | .arrived => .arrived who
  | .line text => .line who text
  | .left => .left who

def Message.record : Message → Record
  | .greeting who => .greeting who
  | .post _ content => content.notice.record content.who

theorem Message.record_text (msg : Message) : msg.record.text = msg.text := by
  cases msg with
  | greeting who => rfl
  | post position content =>
      obtain ⟨origin, who, notice⟩ := content
      cases notice <;> rfl

/-- What `RemoteAddr().String()` returns for a TCP connection. -/
structure IsAddress (who : Bytes) : Prop where
  colon : byte ':' ∈ who
  no_blank : byte ' ' ∉ who
  no_line_feed : byte '\n' ∉ who
  last : who.getLast? ≠ some (byte ':')

instance (who : Bytes) : Decidable (IsAddress who) :=
  decidable_of_iff
    ((byte ':' ∈ who ∧ byte ' ' ∉ who) ∧ byte '\n' ∉ who ∧ who.getLast? ≠ some (byte ':'))
    ⟨fun parts => ⟨parts.1.1, parts.1.2, parts.2.1, parts.2.2⟩,
      fun address => ⟨⟨address.colon, address.no_blank⟩, address.no_line_feed, address.last⟩⟩

/-- A record of an address, whose text is one line. -/
def Record.Valid : Record → Prop
  | .greeting who | .arrived who | .left who => IsAddress who
  | .line who text => IsAddress who ∧ byte '\n' ∉ text

/-! ## Decoding -/

theorem IsAddress.ne_you {who : Bytes} (address : IsAddress who) : who ≠ bytes "You" := by
  rintro rfl
  exact absurd address.colon (by decide)

namespace Record

/-- Behind the address of a notice comes one of two texts. -/
theorem parse_notice {who rest : Bytes} (address : IsAddress who) :
    parse (who ++ byte ' ' :: rest) =
      if byte ' ' :: rest = bytes " has arrived" then some (.arrived who)
      else if byte ' ' :: rest = bytes " has left" then some (.left who)
      else none := by
  rw [parse, cut_append address.no_blank]
  simp only [if_neg address.ne_you, if_neg address.last]

theorem parse_line {who text : Bytes} (address : IsAddress who) :
    parse (who ++ bytes ": " ++ text) = some (.line who text) := by
  have shape : who ++ bytes ": " ++ text = (who ++ [byte ':']) ++ byte ' ' :: text := by
    simp [bytes]
  have no_blank : byte ' ' ∉ who ++ [byte ':'] := by
    have colon : byte ' ' ≠ byte ':' := by decide
    simp [address.no_blank, colon]
  have last : (who ++ [byte ':']).getLast? = some (byte ':') := List.getLast?_concat
  have other : who ++ [byte ':'] ≠ bytes "You" := by
    intro you
    rw [you] at last
    exact absurd last (by decide)
  rw [shape, parse, cut_append no_blank]
  simp only [if_neg other, last, if_true, List.dropLast_concat, List.drop_one, List.tail_cons]
  exact if_pos ⟨text, rfl⟩

theorem parse_greeting (who : Bytes) : parse (bytes "You are " ++ who) = some (.greeting who) := by
  have shape : bytes "You are " ++ who = bytes "You" ++ byte ' ' :: (bytes "are " ++ who) := rfl
  have five : (byte ' ' :: (bytes "are " ++ who)).drop 5 = who := rfl
  rw [shape, parse, cut_append (by decide)]
  simp only [if_true, five]
  exact if_pos ⟨who, rfl⟩

/-- Every record of an address is read back from its text. -/
theorem parse_text {record : Record} (valid : record.Valid) :
    parse record.text = some record := by
  cases record with
  | greeting who => exact parse_greeting who
  | arrived who => exact parse_notice valid
  | line who text => exact parse_line valid.1
  | left who => exact parse_notice valid

/-- It is one line. -/
theorem text_clean {record : Record} (valid : record.Valid) : byte '\n' ∉ record.text := by
  have literals : byte '\n' ∉ bytes "You are " ∧ byte '\n' ∉ bytes " has arrived" ∧
      byte '\n' ∉ bytes ": " ∧ byte '\n' ∉ bytes " has left" := by decide
  cases record with
  | greeting who => simp [text, literals, valid.no_line_feed]
  | arrived who => simp [text, literals, valid.no_line_feed]
  | line who content => simp [text, literals, valid.1.no_line_feed, valid.2]
  | left who => simp [text, literals, valid.no_line_feed]

/-- Only texts of records are read. -/
theorem text_of_parse {stream : Bytes} {record : Record} (read : parse stream = some record) :
    record.text = stream := by
  have whole := cut_join (byte ' ') stream
  rw [parse] at read
  generalize cut (byte ' ') stream = parts at read whole
  obtain ⟨word, rest⟩ := parts
  simp only at read
  rw [← whole]
  split at read
  next you =>
    split at read
    next greets =>
      obtain ⟨who, rfl⟩ := greets
      obtain rfl := Option.some.inj read
      rw [you]
      rfl
    next other => cases read
  next address =>
    split at read
    next colon =>
      split at read
      next blank =>
        obtain ⟨content, rfl⟩ := blank
        obtain rfl := Option.some.inj read
        have spelled : word.dropLast ++ [byte ':'] = word :=
          List.dropLast_append_getLast? _ colon
        calc text (.line word.dropLast content)
            = word.dropLast ++ [byte ':'] ++ (bytes " " ++ content) := by simp [text, bytes]
          _ = word ++ (bytes " " ++ content) := by rw [spelled]
      next other => cases read
    next plain =>
      split at read
      next arrives =>
        obtain rfl := Option.some.inj read
        rw [arrives]
        rfl
      next other =>
        split at read
        next leaves =>
          obtain rfl := Option.some.inj read
          rw [leaves]
          rfl
        next unknown => cases read

end Record

/-! ## What is received -/

variable {s : Server}

/-- A handler that has begun belongs to an accepted connection. -/
theorem Control.accepted {c : Conn} (control : Control s)
    (begun : (s.sessions c).handler ≠ .absent) : c < s.accepted := by
  have handler := (control.session c).handler
  cases point : (s.sessions c).handler with
  | absent => exact absurd point begun
  | _ =>
      rw [point] at handler
      exact Nat.lt_of_not_le handler.1

/-- A post in the log carries the address of its sender and one of its lines. -/
theorem Scripts.posted {content : Post} (scripts : Scripts s) (control : Control s)
    (among : .post content ∈ s.log) :
    content.origin < s.accepted ∧ content.who = (s.sessions content.origin).who ∧
      ∀ text, content.notice = .line text → text ∈ (s.sessions content.origin).input := by
  have own : .post content ∈ eventsOf Post.origin content.origin s.log :=
    (mem_eventsOf Post.origin).mpr ⟨among, rfl⟩
  rw [(scripts content.origin).events] at own
  constructor
  · apply control.accepted
    intro absent
    rw [Session.processed, absent] at own
    cases own
  · have scripted := ((s.sessions content.origin).script_extends content.origin).subset own
    have posted : content ∈ ((s.sessions content.origin).script content.origin).filterMap
        Event.content? := List.mem_filterMap.mpr ⟨_, scripted, rfl⟩
    rw [Session.script_posts, List.mem_append, List.mem_cons, List.mem_map,
      List.mem_singleton] at posted
    rcases posted with (arrived | ⟨text, read, line⟩) | left
    · rw [arrived]
      refine ⟨rfl, ?_⟩
      rintro _ ⟨⟩
    · rw [← line]
      refine ⟨rfl, ?_⟩
      rintro text' ⟨⟩
      exact read
    · rw [left]
      refine ⟨rfl, ?_⟩
      rintro _ ⟨⟩

/-- The greeting that a client receives is its own. -/
theorem Deliveries.greeting_own {c : Conn} {who : Bytes} (deliveries : Deliveries s)
    (control : Control s) (received : .greeting who ∈ (s.sessions c).received) :
    c < s.accepted ∧ who = (s.sessions c).who := by
  have among : .greeting who ∈ s.addressed c := List.mem_append_left _ received
  rw [deliveries c] at among
  rcases List.mem_append.mp among with opening | posted
  · unfold Session.opening at opening
    split at opening
    next absent => cases opening
    next start => cases opening
    next greet => cases opening
    next other absent start greet =>
      cases List.mem_singleton.mp opening
      exact ⟨control.accepted absent, rfl⟩
  · obtain ⟨entry, -, equal⟩ := List.mem_map.mp posted
    cases equal

theorem Deliveries.post_logged {c : Conn} {position : Nat} {content : Post}
    (deliveries : Deliveries s) (received : .post position content ∈ (s.sessions c).received) :
    .post content ∈ s.log := by
  have among : .post position content ∈ s.addressed c := List.mem_append_left _ received
  exact List.mem_of_getElem? (mem_heard.mp (deliveries.mem_addressed.mp among)).1

/-- Every message received is a record of its receiver's or of its sender's address,
and its post is in the log. -/
theorem Deliveries.genuine {c : Conn} {msg : Message} (deliveries : Deliveries s)
    (scripts : Scripts s) (control : Control s) (received : msg ∈ (s.sessions c).received) :
    c < s.accepted ∧ msg.record = .greeting (s.sessions c).who ∨
      ∃ d < s.accepted, ∃ notice, .post ⟨d, (s.sessions d).who, notice⟩ ∈ s.log ∧
        msg.record = notice.record (s.sessions d).who ∧
        ∀ text, notice = .line text → text ∈ (s.sessions d).input := by
  cases msg with
  | greeting who =>
      obtain ⟨accepted, own⟩ := deliveries.greeting_own control received
      exact Or.inl ⟨accepted, congrArg Record.greeting own⟩
  | post position content =>
      have logged := deliveries.post_logged received
      obtain ⟨accepted, who, read⟩ := scripts.posted control logged
      obtain ⟨d, address, notice⟩ := content
      simp only at who accepted read
      subst who
      exact Or.inr ⟨d, accepted, notice, logged, rfl, read⟩

theorem Deliveries.valid (deliveries : Deliveries s) (scripts : Scripts s) (control : Control s)
    (addresses : ∀ c < s.accepted, IsAddress (s.sessions c).who)
    (lines : ∀ c < s.accepted, ∀ text ∈ (s.sessions c).input, byte '\n' ∉ text) {c : Conn} :
    ∀ msg ∈ (s.sessions c).received, msg.record.Valid := by
  intro msg received
  rcases deliveries.genuine scripts control received with ⟨accepted, greeting⟩ | posted
  · rw [greeting]
    exact addresses c accepted
  · obtain ⟨d, accepted, notice, -, record, read⟩ := posted
    rw [record]
    cases notice with
    | arrived | left => exact addresses d accepted
    | line text => exact ⟨addresses d accepted, lines d accepted text (read text rfl)⟩

theorem wire_eq_frame (messages : List Message) :
    messages.flatMap Message.wire =
      frame (byte '\n') ((messages.map Message.record).map Record.text) := by
  rw [frame, List.map_map, List.flatMap_map]
  apply List.flatMap_congr
  intro msg among
  rw [Message.wire, Function.comp_apply, msg.record_text]

/-! ## What is written -/

/-- Given that the libraries yield addresses and lines, what was delivered to a client
can be read off the bytes: they split into one text for each message, each text is that
of one record only, and so every record that the client decodes is its own greeting or
was posted by the connection of the address it names. -/
theorem reachable_output_decodes (reachable : server.Reachable s)
    (addresses : ∀ c < s.accepted, IsAddress (s.sessions c).who)
    (lines : ∀ c < s.accepted, ∀ text ∈ (s.sessions c).input, byte '\n' ∉ text) (c : Conn) :
    ((s.sessions c).written <+: (s.sessions c).received ∧
      decode (byte '\n') Record.parse (s.sessions c).output =
        some ((s.sessions c).written.map Message.record)) ∧
    (∀ messages, messages <+: (s.sessions c).received →
      (messages.flatMap Message.wire).splitOn (byte '\n') =
          messages.map Message.text ++ [[]] ∧
        decode (byte '\n') Record.parse (messages.flatMap Message.wire) =
          some (messages.map Message.record)) ∧
    (∀ msg ∈ (s.sessions c).received, ∀ record : Record, record.Valid →
      record.text = msg.text → record = msg.record) ∧
    ∀ msg ∈ (s.sessions c).received,
      msg.record = .greeting (s.sessions c).who ∨
        ∃ d < s.accepted, ∃ notice, .post ⟨d, (s.sessions d).who, notice⟩ ∈ s.log ∧
          msg.record = notice.record (s.sessions d).who ∧
          ∀ text, notice = .line text → text ∈ (s.sessions d).input := by
  have control := control_of_reachable reachable
  have scripts := scripts_of_reachable reachable
  have deliveries := deliveries_of_reachable reachable
  have accounted := accounted_of_reachable reachable c
  have valid := deliveries.valid scripts control addresses lines (c := c)
  have decoded : ∀ messages, messages <+: (s.sessions c).received →
      decode (byte '\n') Record.parse (messages.flatMap Message.wire) =
        some (messages.map Message.record) := by
    intro messages delivered
    have all : ∀ record ∈ messages.map Message.record, record.Valid :=
      List.forall_mem_map.mpr fun msg among => valid msg (delivered.subset among)
    rw [wire_eq_frame]
    exact decode_frame (fun record among => Record.text_clean (all record among))
      fun record among => Record.parse_text (all record among)
  have written : (s.sessions c).written <+: (s.sessions c).received := by
    rw [accounted.received, List.append_assoc]
    exact List.prefix_append _ _
  refine ⟨⟨written, decoded _ written⟩, ?_, ?_, ?_⟩
  · intro messages delivered
    refine ⟨?_, decoded messages delivered⟩
    have clean : ∀ text ∈ (messages.map Message.record).map Record.text, byte '\n' ∉ text := by
      simp only [List.forall_mem_map]
      exact fun msg among => Record.text_clean (valid msg (delivered.subset among))
    have split := splitOn_frame clean []
    rw [List.append_nil, List.splitOn_nil, ← wire_eq_frame, List.map_map] at split
    rw [split]
    congr 1
    exact List.map_congr_left fun msg among => msg.record_text
  · intro msg received record wellFormed same
    have read := Record.parse_text wellFormed
    rw [same, ← msg.record_text, Record.parse_text (valid msg received)] at read
    exact (Option.some.inj read).symm
  · intro msg received
    exact (deliveries.genuine scripts control received).imp And.right id

/-- A client sends a line that imitates another one's departure. -/
def imitatingRun : List Label :=
  let who := bytes "[::1]:7"
  let arrived := Message.post 0 ⟨0, who, .arrived⟩
  let lie := Notice.line (bytes "[::1]:8 has left")
  [.accept who, .spawn 0, .writerStart 0, .greet 0, .write 0 (.greeting who), .post 0 .arrived,
    .rangeDone arrived, .enter 0, .scanLine 0 (bytes "[::1]:8 has left"), .post 0 lie,
    .pick (.post 2 ⟨0, who, lie⟩) 0 {0}, .deliver (.post 2 ⟨0, who, lie⟩) 0 ∅,
    .write 0 (.post 2 ⟨0, who, lie⟩)]

theorem imitatingRun_decodes :
    decode (byte '\n') Record.parse
        ((server.after .initial imitatingRun).sessions 0).output =
      some [.greeting (bytes "[::1]:7"),
        .line (bytes "[::1]:7") (bytes "[::1]:8 has left")] :=
  (reachable_output_decodes (s := server.after .initial imitatingRun) (Runs.leads (by decide))
    (by decide) (by decide) 0).1.2

end ApLabs.Chat
