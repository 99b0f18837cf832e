import ApLabs.Chat.Network
import ApLabs.Chat.Settling
import Mathlib.Algebra.Order.BigOperators.Group.Finset

/-!
# Everything typed arrives

When nobody types, dials or hangs up and every read and write returns and none fails, the
server, its clients and the network between them come to rest.  By then every complete line typed by a registered
client has been posted, and every client shows its greeting and all posts that it heard.
-/

namespace ApLabs.Chat

open ApLabs.Foundation.CMemory
open ApLabs.Foundation.Copying
open ApLabs.Foundation.Framing
open ApLabs.Foundation.SessionLog
open ApLabs.Foundation.Transition
open ApLabs.Foundation.Transition.System

/-- The steps of a client's process that need no keyboard and no failure. -/
def Client.Label.Idle : Client.Label → Prop
  | .dial _ => False
  | .outgoing step => step.Quiet ∧ step.Smooth
  | .incoming step => step.Smooth
  | _ => True

/-- The steps that are left to `count` connections. -/
def Net.Label.Idle (count : Nat) : Net.Label → Prop
  | .server (.accept _) | .server .acceptError => False
  | .server _ => True
  | .client c label => c < count ∧ label.Idle
  | .arrive c _ => c < count
  | .eof _ => False

variable {s : Net}

/-! ## What idle steps keep -/

theorem Net.Label.Idle.closing {count : Nat} {label : Chat.Label}
    (idle : (Net.Label.server label).Idle count) :
    (∃ c text, label = .scanLine c text) ∨ label.Closing := by
  cases label with
  | accept addr | acceptError => exact idle.elim
  | scanLine c text => exact Or.inl ⟨c, text, rfl⟩
  | _ => exact Or.inr trivial

theorem typed_idle {count : Nat} {label : Net.Label} (idle : label.Idle count) (c : Conn) :
    (s.next label).typed c = s.typed c := by
  cases label with
  | client d label =>
      have same : ((s.clients d).next label).outgoing.source = (s.clients d).outgoing.source := by
        cases label with
        | dial err => exact idle.2.elim
        | outgoing step => exact Flow.source_quiet idle.2.1 _
        | copied err | close | incoming step | ended err | println | receive => rfl
      rcases eq_or_ne c d with rfl | other
      · simpa [Net.typed, Net.next] using same
      · simp [Net.typed, Net.next, other]
  | server label | arrive d chunk | eof d => rfl

theorem arrived_grows (label : Net.Label) (c : Conn) :
    s.arrived c <+: (s.next label).arrived c := by
  cases label with
  | arrive d chunk =>
      rcases eq_or_ne c d with rfl | other
      · simp [Net.next]
      · simp [Net.next, other]
  | server label | client d label | eof d => exact List.prefix_rfl

theorem input_grows {count : Nat} {label : Net.Label} (idle : label.Idle count) (c : Conn) :
    (s.server.sessions c).input <+: ((s.next label).server.sessions c).input := by
  cases label with
  | server label =>
      cases label with
      | accept addr | acceptError => exact idle.elim
      | scanLine d text => exact update_grows (List.prefix_append _ _)
      | write d msg =>
          obtain ⟨written, dropped, wrote⟩ := (s.server.sessions d).fprintln_eq msg
          apply update_grows
          rw [wrote]
      | spawn d | greet d | post d notice | enter d | scanEnd d =>
          exact update_grows List.prefix_rfl
      | leave d | connClose d | deliver msg d rest | closeChan d | writerStart d
      | writerDone d => exact update_grows List.prefix_rfl
      | pick _ _ _ | rangeDone _ | greetPanic _ | deliverPanic _ _ _ | closePanic _ =>
          exact List.prefix_rfl
  | client d label | arrive d chunk | eof d => exact List.prefix_rfl

/-! ## Steps left -/

/-- The bytes of a connection that have not arrived, and the lines that may still be
scanned. -/
def Net.unread (s : Net) (c : Conn) : Nat :=
  (s.typed c).length - (s.arrived c).length +
    ((s.typed c).length + 2 - (s.server.sessions c).input.length)

/-- The bytes of a connection that its client has not read. -/
def Net.unseen (s : Net) (c : Conn) : Nat :=
  (s.server.sessions c).output.length - (s.clients c).incoming.source.length

/-- What is typed comes before what the server does with it, and that before what the
clients do with its output. -/
def Net.steps (count : Nat) (s : Net) : Nat × Nat × Nat × Nat :=
  (∑ c ∈ Finset.range count, s.unread c, s.server.steps,
    ∑ c ∈ Finset.range count, s.unseen c, ∑ c ∈ Finset.range count, (s.clients c).steps)

theorem length_lines_le (stream : Bytes) :
    (lines (byte '\n') stream).length ≤ stream.length := by
  have whole := congrArg List.length (frame_lines (byte '\n') stream)
  rw [List.length_append] at whole
  have framed : ∀ records : List Bytes, records.length ≤ (frame (byte '\n') records).length := by
    intro records
    induction records with
    | nil => exact Nat.le_refl 0
    | cons record records ih =>
        simp only [frame, List.flatMap_cons, List.length_append, List.length_cons] at ih ⊢
        omega
  have few := framed (lines (byte '\n') stream)
  omega

theorem length_scanLines_le (arrived : Bytes) (eof : Bool) :
    (scanLines arrived eof).length ≤ arrived.length + 1 := by
  have few := length_lines_le arrived
  rw [scanLines, List.length_append, List.length_map]
  split <;> simp only [List.length_nil, List.length_singleton] <;> omega

theorem Wired.length_input_le (wired : Wired s) (c : Conn) :
    (s.server.sessions c).input.length ≤ (s.typed c).length + 1 := by
  have input := (wired.input c).length_le
  have tokens := length_scanLines_le (s.arrived c) (s.eof c)
  have arrived := (wired.arrived_typed c).length_le
  omega

theorem unread_idle {count : Nat} {label : Net.Label} (idle : label.Idle count) (c : Conn) :
    (s.next label).unread c ≤ s.unread c := by
  have arrived := (arrived_grows (s := s) label c).length_le
  have input := (input_grows (s := s) idle c).length_le
  rw [Net.unread, Net.unread, typed_idle idle]
  omega

/-- Less is left where a connection has less left and no other one has more. -/
theorem sum_range_lt {count : Nat} {before after : Conn → Nat} {c : Conn}
    (inside : c < count) (others : ∀ d, after d ≤ before d) (less : after c < before c) :
    ∑ d ∈ Finset.range count, after d < ∑ d ∈ Finset.range count, before d :=
  Finset.sum_lt_sum (fun d _ => others d) ⟨c, Finset.mem_range.mpr inside, less⟩

theorem Wired.steps_arrive {count : Nat} {c : Conn} {chunk : Bytes} (wired : Wired s)
    (inside : c < count) (enabled : s.Enabled (.arrive c chunk)) :
    WellFoundedRelation.rel ((s.next (.arrive c chunk)).steps count) (s.steps count) := by
  have later := (wired.next enabled).arrived_typed c
  obtain ⟨some_, -, -⟩ := enabled
  apply Prod.Lex.left
  have idle : Net.Label.Idle count (.arrive c chunk) := inside
  apply sum_range_lt inside fun d => unread_idle idle d
  have more := List.length_pos_of_ne_nil some_
  have bound := later.length_le
  have typed : (s.next (.arrive c chunk)).typed c = s.typed c := rfl
  have arrived : (s.next (.arrive c chunk)).arrived c = s.arrived c ++ chunk := by
    simp [Net.next]
  have input : (s.next (.arrive c chunk)).server = s.server := rfl
  rw [typed, arrived, List.length_append] at bound
  rw [Net.unread, Net.unread, typed, arrived, input, List.length_append]
  omega

theorem Wired.steps_scanLine {count : Nat} {c : Conn} {text : Bytes} (wired : Wired s)
    (accepted : s.server.accepted = count) (enabled : s.Enabled (.server (.scanLine c text))) :
    WellFoundedRelation.rel ((s.next (.server (.scanLine c text))).steps count)
      (s.steps count) := by
  have bound := (wired.next enabled).length_input_le c
  have scans : (s.server.sessions c).handler = .scan := enabled.1.2
  have inside : c < s.server.accepted :=
    (control_of_reachable wired.server).inside (Or.inl (by simp [scans]))
  have idle : Net.Label.Idle count (.server (.scanLine c text)) := trivial
  apply Prod.Lex.left
  apply sum_range_lt (accepted ▸ inside) fun d => unread_idle idle d
  have typed : (s.next (.server (.scanLine c text))).typed c = s.typed c := rfl
  have arrived : (s.next (.server (.scanLine c text))).arrived c = s.arrived c := rfl
  have input : ((s.next (.server (.scanLine c text))).server.sessions c).input =
      (s.server.sessions c).input ++ [text] := by simp [Net.next, Server.next]
  rw [typed, input, List.length_append, List.length_singleton] at bound
  rw [Net.unread, Net.unread, typed, arrived, input, List.length_append, List.length_singleton]
  omega

theorem incoming_source_grows (state : Client) (label : Client.Label) :
    state.incoming.source <+: (state.next label).incoming.source := by
  cases label with
  | dial err => cases err <;> exact List.prefix_rfl
  | incoming step => exact Flow.source_next _ step
  | outgoing step | copied err | close | ended err | println | receive => exact List.prefix_rfl

theorem unseen_client (d : Conn) (label : Client.Label) (c : Conn) :
    (s.next (.client d label)).unseen c ≤ s.unseen c := by
  rcases eq_or_ne c d with rfl | other
  · have source := (incoming_source_grows (s.clients c) label).length_le
    simp only [Net.unseen, Net.next, Function.update_self]
    omega
  · simp only [Net.unseen, Net.next, Function.update_of_ne other, Nat.le_refl]

theorem Wired.steps_client {count : Nat} {c : Conn} {label : Client.Label} (wired : Wired s)
    (inside : c < count) (idle : label.Idle) (enabled : s.Enabled (.client c label)) :
    WellFoundedRelation.rel ((s.next (.client c label)).steps count) (s.steps count) := by
  have permitted : Net.Label.Idle count (.client c label) := ⟨inside, idle⟩
  apply Prod.Lex.right' _ (Finset.sum_le_sum fun d _ => unread_idle permitted d)
  apply Prod.Lex.right
  by_cases quiet : label.Quiet
  · apply Prod.Lex.right' _ (Finset.sum_le_sum fun d _ => unseen_client c label d)
    have fewer := Client.steps_next (Client.fits_of_reachable (wired.client c)) quiet enabled.1
    apply sum_range_lt inside
    · intro d
      rcases eq_or_ne d c with rfl | other
      · simpa [Net.next] using fewer.le
      · simp [Net.next, other]
    · simpa [Net.next] using fewer
  · apply Prod.Lex.left
    apply sum_range_lt inside fun d => unseen_client c label d
    cases label with
    | incoming step =>
        cases step with
        | read chunk stop =>
            have source := List.length_pos_of_ne_nil quiet
            have bound := List.IsPrefix.length_le enabled.2
            rw [List.length_append] at bound
            simp only [Net.unseen, Net.next, Function.update_self, Client.next, Flow.next,
              List.length_append]
            omega
        | write chunk stop | writeError chunk stop taken => exact absurd trivial quiet
    | outgoing step => exact absurd idle.1 quiet
    | dial err | copied err | close | ended err | println | receive =>
        exact absurd trivial quiet

theorem Wired.steps_next {count : Nat} {label : Net.Label} (wired : Wired s)
    (accepted : s.server.accepted = count) (idle : label.Idle count)
    (enabled : s.Enabled label) :
    WellFoundedRelation.rel ((s.next label).steps count) (s.steps count) := by
  cases label with
  | server label =>
      rcases idle.closing with ⟨c, text, rfl⟩ | closing
      · exact wired.steps_scanLine accepted enabled
      · apply Prod.Lex.right' _ (Finset.sum_le_sum fun d _ => unread_idle idle d)
        apply Prod.Lex.left
        exact (control_of_reachable wired.server).steps_next closing enabled.1
  | client c label => exact wired.steps_client idle.1 idle.2 enabled
  | arrive c chunk => exact wired.steps_arrive idle enabled
  | eof c => exact idle.elim

/-! ## Connections that go on -/

/-- The handler has not stopped scanning. -/
def Handler.Listens : Handler → Prop
  | .start | .greet | .arrive | .enter | .scan | .say _ => True
  | .absent | .leave | .depart | .close | .done => False

/-- Both loops of a client are running and have met no error. -/
structure Client.Copies (state : Client) : Prop where
  main : state.main = .mustCopy
  background : state.background = .copy
  outgoing : state.outgoing.Going
  incoming : state.incoming.Going

/-- A connection that is open on both sides, with no line too long for `Scan`. -/
structure Net.Connected (s : Net) (c : Conn) : Prop where
  handler : (s.server.sessions c).handler.Listens
  client : (s.clients c).Copies
  eof : s.eof c = false
  short : ∀ line ∈ (s.typed c).splitOn (byte '\n'), line.length < MaxScanTokenSize

theorem Client.Copies.next {state : Client} {label : Client.Label} (copies : state.Copies)
    (idle : label.Idle) (enabled : state.Enabled label) : (state.next label).Copies := by
  obtain ⟨main, background, outgoing, incoming⟩ := copies
  obtain ⟨-, ready⟩ := enabled
  cases label with
  | dial err => exact idle.elim
  | outgoing step => exact ⟨main, background, outgoing.next idle.2 ready.2, incoming⟩
  | copied err => exact absurd ready.2 (outgoing.running err)
  | close => cases main.symm.trans ready
  | incoming step => exact ⟨main, background, outgoing, incoming.next idle ready.2.1⟩
  | ended err => exact absurd ready.2 (incoming.running err)
  | println => cases background.symm.trans ready
  | receive => cases main.symm.trans ready.1

/-- Only the end of its input takes a handler away from its loop. -/
theorem listens_next {server : Server} {label : Chat.Label} {c : Conn}
    (enabled : server.Enabled label) (accepts : ∀ addr, label ≠ .accept addr)
    (ends : label ≠ .scanEnd c) (listens : (server.sessions c).handler.Listens) :
    ((server.next label).sessions c).handler.Listens := by
  have moved : ∀ {d : Conn} {session : Session},
      (d = c → (server.sessions c).handler.Listens → session.handler.Listens) →
      (Function.update server.sessions d session c).handler.Listens := by
    intro d session goes
    rcases eq_or_ne d c with rfl | other
    · rw [Function.update_self]
      exact goes rfl listens
    · rwa [Function.update_of_ne other.symm]
  obtain ⟨-, ready⟩ := enabled
  cases label with
  | accept addr => exact absurd rfl (accepts addr)
  | spawn d | greet d | enter d | scanLine d text => exact moved fun _ _ => trivial
  | post d notice =>
      apply moved
      rintro rfl listens
      rw [Handler.point_of_notice ready.2] at listens
      cases notice with
      | arrived | line text => trivial
      | left => exact listens.elim
  | scanEnd d =>
      apply moved
      rintro rfl -
      exact absurd rfl ends
  | leave d =>
      apply moved
      rintro rfl listens
      rw [ready.2] at listens
      exact listens.elim
  | connClose d =>
      apply moved
      rintro rfl listens
      rw [ready] at listens
      exact listens.elim
  | deliver msg d rest | closeChan d | writerStart d | writerDone d =>
      apply moved
      rintro rfl listens
      exact listens
  | write d msg =>
      obtain ⟨written, dropped, wrote⟩ := (server.sessions d).fprintln_eq msg
      apply moved
      rintro rfl listens
      rw [wrote]
      exact listens
  | acceptError | pick _ _ _ | rangeDone _ => exact listens
  | greetPanic _ | deliverPanic _ _ _ | closePanic _ => exact listens

theorem Wired.length_input_le_lines {c : Conn} (wired : Wired s) (going : s.eof c = false) :
    (s.server.sessions c).input.length ≤ (lines (byte '\n') (s.arrived c)).length := by
  have input := (wired.input c).length_le
  rw [going, scanLines] at input
  simpa using input

/-- `Scan` does not stop while the connection is open and the lines are short. -/
theorem scan_ne_stops {arrived typed : Bytes} {count : Nat}
    (short : ∀ line ∈ typed.splitOn (byte '\n'), line.length < MaxScanTokenSize)
    (part : arrived <+: typed) (few : count ≤ (lines (byte '\n') arrived).length) :
    scan arrived false count ≠ .stops := by
  unfold scan
  split
  next line found =>
    have among := (lines_mono _ part).subset (List.mem_of_getElem? found)
    rw [if_pos (short line (mem_splitOn_of_lines among))]
    nofun
  next missing =>
    obtain ⟨line, among, begins⟩ := unfinished_begins (byte '\n') part
    have fits := Nat.lt_of_le_of_lt begins.length_le (short line among)
    rw [if_neg (Nat.not_lt_of_le few), if_neg (Nat.not_le_of_lt fits), if_pos rfl]
    nofun

theorem Net.Connected.next {count : Nat} {label : Net.Label} {c : Conn} (wired : Wired s)
    (connected : s.Connected c) (idle : label.Idle count) (enabled : s.Enabled label) :
    (s.next label).Connected c := by
  have short := connected.short
  rw [← typed_idle idle c] at short
  obtain ⟨handler, client, eof, -⟩ := connected
  cases label with
  | server label =>
      refine ⟨listens_next enabled.1 ?_ ?_ handler, client, eof, short⟩
      · rintro addr rfl
        exact idle
      · rintro rfl
        have stops := enabled.2
        simp only [Net.Serves, eof] at stops
        exact scan_ne_stops short (wired.arrived_typed c) (wired.length_input_le_lines eof) stops
  | client d label =>
      refine ⟨handler, ?_, eof, short⟩
      rcases eq_or_ne c d with rfl | other
      · simpa [Net.next] using client.next idle.2 enabled.1
      · simpa [Net.next, other] using client
  | arrive d chunk => exact ⟨handler, client, eof, short⟩
  | eof d => exact idle.elim

/-! ## At rest -/

/-- What was typed on a connection is posted, and its screen shows the greeting and all posts
that it was to hear. -/
structure Net.Delivered (s : Net) (c : Conn) (typed : Bytes) : Prop where
  posted : eventsOf Post.origin c s.server.log =
    (s.server.sessions c).entered c ((lines (byte '\n') typed).map dropCR)
  shown : s.shown c = (Message.greeting (s.server.sessions c).who ::
    (heard c s.server.log).map asMessage).flatMap Message.wire

/-- `Scan` only waits when every complete line has been scanned. -/
theorem length_lines_le_of_scan {arrived : Bytes} {count : Nat}
    (tokens : ∀ text, scan arrived false count ≠ .token text)
    (goes : scan arrived false count ≠ .stops) :
    (lines (byte '\n') arrived).length ≤ count := by
  by_contra fewer
  have inside := Nat.lt_of_not_le fewer
  unfold scan at tokens goes
  rw [List.getElem?_eq_getElem inside] at tokens goes
  by_cases fits : (lines (byte '\n') arrived)[count].length < MaxScanTokenSize
  · exact tokens _ (if_pos fits)
  · exact goes (if_neg fits)

variable {count : Nat} {c : Conn}

/-- Everything typed has been sent and has arrived. -/
theorem Wired.arrived_of_rest (wired : Wired s) (connected : s.Connected c) (inside : c < count)
    (rests : ∀ label : Net.Label, label.Idle count → ¬ s.Enabled label) :
    s.arrived c = s.typed c := by
  have fits := (Client.fits_of_reachable (wired.client c)).outgoing
  obtain ⟨main, background, outgoing, -⟩ := connected.client
  have running : (s.clients c).main ≠ .done ∧ (s.clients c).main ≠ .fatal := by simp [main]
  have written : ∀ chunk, (s.clients c).outgoing.copy ≠ .write chunk none :=
    fun chunk writes => rests (.client c (.outgoing (.write chunk none)))
      ⟨inside, trivial, trivial⟩ ⟨⟨running, main, writes⟩, trivial⟩
  obtain ⟨-, sent⟩ := outgoing.idle fits written
  obtain ⟨rest, whole⟩ := wired.arrived c
  have nothing : rest = [] := by
    by_contra some_
    exact rests (.arrive c rest) inside ⟨some_, connected.eof, whole ▸ List.prefix_rfl⟩
  rw [nothing, List.append_nil] at whole
  rw [Net.typed, sent, whole]

/-- Everything that the server has written is shown. -/
theorem Wired.shown_of_rest (wired : Wired s) (connected : s.Connected c) (inside : c < count)
    (rests : ∀ label : Net.Label, label.Idle count → ¬ s.Enabled label) :
    s.shown c = (s.server.sessions c).output := by
  have state := Client.fits_of_reachable (wired.client c)
  obtain ⟨main, background, -, incoming⟩ := connected.client
  have running : (s.clients c).main ≠ .done ∧ (s.clients c).main ≠ .fatal := by simp [main]
  have opened : (s.clients c).closed = false := by
    have point := state.main
    rw [main] at point
    exact point.2
  have written : ∀ chunk, (s.clients c).incoming.copy ≠ .write chunk none :=
    fun chunk writes => rests (.client c (.incoming (.write chunk none)))
      ⟨inside, trivial⟩ ⟨⟨running, background, writes, trivial⟩, trivial⟩
  obtain ⟨reads, shown⟩ := incoming.idle state.incoming written
  obtain ⟨rest, whole⟩ := wired.incoming c
  have nothing : rest = [] := by
    by_contra some_
    have readable : Client.Readable (s.clients c).closed (.read rest none) := by
      rw [opened]
      nofun
    have part : (s.clients c).incoming.source ++ rest <+: (s.server.sessions c).output := by
      rw [whole]
    exact rests (.client c (.incoming (.read rest none))) ⟨inside, rfl⟩
      ⟨⟨running, background, ⟨reads, Or.inl some_⟩, readable⟩, part⟩
  rw [nothing, List.append_nil] at whole
  rw [Net.shown, ← shown, whole]

theorem Wired.delivered (wired : Wired s) (connected : s.Connected c)
    (accepted : s.server.accepted = count)
    (rests : ∀ label : Net.Label, label.Idle count → ¬ s.Enabled label) :
    s.Delivered c (s.typed c) := by
  have listens := connected.handler
  have begun : (s.server.sessions c).handler ≠ .absent := by
    intro absent
    rw [absent] at listens
    exact listens.elim
  have inside := (control_of_reachable wired.server).inside (Or.inl begun)
  have served : ∀ label : Chat.Label, label.Internal → ¬ s.server.Enabled label := by
    intro label internal enabled
    have free : (Net.Label.server label).Idle count ∧ s.Serves label := by
      cases label with
      | accept addr | acceptError | scanLine d text | scanEnd d => exact internal.elim
      | _ => exact ⟨trivial, trivial⟩
    exact rests (.server label) free.1 ⟨enabled, free.2⟩
  have whole := wired.arrived_of_rest connected (accepted ▸ inside) rests
  have shown := wired.shown_of_rest connected (accepted ▸ inside) rests
  rcases rest_cases wired.server served inside with listening | gone
  · have running := (control_of_reachable wired.server).running
    have few := length_lines_le_of_scan
      (fun text token => rests (.server (.scanLine c text)) trivial
        ⟨⟨running, listening.handler⟩, by rwa [Net.Serves, connected.eof]⟩)
      (fun stops => rests (.server (.scanEnd c)) trivial
        ⟨⟨running, listening.handler⟩, by rwa [Net.Serves, connected.eof]⟩)
    have input := wired.input c
    rw [connected.eof, scanLines] at input
    simp only [Bool.false_eq_true, false_and, if_false, List.append_nil] at input
    have all := input.eq_of_length_le (by rwa [List.length_map])
    refine ⟨?_, ?_⟩
    · rw [listening.posted, all, whole]
    · rw [shown, Session.output, listening.written]
  · rw [gone.handler] at listens
    exact listens.elim

end ApLabs.Chat
