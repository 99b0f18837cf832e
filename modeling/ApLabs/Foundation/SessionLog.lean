import Mathlib.Data.List.Basic
import Mathlib.Data.List.Infix
import Mathlib.Data.List.Nodup
import Mathlib.Data.List.Pairwise

/-!
# Logs of a shared session

Members join, leave and post to one shared log.  A member hears the posts that
stand between its joining and its leaving.  A post is identified by its position,
so equal contents posted twice stay distinct.
-/

namespace ApLabs.Foundation.SessionLog

inductive Event (M P : Type) where
  | join (member : M)
  | leave (member : M)
  | post (content : P)
  deriving DecidableEq, Repr

def Event.content? {M P : Type} : Event M P → Option P
  | .post content => some content
  | _ => none

variable {M P : Type}

/-! ## Posts -/

/-- The posts of a log with their positions. -/
def posts (log : List (Event M P)) : List (Nat × P) :=
  log.zipIdx.filterMap fun entry => entry.1.content?.map (entry.2, ·)

theorem mem_posts {log : List (Event M P)} {entry : Nat × P} :
    entry ∈ posts log ↔ log[entry.1]? = some (.post entry.2) := by
  rw [posts, List.mem_filterMap]
  constructor
  · rintro ⟨⟨event, position⟩, member, content⟩
    cases event with
    | post content' =>
        obtain rfl := Option.some.inj content
        exact List.mk_mem_zipIdx_iff_getElem?.mp member
    | join member' | leave member' => cases content
  · intro found
    exact ⟨(.post entry.2, entry.1), List.mk_mem_zipIdx_iff_getElem?.mpr found, rfl⟩

theorem position_lt {log : List (Event M P)} {entry : Nat × P} (member : entry ∈ posts log) :
    entry.1 < log.length :=
  (List.getElem?_eq_some_iff.mp (mem_posts.mp member)).1

theorem posts_concat (log : List (Event M P)) (event : Event M P) :
    posts (log ++ [event]) = posts log ++ (event.content?.map (log.length, ·)).toList := by
  rw [posts, List.zipIdx_append, List.filterMap_append, ← posts]
  cases event <;> simp [Event.content?]

/-- Forgetting positions leaves the contents of the log in order. -/
theorem map_posts (log : List (Event M P)) :
    (posts log).map Prod.snd = log.filterMap Event.content? := by
  induction log using List.reverseRecOn with
  | nil => rfl
  | append_singleton before event ih =>
      rw [posts_concat, List.map_append, ih, List.filterMap_append]
      cases event <;> rfl

/-- Posts stand in the order of their positions. -/
theorem posts_pairwise (log : List (Event M P)) :
    (posts log).Pairwise fun first second => first.1 < second.1 := by
  induction log using List.reverseRecOn with
  | nil => exact List.Pairwise.nil
  | append_singleton before event ih =>
      rw [posts_concat, List.pairwise_append]
      refine ⟨ih, by cases event <;> simp [Event.content?], ?_⟩
      intro first earlier second last
      cases event with
      | post content =>
          obtain rfl := List.mem_singleton.mp last
          exact position_lt earlier
      | join member | leave member => cases last

theorem posts_nodup (log : List (Event M P)) : (posts log).Nodup :=
  (posts_pairwise log).imp fun less equal => absurd (equal ▸ less) (Nat.lt_irrefl _)

/-! ## Presence -/

def Present (member : M) (log : List (Event M P)) : Prop :=
  .join member ∈ log ∧ .leave member ∉ log

/-- Who joins before a stretch of the log and does not leave during it is present
at every position of that stretch. -/
theorem present_of_between {member : M} {before middle last : List (Event M P)} {position : Nat}
    (joined : .join member ∈ before) (stays : .leave member ∉ before ++ middle)
    (lower : before.length ≤ position) (upper : position ≤ before.length + middle.length) :
    Present member ((before ++ middle ++ last).take position) := by
  have within : position ≤ (before ++ middle).length := by
    rw [List.length_append]
    exact upper
  rw [List.take_append_of_le_length within]
  constructor
  · rw [List.take_append, List.take_of_length_le lower]
    exact List.mem_append_left _ joined
  · intro left
    exact stays (List.mem_of_mem_take left)

variable [DecidableEq M] [DecidableEq P]

instance (member : M) (log : List (Event M P)) : Decidable (Present member log) :=
  inferInstanceAs (Decidable (_ ∧ _))

/-- The posts that find the member present. -/
def heard (member : M) (log : List (Event M P)) : List (Nat × P) :=
  (posts log).filter fun entry => Present member (log.take entry.1)

theorem mem_heard {member : M} {log : List (Event M P)} {entry : Nat × P} :
    entry ∈ heard member log ↔
      log[entry.1]? = some (.post entry.2) ∧ Present member (log.take entry.1) := by
  rw [heard, List.mem_filter, mem_posts, decide_eq_true_iff]

theorem heard_sublist (member : M) (log : List (Event M P)) :
    (heard member log).Sublist (posts log) :=
  List.filter_sublist

theorem heard_concat (member : M) (log : List (Event M P)) (event : Event M P) :
    heard member (log ++ [event]) = heard member log ++
      if Present member log then (event.content?.map (log.length, ·)).toList else [] := by
  have earlier : (posts log).filter
        (fun entry => Present member ((log ++ [event]).take entry.1)) = heard member log := by
    apply List.filter_congr
    intro entry among
    rw [List.take_append_of_le_length (position_lt among).le]
  rw [heard, posts_concat, List.filter_append, earlier]
  congr 1
  cases event with
  | post content =>
      by_cases present : Present member log <;> simp [Event.content?, present]
  | join other | leave other => simp [Event.content?]

/-- A member hears nothing before it joins. -/
theorem heard_of_not_joined {member : M} {log : List (Event M P)} (absent : .join member ∉ log) :
    heard member log = [] := by
  apply List.eq_nil_iff_forall_not_mem.mpr
  intro entry among
  exact absent (List.mem_of_mem_take (mem_heard.mp among).2.1)

/-! ## The events of one member -/

variable (origin : P → M)

def Event.by : Event M P → M
  | .join member => member
  | .leave member => member
  | .post content => origin content

omit [DecidableEq P]

def eventsOf (member : M) (log : List (Event M P)) : List (Event M P) :=
  log.filter fun event => event.by origin = member

theorem mem_eventsOf {member : M} {log : List (Event M P)} {event : Event M P} :
    event ∈ eventsOf origin member log ↔ event ∈ log ∧ event.by origin = member := by
  rw [eventsOf, List.mem_filter, decide_eq_true_iff]

theorem eventsOf_append (member : M) (first second : List (Event M P)) :
    eventsOf origin member (first ++ second) =
      eventsOf origin member first ++ eventsOf origin member second :=
  List.filter_append ..

theorem eventsOf_cons_own {member : M} {event : Event M P} (own : event.by origin = member)
    (log : List (Event M P)) :
    eventsOf origin member (event :: log) = event :: eventsOf origin member log :=
  List.filter_cons_of_pos (decide_eq_true own)

/-- An event belongs to one member only. -/
theorem eventsOf_concat (member : M) (log : List (Event M P)) (event : Event M P) :
    eventsOf origin member (log ++ [event]) =
      eventsOf origin member log ++ if event.by origin = member then [event] else [] := by
  rw [eventsOf_append]
  by_cases own : event.by origin = member <;> simp [eventsOf, own]

/-- A member's presence is decided by its own events. -/
theorem present_eventsOf (member : M) (log : List (Event M P)) :
    Present member (eventsOf origin member log) ↔ Present member log := by
  simp [Present, mem_eventsOf, Event.by]

variable {origin}

/-- Posts of a speaker lie in the stretch that holds all its events. -/
theorem position_between {speaker : M} {before window last : List (Event M P)}
    (silent : eventsOf origin speaker before = []) (ended : eventsOf origin speaker last = [])
    {entry : Nat × P} (among : entry ∈ posts (before ++ window ++ last))
    (spoken : origin entry.2 = speaker) :
    before.length ≤ entry.1 ∧ entry.1 < before.length + window.length := by
  have found := mem_posts.mp among
  have outside : ∀ part : List (Event M P), eventsOf origin speaker part = [] →
      .post entry.2 ∉ part := by
    intro part none member
    have own := (mem_eventsOf origin).mpr ⟨member, spoken⟩
    rw [none] at own
    cases own
  constructor
  · by_contra early
    rw [List.append_assoc, List.getElem?_append_left (Nat.lt_of_not_le early)] at found
    exact outside before silent (List.mem_of_getElem? found)
  · by_contra late
    rw [← List.length_append] at late
    rw [List.getElem?_append_right (Nat.le_of_not_lt late)] at found
    exact outside last ended (List.mem_of_getElem? found)

variable [DecidableEq P]

/-- Who is present at every post of an origin hears exactly what it posted. -/
theorem heard_from {listener speaker : M} {log : List (Event M P)}
    (present : ∀ entry ∈ posts log, origin entry.2 = speaker →
      Present listener (log.take entry.1)) :
    ((heard listener log).filter fun entry => origin entry.2 = speaker).map Prod.snd =
      (eventsOf origin speaker log).filterMap Event.content? := by
  have all : (heard listener log).filter (fun entry => origin entry.2 = speaker) =
      (posts log).filter fun entry => origin entry.2 = speaker := by
    rw [heard, List.filter_filter]
    apply List.filter_congr
    intro entry among
    by_cases spoken : origin entry.2 = speaker
    · simp [spoken, present entry among spoken]
    · simp [spoken]
  have contents : ((posts log).filter fun entry => origin entry.2 = speaker).map Prod.snd =
      ((posts log).map Prod.snd).filter fun content => origin content = speaker := by
    rw [List.filter_map]
    rfl
  rw [all, contents, map_posts, List.filter_filterMap, eventsOf, List.filterMap_filter]
  congr 1
  funext event
  cases event with
  | post content =>
      by_cases spoken : origin content = speaker <;>
        simp [Event.by, Event.content?, spoken]
  | join member | leave member => simp [Event.content?]

end ApLabs.Foundation.SessionLog

namespace List

variable {α : Type*}

/-- A first element that does not recur has nothing before it. -/
theorem eq_nil_of_first {first : α} {rest before after : List α}
    (equal : first :: rest = before ++ first :: after) (once : first ∉ rest) : before = [] := by
  cases before with
  | nil => rfl
  | cons head tail =>
      have rest_eq := (cons.inj equal).2
      exact absurd (rest_eq ▸ mem_append_right tail mem_cons_self) once

/-- A last element that does not occur earlier has nothing behind it. -/
theorem eq_nil_of_last {last : α} {init before after : List α}
    (equal : init ++ [last] = before ++ last :: after) (once : last ∉ init) : after = [] := by
  rcases eq_nil_or_concat after with none | ⟨body, final, rfl⟩
  · exact none
  · have init_eq : init = before ++ last :: body := by
      have both : init ++ [last] = (before ++ last :: body) ++ [final] := by
        rw [equal, concat_eq_append, append_assoc, cons_append]
      exact append_inj_left' both rfl
    exact absurd (init_eq ▸ mem_append_right before mem_cons_self) once

variable [DecidableEq α]

/-- A sublist of a duplicate-free list selects its own elements. -/
theorem Sublist.eq_filter_mem {part whole : List α} (sublist : part.Sublist whole)
    (nodup : whole.Nodup) : part = whole.filter (· ∈ part) := by
  induction sublist with
  | slnil => rfl
  | @cons part whole head sublist ih =>
      have fresh : head ∉ part := fun among => (nodup_cons.mp nodup).1 (sublist.subset among)
      rw [filter_cons_of_neg (by simpa using fresh)]
      exact ih (nodup_cons.mp nodup).2
  | @cons_cons part whole head sublist ih =>
      have fresh := (nodup_cons.mp nodup).1
      rw [filter_cons_of_pos (by simp), cons.injEq]
      refine ⟨rfl, (ih (nodup_cons.mp nodup).2).trans ?_⟩
      apply filter_congr
      intro element among
      have other : element ≠ head := fun equal => fresh (equal ▸ among)
      simp [other]

/-- Two sublists of a duplicate-free list have their common elements in the same
order. -/
theorem filter_mem_comm_of_sublist {first second whole : List α}
    (nodup : whole.Nodup) (left : first.Sublist whole) (right : second.Sublist whole) :
    first.filter (· ∈ second) = second.filter (· ∈ first) := by
  rw [left.eq_filter_mem nodup, right.eq_filter_mem nodup, filter_filter, filter_filter]
  apply filter_congr
  intro element among
  simp [among, Bool.and_comm]

end List
