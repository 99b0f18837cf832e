import ApLabs.Crawler.Counting
import Mathlib.Data.Finset.Card
import Mathlib.Data.List.Nodup

/-!
# What the crawler visits

The links that `main` has seen are reachable from the arguments, and each has its own
goroutine.  The list of a goroutine that is done has been seen up to what `main` has
still to scan.  When `main` leaves its loop nothing remains, so the seen links are
closed under following links.
-/

namespace ApLabs.Crawler

open ApLabs.Foundation.CMemory
open ApLabs.Foundation.Pool
open ApLabs.Foundation.Transition

/-! ## Reachable links -/

/-- The list that a goroutine has to send. -/
def Web.answer (web : Web) : Option Url → List Url
  | none => web.args
  | some url => web.links url

/-- Zero or more links lead from an argument to the link. -/
def Web.Reach (web : Web) (url : Url) : Prop :=
  ∃ arg ∈ web.args, Relation.ReflTransGen (fun page link => link ∈ web.links page) arg url

theorem Web.Reach.arg {web : Web} {url : Url} (member : url ∈ web.args) : web.Reach url :=
  ⟨url, member, Relation.ReflTransGen.refl⟩

theorem Web.Reach.link {web : Web} {page url : Url} (reach : web.Reach page)
    (member : url ∈ web.links page) : web.Reach url := by
  obtain ⟨arg, among, path⟩ := reach
  exact ⟨arg, among, path.tail member⟩

/-- A set that holds the arguments and is closed under links holds all that is
reachable. -/
theorem Web.Reach.induct {web : Web} {url : Url} (reach : web.Reach url) {holds : Url → Prop}
    (args : ∀ arg ∈ web.args, holds arg)
    (links : ∀ page, holds page → ∀ link ∈ web.links page, holds link) : holds url := by
  obtain ⟨arg, among, path⟩ := reach
  induction path with
  | refl => exact args arg among
  | tail path last ih => exact links _ ih _ last

/-! ## The invariant -/

/-- What a goroutine knows at each of its points. -/
def Goroutine.Fits (web : Web) (goroutine : Goroutine) : Prop :=
  match goroutine.point with
  | .print | .acquire | .call | .extract => ∃ url, goroutine.url = some url
  | .release list _ | .report list _ =>
      (∃ url, goroutine.url = some url) ∧ list = web.answer goroutine.url
  | .send list => list = web.answer goroutine.url
  | .done => True

/-- What is left of the list that `main` scans. -/
def Main.rest : Main → List Url
  | .range list => list
  | .test | .receive | .done => []

def Point.printed : Point → Bool
  | .print => false
  | _ => true

/-- The goroutine has printed this link. -/
def Goroutine.printed (url : Url) (goroutine : Goroutine) : Bool :=
  goroutine.url = some url && goroutine.point.printed

structure Covered (web : Web) (s : State) : Prop where
  fits : ∀ goroutine ∈ s.pool, goroutine.Fits web
  tasks : ∃ urls : List Url, urls.Nodup ∧ urls.toFinset = s.seen ∧
    s.pool.map Goroutine.url = none :: urls.map some
  closed : ∀ goroutine ∈ s.pool, goroutine.point = .done →
    ∀ link ∈ web.answer goroutine.url, link ∈ s.seen ∨ link ∈ s.main.rest
  sound : ∀ url ∈ s.seen, web.Reach url
  rest : ∀ url ∈ s.main.rest, web.Reach url
  output : ∀ url, s.output.count url = s.pool.countP (Goroutine.printed url)

variable {web : Web} {s : State}

theorem Goroutine.not_done {goroutine : Goroutine} (pending : goroutine.pending = true) :
    goroutine.point ≠ .done := by
  intro done
  rw [Goroutine.pending, done] at pending
  cases pending

theorem covered_initial (web : Web) : Covered web (initial web) := by
  refine ⟨?_, ⟨[], List.nodup_nil, rfl, rfl⟩, ?_, nofun, nofun, fun url => rfl⟩
  · intro goroutine member
    obtain rfl := List.mem_singleton.mp member
    exact rfl
  · intro goroutine member done
    obtain rfl := List.mem_singleton.mp member
    cases done

namespace Covered

/-- A seen link is the task of a goroutine. -/
theorem seen_iff (covered : Covered web s) {url : Url} :
    url ∈ s.seen ↔ ∃ goroutine ∈ s.pool, goroutine.url = some url := by
  obtain ⟨urls, nodup, seen, tasks⟩ := covered.tasks
  rw [← seen, List.mem_toFinset, ← List.mem_map, tasks]
  simp

/-- Every list that a goroutine has to send leads from the arguments. -/
theorem answer_reach (covered : Covered web s) {goroutine : Goroutine}
    (member : goroutine ∈ s.pool) : ∀ link ∈ web.answer goroutine.url, web.Reach link := by
  intro link among
  cases url : goroutine.url with
  | none =>
      rw [url] at among
      exact Web.Reach.arg among
  | some page =>
      rw [url] at among
      have seen : page ∈ s.seen := covered.seen_iff.mpr ⟨goroutine, member, url⟩
      exact (covered.sound page seen).link among

/-- What is seen or left to scan may move between the two. -/
theorem closed_moved {seen : Finset Url} {rest : List Url} (covered : Covered web s)
    (moved : ∀ link, link ∈ s.seen ∨ link ∈ s.main.rest → link ∈ seen ∨ link ∈ rest) :
    ∀ goroutine ∈ s.pool, goroutine.point = .done →
      ∀ link ∈ web.answer goroutine.url, link ∈ seen ∨ link ∈ rest := by
  intro goroutine member done link among
  exact moved link (covered.closed goroutine member done link among)

/-- A goroutine that goes on without its send changes the output only. -/
theorem go {i : Nat} {url : Url} {before after : Point} {tokens : Nat} {output : List Url}
    (covered : Covered web s) (here : s.pool[i]? = some ⟨some url, before⟩)
    (fits : Goroutine.Fits web ⟨some url, after⟩)
    (sends : Goroutine.pending ⟨some url, after⟩ = true)
    (printed : ∀ link, output.count link =
      (s.go i url after).pool.countP (Goroutine.printed link)) :
    Covered web { s.go i url after with tokens := tokens, output := output } := by
  refine ⟨forall_set covered.fits fits, ?_, ?_, covered.sound, covered.rest, printed⟩
  · have tasks : (s.go i url after).pool.map Goroutine.url = s.pool.map Goroutine.url :=
      map_set Goroutine.url here rfl
    rw [tasks]
    exact covered.tasks
  · exact forall_set covered.closed fun done => absurd done (Goroutine.not_done sends)

/-- Once it has printed, the output is kept as well. -/
theorem keep {i : Nat} {url : Url} {before after : Point} {tokens : Nat}
    (covered : Covered web s) (here : s.pool[i]? = some ⟨some url, before⟩)
    (fits : Goroutine.Fits web ⟨some url, after⟩)
    (sends : Goroutine.pending ⟨some url, after⟩ = true)
    (printed : after.printed = before.printed) :
    Covered web { s.go i url after with tokens := tokens } := by
  refine covered.go here fits sends fun link => (covered.output link).trans ?_
  have same : Goroutine.printed link ⟨some url, after⟩ =
      Goroutine.printed link ⟨some url, before⟩ := by
    rw [Goroutine.printed, Goroutine.printed, printed]
  exact (countP_same (Goroutine.printed link) here same).symm

/-- Printing a link adds it to the output and its goroutine to those that printed. -/
theorem print {i : Nat} {url : Url} (covered : Covered web s)
    (here : s.pool[i]? = some ⟨some url, .print⟩) :
    Covered web (s.next web (.print i url)) := by
  refine covered.go here ⟨url, rfl⟩ rfl fun link => ?_
  rw [List.count_append, covered.output link]
  have moved := countP_set (Goroutine.printed link) here ⟨some url, .acquire⟩
  by_cases same : url = link <;>
    simpa [Goroutine.printed, Point.printed, same, State.go] using moved.symm

/-- The links of a received list are those that `main` scans next. -/
theorem receive {i : Nat} {url : Option Url} {list : List Url} (covered : Covered web s)
    (waits : s.main = .receive) (here : s.pool[i]? = some ⟨url, .send list⟩) :
    Covered web (s.next web (.receive i url list)) := by
  have answer : list = web.answer url := covered.fits _ (mem here)
  refine ⟨forall_set covered.fits trivial, ?_, ?_, covered.sound, ?_, ?_⟩
  · have tasks : (s.pool.set i ⟨url, .done⟩).map Goroutine.url = s.pool.map Goroutine.url :=
      map_set Goroutine.url here rfl
    rw [State.next, tasks]
    exact covered.tasks
  · apply forall_set
    · apply covered.closed_moved
      rw [waits]
      rintro link (seen | remaining)
      · exact Or.inl seen
      · cases remaining
    · intro done link among
      exact Or.inr (answer ▸ among)
  · intro link among
    exact covered.answer_reach (mem here) link (answer ▸ among)
  · intro link
    have same : Goroutine.printed link ⟨url, .done⟩ =
      Goroutine.printed link ⟨url, .send list⟩ := rfl
    exact (covered.output link).trans (countP_same (Goroutine.printed link) here same).symm

/-- A link leaves the list for the seen links, if it is not among them. -/
theorem link {url : Url} {rest : List Url} (covered : Covered web s)
    (scans : s.main = .range (url :: rest)) : Covered web (s.next web (.link url rest)) := by
  have reach := covered.rest
  rw [scans] at reach
  rw [State.next]
  split
  next seen =>
    refine ⟨covered.fits, covered.tasks, ?_, covered.sound, ?_, covered.output⟩
    · apply covered.closed_moved
      rw [scans]
      rintro link (old | remaining)
      · exact Or.inl old
      · rcases List.mem_cons.mp remaining with rfl | later
        · exact Or.inl seen
        · exact Or.inr later
    · exact fun link among => reach link (List.mem_cons_of_mem url among)
  next fresh =>
    refine ⟨forall_concat covered.fits ⟨url, rfl⟩, ?_, ?_, ?_, ?_, ?_⟩
    · obtain ⟨urls, nodup, seen, tasks⟩ := covered.tasks
      refine ⟨urls ++ [url], ?_, ?_, ?_⟩
      · rw [← seen, List.mem_toFinset] at fresh
        exact List.nodup_append.mpr ⟨nodup, List.nodup_singleton url, by
          rintro other among last member rfl
          exact fresh (List.mem_singleton.mp member ▸ among)⟩
      · rw [List.toFinset_append, seen, Finset.union_comm]
        rfl
      · rw [List.map_append, tasks, List.map_append]
        rfl
    · apply forall_concat
      · apply covered.closed_moved
        rw [scans]
        rintro link (old | remaining)
        · exact Or.inl (Finset.mem_insert_of_mem old)
        · rcases List.mem_cons.mp remaining with rfl | later
          · exact Or.inl (Finset.mem_insert_self _ _)
          · exact Or.inr later
      · exact fun done => absurd done (Goroutine.not_done rfl)
    · intro link among
      rcases Finset.mem_insert.mp among with rfl | old
      · exact reach link List.mem_cons_self
      · exact covered.sound link old
    · exact fun link among => reach link (List.mem_cons_of_mem url among)
    · intro link
      rw [countP_spawn, covered.output link]
      simp [Goroutine.printed, Point.printed]

/-- Outside its scan `main` has nothing left to see. -/
theorem idle {main : Main} {n : Int} (covered : Covered web s) (before : s.main.rest = [])
    (after : main.rest = []) : Covered web { s with main := main, n := n } := by
  refine ⟨covered.fits, covered.tasks, ?_, covered.sound, ?_, covered.output⟩
  · apply covered.closed_moved
    rw [before, after]
    exact fun link => id
  · intro url among
    exact absurd (after ▸ among) List.not_mem_nil

theorem next {label : Label} (covered : Covered web s) (enabled : s.Enabled label) :
    Covered web (s.next web label) := by
  obtain ⟨running, ready⟩ := enabled
  cases label with
  | test =>
      refine covered.idle (congrArg Main.rest ready) ?_
      split <;> rfl
  | receive i url list => exact covered.receive ready.1 ready.2
  | link url rest => exact covered.link ready
  | decrement => exact covered.idle (congrArg Main.rest ready) rfl
  | print i url => exact covered.print ready
  | acquire i url => exact covered.keep ready.1 ⟨url, rfl⟩ rfl rfl
  | call i url => exact covered.keep ready ⟨url, rfl⟩ rfl rfl
  | extract i url err => exact covered.keep ready ⟨⟨url, rfl⟩, rfl⟩ rfl rfl
  | release i url list err =>
      have fits := covered.fits _ (mem ready.1)
      exact covered.keep ready.1 fits rfl rfl
  | report i url list err =>
      have fits := covered.fits _ (mem ready)
      exact covered.keep ready fits.2 rfl rfl

end Covered

theorem covered_of_reachable (reachable : (crawler web).Reachable s) : Covered web s :=
  reachable.induct (covered_initial web) fun _ _ covered enabled => covered.next enabled

/-! ## Leaving the loop -/

/-- Every goroutine is done when `main` is. -/
theorem Counted.all_done (counted : Counted s) (finished : s.main = .done) :
    ∀ goroutine ∈ s.pool, goroutine.point = .done := by
  intro goroutine member
  have settled := List.countP_eq_zero.mp (counted.finished finished) goroutine member
  cases point : goroutine.point with
  | done => rfl
  | _ => simp [Goroutine.pending, point] at settled

/-- Then the seen links are those that are reachable. -/
theorem Covered.seen_iff_reach (covered : Covered web s) (finished : s.main = .done)
    (all : ∀ goroutine ∈ s.pool, goroutine.point = .done) (url : Url) :
    url ∈ s.seen ↔ web.Reach url := by
  have answered : ∀ goroutine ∈ s.pool, ∀ link ∈ web.answer goroutine.url, link ∈ s.seen := by
    intro goroutine member link among
    rcases covered.closed goroutine member (all goroutine member) link among with seen | remaining
    · exact seen
    · rw [finished] at remaining
      cases remaining
  constructor
  · exact covered.sound url
  · intro reach
    apply reach.induct
    · obtain ⟨urls, nodup, seen, tasks⟩ := covered.tasks
      have starter : none ∈ s.pool.map Goroutine.url := by
        rw [tasks]
        exact List.mem_cons_self
      obtain ⟨goroutine, member, none_url⟩ := List.mem_map.mp starter
      intro arg among
      apply answered goroutine member
      rw [none_url]
      exact among
    · intro page seen link among
      obtain ⟨goroutine, member, page_url⟩ := covered.seen_iff.mp seen
      apply answered goroutine member
      rw [page_url]
      exact among

/-- Each seen link has one goroutine, and no other link has any. -/
theorem Covered.countP_url (covered : Covered web s) (url : Url) :
    s.pool.countP (fun goroutine => goroutine.url = some url) =
      if url ∈ s.seen then 1 else 0 := by
  obtain ⟨urls, nodup, seen, tasks⟩ := covered.tasks
  have count : s.pool.countP (fun goroutine => goroutine.url = some url) =
      (s.pool.map Goroutine.url).count (some url) := by
    rw [List.count, List.countP_map]
    apply List.countP_congr
    intro goroutine member
    simp
  rw [count, tasks, List.count_cons_of_ne (Option.some_ne_none url).symm,
    List.count_map_of_injective urls some (Option.some_injective _), ← seen, nodup.count]
  simp

/-- When the loop ends, the seen links are exactly the reachable ones, `crawl` was
called and returned once for each of them, every list was delivered, and every other
schedule has seen the same links when its loop ends. -/
theorem reachable_exit_covers (reachable : (crawler web).Reachable s)
    (finished : s.main = .done) :
    (∀ url, url ∈ s.seen ↔ web.Reach url) ∧
    (∀ url, s.pool.countP (fun goroutine => goroutine.url = some url) =
      if url ∈ s.seen then 1 else 0) ∧
    (∀ url, s.output.count url = if url ∈ s.seen then 1 else 0) ∧
    (∀ goroutine ∈ s.pool, goroutine.point = .done) ∧
    ∀ other, (crawler web).Reachable other → other.main = .done → other.seen = s.seen := by
  have covered := covered_of_reachable reachable
  have all := (counted_of_reachable reachable).all_done finished
  have seen := covered.seen_iff_reach finished all
  refine ⟨seen, covered.countP_url, ?_, all, ?_⟩
  · intro url
    rw [covered.output url, ← covered.countP_url url]
    apply List.countP_congr
    intro goroutine member
    simp [Goroutine.printed, Point.printed, all goroutine member]
  · intro other reachable' finished'
    have all' := (counted_of_reachable reachable').all_done finished'
    ext url
    rw [seen, (covered_of_reachable reachable').seen_iff_reach finished' all']

/-- A page that links to itself and to another one, named twice. -/
def sampleWeb : Web where
  args := [bytes "a", bytes "a"]
  links url := if url = bytes "a" then [bytes "b", bytes "a"] else []

/-- A whole crawl, whose second call ends with an error. -/
def sampleCrawl : List Label :=
  let a := bytes "a"
  let b := bytes "b"
  [.test, .receive 0 none [a, a], .link a [a], .link a [], .decrement,
    .test, .print 1 a, .acquire 1 a, .call 1 a, .extract 1 a false, .release 1 a [b, a] false,
    .report 1 a [b, a] false, .receive 1 (some a) [b, a], .link b [a], .link a [], .decrement,
    .test, .print 2 b, .acquire 2 b, .call 2 b, .extract 2 b true, .release 2 b [] true,
    .report 2 b [] true, .receive 2 (some b) [], .decrement, .test]

def crawledState : State := (crawler sampleWeb).after (initial sampleWeb) sampleCrawl

theorem crawledState_reachable : (crawler sampleWeb).Reachable crawledState :=
  System.Runs.leads (by decide)

theorem crawledState_seen_iff :
    bytes "b" ∈ crawledState.seen ↔ sampleWeb.Reach (bytes "b") :=
  (reachable_exit_covers crawledState_reachable (by decide)).1 (bytes "b")

end ApLabs.Crawler
