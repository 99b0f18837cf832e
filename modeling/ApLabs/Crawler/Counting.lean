import ApLabs.Crawler.Program
import ApLabs.Foundation.Pool

/-!
# The crawler's counters

`n` counts the goroutines that have still to send their list, except while `main`
scans a list whose sender is already done.  The values in `tokens` are those of the
goroutines between their acquisition and their release.
-/

namespace ApLabs.Crawler

open ApLabs.Foundation.Pool
open ApLabs.Foundation.Transition

/-- The goroutine has still to send its list. -/
def Goroutine.pending (goroutine : Goroutine) : Bool :=
  match goroutine.point with
  | .done => false
  | _ => true

/-- The goroutine is inside `links.Extract`. -/
def Goroutine.inside (goroutine : Goroutine) : Bool :=
  match goroutine.point with
  | .extract => true
  | _ => false

/-- The goroutine holds a token just before or just after `links.Extract`. -/
def Goroutine.beside (goroutine : Goroutine) : Bool :=
  match goroutine.point with
  | .call | .release _ _ => true
  | _ => false

def Goroutine.holding (goroutine : Goroutine) : Bool :=
  goroutine.inside || goroutine.beside

/-- The list being scanned is counted until it is finished. -/
def Main.owed : Main → Nat
  | .range _ => 1
  | .test | .receive | .done => 0

structure Counted (s : State) : Prop where
  pending : s.n = s.pool.countP Goroutine.pending + s.main.owed
  waiting : s.main = .receive → 0 < s.pool.countP Goroutine.pending
  finished : s.main = .done → s.pool.countP Goroutine.pending = 0
  tokens : s.tokens = s.pool.countP Goroutine.holding
  bounded : s.tokens ≤ 20
  received : s.received + s.pool.countP Goroutine.pending = s.pool.length

variable {web : Web} {s : State}

theorem counted_initial (web : Web) : Counted (initial web) :=
  ⟨rfl, nofun, nofun, rfl, Nat.zero_le _, rfl⟩

namespace Counted

/-- A goroutine that goes on without its send changes the tokens only. -/
theorem go {i : Nat} {url : Url} {before after : Point} {tokens : Nat} {output : List Url}
    (counted : Counted s) (here : s.pool[i]? = some ⟨some url, before⟩)
    (still : Goroutine.pending ⟨some url, before⟩ = true)
    (sends : Goroutine.pending ⟨some url, after⟩ = true)
    (held : tokens = (s.go i url after).pool.countP Goroutine.holding) (bounded : tokens ≤ 20) :
    Counted { s.go i url after with tokens := tokens, output := output } := by
  have pending : (s.go i url after).pool.countP Goroutine.pending =
      s.pool.countP Goroutine.pending :=
    countP_same Goroutine.pending here (sends.trans still.symm)
  refine ⟨?_, ?_, ?_, held, bounded, ?_⟩
  · rw [pending]
    exact counted.pending
  · rw [pending]
    exact counted.waiting
  · rw [pending]
    exact counted.finished
  · rw [pending]
    exact counted.received.trans (List.length_set ..).symm

/-- Away from its acquisition and its release it keeps them, too. -/
theorem keep {i : Nat} {url : Url} {before after : Point} {output : List Url}
    (counted : Counted s) (here : s.pool[i]? = some ⟨some url, before⟩)
    (still : Goroutine.pending ⟨some url, before⟩ = true)
    (sends : Goroutine.pending ⟨some url, after⟩ = true)
    (holds : Goroutine.holding ⟨some url, after⟩ = Goroutine.holding ⟨some url, before⟩) :
    Counted { s.go i url after with output := output } :=
  counted.go here still sends
    (counted.tokens.trans (countP_same Goroutine.holding here holds).symm) counted.bounded

/-- The sender of a received list is done, and the list is owed until it is scanned. -/
theorem receive {i : Nat} {url : Option Url} {list : List Url} (counted : Counted s)
    (waits : s.main = .receive) (here : s.pool[i]? = some ⟨url, .send list⟩) :
    Counted (s.next web (.receive i url list)) := by
  have pending : (s.pool.set i ⟨url, .done⟩).countP Goroutine.pending + 1 =
      s.pool.countP Goroutine.pending := countP_exit Goroutine.pending here rfl rfl
  have holding : (s.pool.set i ⟨url, .done⟩).countP Goroutine.holding =
      s.pool.countP Goroutine.holding := countP_same Goroutine.holding here rfl
  have before := counted.pending
  have received := counted.received
  rw [waits, Main.owed] at before
  refine ⟨?_, nofun, nofun, counted.tokens.trans holding.symm, counted.bounded, ?_⟩
  · simp only [State.next, Main.owed]
    omega
  · simp only [State.next, List.length_set]
    omega

/-- A new link adds a goroutine to the pool and one to `n`. -/
theorem link {url : Url} {rest : List Url} (counted : Counted s)
    (scans : s.main = .range (url :: rest)) : Counted (s.next web (.link url rest)) := by
  have before := counted.pending
  have received := counted.received
  rw [scans, Main.owed] at before
  rw [State.next]
  split
  · exact ⟨before, nofun, nofun, counted.tokens, counted.bounded, received⟩
  · refine ⟨?_, nofun, nofun, ?_, counted.bounded, ?_⟩
    · simp only [countP_spawn, Goroutine.pending, if_true, Main.owed]
      omega
    · rw [countP_spawn]
      exact counted.tokens
    · simp only [countP_spawn, Goroutine.pending, if_true, List.length_append,
        List.length_singleton]
      omega

theorem next {label : Label} (counted : Counted s) (enabled : s.Enabled label) :
    Counted (s.next web label) := by
  obtain ⟨running, ready⟩ := enabled
  cases label with
  | test =>
      have testing : s.main = .test := ready
      have before := counted.pending
      rw [testing, Main.owed] at before
      rw [State.next]
      split
      next positive =>
        refine ⟨before, fun _ => ?_, nofun, counted.tokens, counted.bounded, counted.received⟩
        simp only
        omega
      next finished =>
        refine ⟨before, nofun, fun _ => ?_, counted.tokens, counted.bounded, counted.received⟩
        simp only
        omega
  | receive i url list => exact counted.receive ready.1 ready.2
  | link url rest => exact counted.link ready
  | decrement =>
      have scanned : s.main = .range [] := ready
      have before := counted.pending
      rw [scanned, Main.owed] at before
      refine ⟨?_, nofun, nofun, counted.tokens, counted.bounded, counted.received⟩
      simp only [State.next, Main.owed]
      omega
  | print i url => exact counted.keep ready rfl rfl rfl
  | acquire i url =>
      refine counted.go ready.1 rfl rfl ?_ ready.2
      rw [counted.tokens]
      exact (countP_enter Goroutine.holding ready.1 rfl rfl).symm
  | call i url => exact counted.keep ready rfl rfl rfl
  | extract i url err => exact counted.keep ready rfl rfl rfl
  | release i url list err =>
      have freed : (s.go i url (.report list err)).pool.countP Goroutine.holding + 1 =
          s.pool.countP Goroutine.holding := countP_exit Goroutine.holding ready.1 rfl rfl
      have held := counted.tokens
      refine counted.go ready.1 rfl rfl ?_ ((Nat.sub_le _ _).trans counted.bounded)
      omega
  | report i url list err => exact counted.keep ready rfl rfl rfl

end Counted

theorem counted_of_reachable (reachable : (crawler web).Reachable s) : Counted s :=
  reachable.induct (counted_initial web) fun _ _ counted enabled => counted.next enabled

end ApLabs.Crawler
