import ApLabs.Crawler.Coverage
import Mathlib.Data.Set.Card

/-!
# The crawler neither hangs nor runs on

In every state before `main` is done some goroutine can take a step, and every list
received comes from another goroutine.  So when finitely many links are reachable,
their number bounds the lists that a run receives.
-/

namespace ApLabs.Crawler

open ApLabs.Foundation.Pool
open ApLabs.Foundation.Transition

variable {web : Web} {s : State}

/-! ## Tokens -/

theorem countP_holding (pool : List Goroutine) :
    pool.countP Goroutine.holding =
      pool.countP Goroutine.inside + pool.countP Goroutine.beside := by
  induction pool with
  | nil => rfl
  | cons goroutine rest ih =>
      rw [List.countP_cons, List.countP_cons, List.countP_cons, ih]
      cases point : goroutine.point <;>
        simp [Goroutine.holding, Goroutine.inside, Goroutine.beside, point] <;> omega

/-- A held token is on its way back. -/
theorem Counted.holder_enabled (counted : Counted s) (covered : Covered web s)
    (running : s.main ≠ .done) (held : 0 < s.tokens) : ∃ label, s.Enabled label := by
  have positive := held
  rw [counted.tokens] at positive
  obtain ⟨i, ⟨task, point⟩, here, holds⟩ := exists_counted Goroutine.holding positive
  have fits := covered.fits _ (mem here)
  cases point with
  | call =>
      obtain ⟨url, rfl⟩ := fits
      exact ⟨.call i url, running, here⟩
  | extract =>
      obtain ⟨url, rfl⟩ := fits
      exact ⟨.extract i url false, running, here⟩
  | release list err =>
      obtain ⟨⟨url, rfl⟩, -⟩ := fits
      exact ⟨.release i url list err, running, here, held⟩
  | print | acquire | report list err | send list | done => cases holds

/-- While `main` waits for a list, the goroutines that have to send one can go on. -/
theorem Counted.sender_enabled (counted : Counted s) (covered : Covered web s)
    (waits : s.main = .receive) : ∃ label, s.Enabled label := by
  have running : s.main ≠ .done := waits.trans_ne nofun
  obtain ⟨i, ⟨task, point⟩, here, sends⟩ :=
    exists_counted Goroutine.pending (counted.waiting waits)
  have fits := covered.fits _ (mem here)
  cases point with
  | print =>
      obtain ⟨url, rfl⟩ := fits
      exact ⟨.print i url, running, here⟩
  | acquire =>
      obtain ⟨url, rfl⟩ := fits
      by_cases free : s.tokens < 20
      · exact ⟨.acquire i url, running, here, free⟩
      · exact counted.holder_enabled covered running (by omega)
  | call =>
      obtain ⟨url, rfl⟩ := fits
      exact ⟨.call i url, running, here⟩
  | extract =>
      obtain ⟨url, rfl⟩ := fits
      exact ⟨.extract i url false, running, here⟩
  | release list err =>
      apply counted.holder_enabled covered running
      rw [counted.tokens]
      exact List.countP_pos_iff.mpr ⟨_, mem here, rfl⟩
  | report list err =>
      obtain ⟨⟨url, rfl⟩, -⟩ := fits
      exact ⟨.report i url list err, running, here⟩
  | send list => exact ⟨.receive i task list, running, waits, here⟩
  | done => cases sends

theorem Counted.enabled (counted : Counted s) (covered : Covered web s)
    (running : s.main ≠ .done) : ∃ label, s.Enabled label := by
  cases main : s.main with
  | test => exact ⟨.test, running, main⟩
  | receive => exact counted.sender_enabled covered main
  | range list =>
      cases list with
      | nil => exact ⟨.decrement, running, main⟩
      | cons url rest => exact ⟨.link url rest, running, main⟩
  | done => exact absurd main running

/-! ## Received lists -/

/-- One goroutine sends the arguments, and one sends the list of each seen link. -/
theorem Covered.length_pool (covered : Covered web s) : s.pool.length = s.seen.card + 1 := by
  obtain ⟨urls, nodup, seen, tasks⟩ := covered.tasks
  rw [← List.length_map Goroutine.url, tasks, List.length_cons, List.length_map, ← seen,
    List.toFinset_card_of_nodup nodup]

/-- At its loop head `n` counts the goroutines that have still to send; at most twenty
are inside `links.Extract`, and the tokens held are theirs and those of the goroutines
beside the call; `main` never waits in vain and no state before its exit is stuck; and
a finite web bounds the lists received, all of which are received at the exit. -/
theorem reachable_counters (reachable : (crawler web).Reachable s) :
    (s.main = .test → s.n = s.pool.countP Goroutine.pending) ∧
    s.pool.countP Goroutine.inside ≤ 20 ∧
    s.tokens = s.pool.countP Goroutine.inside + s.pool.countP Goroutine.beside ∧
    (s.main = .receive → ∃ goroutine ∈ s.pool, goroutine.point ≠ .done) ∧
    (s.main ≠ .done → ∃ label, (crawler web).Enabled s label) ∧
    ({url | web.Reach url}.Finite →
      s.received ≤ {url | web.Reach url}.ncard + 1 ∧
        (s.main = .done → s.received = {url | web.Reach url}.ncard + 1)) := by
  have counted := counted_of_reachable reachable
  have covered := covered_of_reachable reachable
  have tokens := counted.tokens.trans (countP_holding s.pool)
  refine ⟨?_, ?_, tokens, ?_, counted.enabled covered, ?_⟩
  · intro test
    have pending := counted.pending
    rw [test, Main.owed] at pending
    exact pending.trans (by omega)
  · have bounded := counted.bounded
    omega
  · intro waits
    obtain ⟨goroutine, member, sends⟩ := List.countP_pos_iff.mp (counted.waiting waits)
    refine ⟨goroutine, member, ?_⟩
    intro done
    simp [Goroutine.pending, done] at sends
  · intro finite
    have length := covered.length_pool
    have received := counted.received
    constructor
    · have within : s.seen.card ≤ {url | web.Reach url}.ncard := by
        rw [← Set.ncard_coe_finset]
        exact Set.ncard_le_ncard covered.sound finite
      omega
    · intro finished
      have exact_seen : (s.seen : Set Url) = {url | web.Reach url} := by
        ext url
        exact covered.seen_iff_reach finished (counted.all_done finished) url
      have settled := counted.finished finished
      rw [← exact_seen, Set.ncard_coe_finset]
      omega

/-- The second call of `links.Extract` has not returned. -/
def fetchingState : State :=
  (crawler sampleWeb).after (initial sampleWeb) (sampleCrawl.take 20)

theorem fetchingState_counters :
    fetchingState.main = .receive ∧ fetchingState.pool.countP Goroutine.inside = 1 ∧
      1 = fetchingState.pool.countP Goroutine.inside +
        fetchingState.pool.countP Goroutine.beside ∧
      (∃ goroutine ∈ fetchingState.pool, goroutine.point ≠ .done) ∧
      ∃ label, (crawler sampleWeb).Enabled fetchingState label := by
  have reachable : (crawler sampleWeb).Reachable fetchingState := System.Runs.leads (by decide)
  have waits : fetchingState.main = .receive := by decide
  have running : fetchingState.main ≠ .done := by decide
  obtain ⟨-, -, tokens, waiting, enabled, -⟩ := reachable_counters reachable
  exact ⟨waits, by decide, tokens, waiting waits, enabled running⟩

end ApLabs.Crawler
