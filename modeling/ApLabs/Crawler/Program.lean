import ApLabs.Foundation.CMemory
import ApLabs.Foundation.Transition
import Mathlib.Data.Finset.Insert

/-!
# The concurrent crawler

`main` receives lists of links and starts one goroutine for each link it has not
seen.  A goroutine prints its link, calls `links.Extract` between the acquisition
and the release of a token and sends the list it got.  `tokens` is a channel with
room for twenty values, `worklist` is unbuffered.

`links.Extract` returns for each link a list that depends on the link only, with or
without an error; the error is chosen anew at each call.
-/

namespace ApLabs.Crawler

open ApLabs.Foundation.CMemory
open ApLabs.Foundation.Transition

abbrev Url := Bytes

/-- The arguments of the program and the lists that `links.Extract` returns. -/
structure Web where
  args : List Url
  links : Url → List Url

/-! ## Program points -/

/-- The point of a goroutine whose operation comes next.  A list it holds comes with
the error of the call that returned it. -/
inductive Point where
  | print
  | acquire
  | call
  | extract
  | release (list : List Url) (err : Bool)
  | report (list : List Url) (err : Bool)
  | send (list : List Url)
  | done
  deriving DecidableEq, Repr

/-- A goroutine with the argument of `crawl`; the one that sends the program's
arguments does not call `crawl`. -/
structure Goroutine where
  url : Option Url
  point : Point
  deriving DecidableEq, Repr

inductive Main where
  | test
  | receive
  | range (list : List Url)
  | done
  deriving DecidableEq, Repr

/-! ## States -/

/-- `output` lists the lines printed, `received` counts the lists received. -/
structure State where
  main : Main
  n : Int
  seen : Finset Url
  tokens : Nat
  pool : List Goroutine
  output : List Url
  received : Nat

/-- `main` at its loop, the goroutine of the arguments started. -/
def initial (web : Web) : State where
  main := .test
  n := 1
  seen := ∅
  tokens := 0
  pool := [⟨none, .send web.args⟩]
  output := []
  received := 0

/-! ## Steps -/

inductive Label where
  | test
  | receive (i : Nat) (url : Option Url) (list : List Url)
  | link (url : Url) (rest : List Url)
  | decrement
  | print (i : Nat) (url : Url)
  | acquire (i : Nat) (url : Url)
  | call (i : Nat) (url : Url)
  | extract (i : Nat) (url : Url) (err : Bool)
  | release (i : Nat) (url : Url) (list : List Url) (err : Bool)
  | report (i : Nat) (url : Url) (list : List Url) (err : Bool)
  deriving DecidableEq, Repr

namespace State

/-- The goroutines of a label are at the operations it names. -/
@[reducible] def Ready (s : State) : Label → Prop
  | .test => s.main = .test
  | .receive i url list => s.main = .receive ∧ s.pool[i]? = some ⟨url, .send list⟩
  | .link url rest => s.main = .range (url :: rest)
  | .decrement => s.main = .range []
  | .print i url => s.pool[i]? = some ⟨some url, .print⟩
  | .acquire i url => s.pool[i]? = some ⟨some url, .acquire⟩ ∧ s.tokens < 20
  | .call i url => s.pool[i]? = some ⟨some url, .call⟩
  | .extract i url _ => s.pool[i]? = some ⟨some url, .extract⟩
  | .release i url list err => s.pool[i]? = some ⟨some url, .release list err⟩ ∧ 0 < s.tokens
  | .report i url list err => s.pool[i]? = some ⟨some url, .report list err⟩

/-- The process ends with `main`. -/
def Enabled (s : State) (label : Label) : Prop :=
  s.main ≠ .done ∧ s.Ready label

instance (s : State) (label : Label) : Decidable (s.Enabled label) :=
  have : Decidable (s.Ready label) := by cases label <;> infer_instance
  inferInstanceAs (Decidable (_ ∧ _))

/-- The goroutine of a link goes to a point. -/
def go (s : State) (i : Nat) (url : Url) (point : Point) : State :=
  { s with pool := s.pool.set i ⟨some url, point⟩ }

def next (web : Web) (s : State) : Label → State
  | .test => { s with main := if s.n > 0 then .receive else .done }
  | .receive i url list =>
      { s with
        main := .range list
        pool := s.pool.set i ⟨url, .done⟩
        received := s.received + 1 }
  | .link url rest =>
      if url ∈ s.seen then { s with main := .range rest }
      else
        { s with
          main := .range rest
          n := s.n + 1
          seen := insert url s.seen
          pool := s.pool ++ [⟨some url, .print⟩] }
  | .decrement => { s with main := .test, n := s.n - 1 }
  | .print i url => { s.go i url .acquire with output := s.output ++ [url] }
  | .acquire i url => { s.go i url .call with tokens := s.tokens + 1 }
  | .call i url => s.go i url .extract
  | .extract i url err => s.go i url (.release (web.links url) err)
  | .release i url list err => { s.go i url (.report list err) with tokens := s.tokens - 1 }
  | .report i url list _ => s.go i url (.send list)

end State

def crawler (web : Web) : System State Label :=
  ⟨initial web, State.Enabled, State.next web⟩

instance (web : Web) (s : State) (label : Label) : Decidable ((crawler web).Enabled s label) :=
  inferInstanceAs (Decidable (s.Enabled label))

end ApLabs.Crawler
