import Mathlib.Logic.Relation

/-!
# Labelled systems

A system is given by its initial state, by the labels that are enabled in a
state and by the state to which an enabled label leads.  Runs are lists of
labels, so a concrete run is checked by evaluation; reachability and its
invariant rule are the closure of single steps.
-/

namespace ApLabs.Foundation.Transition

structure System (σ ℓ : Type) where
  init : σ
  Enabled : σ → ℓ → Prop
  next : σ → ℓ → σ

namespace System

variable {σ ℓ : Type} (system : System σ ℓ)

def Step (before after : σ) : Prop :=
  ∃ label, system.Enabled before label ∧ after = system.next before label

/-- Zero or more steps. -/
def Leads : σ → σ → Prop :=
  Relation.ReflTransGen system.Step

def Reachable (state : σ) : Prop :=
  system.Leads system.init state

variable {system}

/-! ## Rules -/

theorem Leads.refl (state : σ) : system.Leads state state :=
  Relation.ReflTransGen.refl

theorem Leads.step {first last : σ} (leads : system.Leads first last) {label : ℓ}
    (enabled : system.Enabled last label) : system.Leads first (system.next last label) :=
  Relation.ReflTransGen.tail leads ⟨label, enabled, rfl⟩

theorem Reachable.leads {first last : σ} (reachable : system.Reachable first)
    (leads : system.Leads first last) : system.Reachable last :=
  Relation.ReflTransGen.trans reachable leads

/-- What holds initially and is preserved by every step holds in every reachable
state. -/
theorem Reachable.induct {state : σ} (reachable : system.Reachable state) {holds : σ → Prop}
    (start : holds system.init)
    (step : ∀ state label, holds state → system.Enabled state label →
      holds (system.next state label)) : holds state := by
  induction reachable with
  | refl => exact start
  | tail before last ih =>
      obtain ⟨label, enabled, rfl⟩ := last
      exact step _ label ih enabled

/-- An invariant may rest on what is known of all reachable states. -/
theorem Leads.induct_known {first last : σ} (leads : system.Leads first last)
    (reachable : system.Reachable first) (holds : σ → Prop) {known : σ → Prop}
    (knows : ∀ state, system.Reachable state → known state) (start : holds first)
    (step : ∀ state label, known state → holds state → system.Enabled state label →
      holds (system.next state label)) : holds last := by
  induction leads with
  | refl => exact start
  | tail before last ih =>
      obtain ⟨label, enabled, rfl⟩ := last
      exact step _ label (knows _ (reachable.leads before)) ih enabled

theorem Reachable.induct_known {state : σ} (reachable : system.Reachable state)
    {known holds : σ → Prop} (knows : ∀ state, system.Reachable state → known state)
    (start : holds system.init)
    (step : ∀ state label, known state → holds state → system.Enabled state label →
      holds (system.next state label)) : holds state :=
  Leads.induct_known reachable (Leads.refl _) holds knows start step

/-! ## Termination -/

variable (system) in
/-- No run from the state goes on for ever. -/
def Terminates (state : σ) : Prop :=
  Acc (fun after before => system.Step before after) state

/-- Runs end where every step from a reachable state decreases a measure. -/
theorem Reachable.terminates {α : Type} [relation : WellFoundedRelation α] {state : σ}
    (reachable : system.Reachable state) (measure : σ → α)
    (decreases : ∀ state label, system.Reachable state → system.Enabled state label →
      WellFoundedRelation.rel (measure (system.next state label)) (measure state)) :
    system.Terminates state := by
  induction value : measure state using relation.wf.induction generalizing state with
  | _ value ih =>
      constructor
      rintro _ ⟨label, enabled, rfl⟩
      have less := decreases state label reachable enabled
      rw [value] at less
      exact ih _ less (reachable.leads ((Leads.refl state).step enabled)) rfl

theorem terminates_of_measure {α : Type} [relation : WellFoundedRelation α] (measure : σ → α)
    (decreases : ∀ state label, system.Enabled state label →
      WellFoundedRelation.rel (measure (system.next state label)) (measure state)) (state : σ) :
    system.Terminates state := by
  induction value : measure state using relation.wf.induction generalizing state with
  | _ value ih =>
      constructor
      rintro _ ⟨label, enabled, rfl⟩
      have less := decreases state label enabled
      rw [value] at less
      exact ih _ less _ rfl

variable (system) in
/-- Every run from the state ends, and ends in a final state. -/
def EndsIn (state : σ) (final : σ → Prop) : Prop :=
  system.Terminates state ∧ ∀ last, system.Leads state last →
    (∀ label, ¬ system.Enabled last label) → final last

theorem EndsIn.mono {state : σ} {final weaker : σ → Prop} (ends : system.EndsIn state final)
    (weakens : ∀ last, final last → weaker last) : system.EndsIn state weaker :=
  ⟨ends.1, fun last leads ended => weakens last (ends.2 last leads ended)⟩

/-- A system with fewer steps stays within the states of the larger one. -/
theorem Leads.mono {larger : System σ ℓ} {first last : σ} (leads : system.Leads first last)
    (next : system.next = larger.next)
    (enabled : ∀ state label, system.Enabled state label → larger.Enabled state label) :
    larger.Leads first last := by
  have steps : ∀ before after, system.Step before after → larger.Step before after := by
    rintro before _ ⟨label, step, rfl⟩
    exact ⟨label, enabled before label step, by rw [next]⟩
  exact Relation.ReflTransGen.mono steps _ _ leads

/-! ## Restricted runs -/

variable (system) in
/-- The runs from a state that take steps of the allowed labels only. -/
def restricted (first : σ) (allowed : ℓ → Prop) : System σ ℓ :=
  ⟨first, fun state label => allowed label ∧ system.Enabled state label, system.next⟩

theorem Leads.unrestricted {start first last : σ} {allowed : ℓ → Prop}
    (leads : (system.restricted start allowed).Leads first last) : system.Leads first last :=
  leads.mono rfl fun _ _ => And.right

/-- Restricted runs end where every allowed step from a reachable state decreases a
measure.  Both that and what holds at the end may rest on a property that allowed steps
keep. -/
theorem Reachable.restricted_ends_keeping {α : Type} [relation : WellFoundedRelation α]
    {state : σ} (reachable : system.Reachable state) {allowed : ℓ → Prop} {final : σ → Prop}
    (measure : σ → α) (kept : σ → Prop) (start : kept state)
    (keeps : ∀ state label, system.Reachable state → kept state → allowed label →
      system.Enabled state label → kept (system.next state label))
    (decreases : ∀ state label, system.Reachable state → kept state → allowed label →
      system.Enabled state label →
      WellFoundedRelation.rel (measure (system.next state label)) (measure state))
    (stuck : ∀ last, system.Reachable last → kept last →
      (∀ label, allowed label → ¬ system.Enabled last label) → final last) :
    (system.restricted state allowed).EndsIn state final := by
  have known : ∀ other, (system.restricted state allowed).Reachable other →
      system.Reachable other :=
    fun other reached => reachable.leads (Leads.unrestricted reached)
  have holds : ∀ other, (system.restricted state allowed).Reachable other → kept other := by
    intro other reached
    apply reached.induct_known known start
    intro before label reached holds enabled
    exact keeps before label reached holds enabled.1 enabled.2
  constructor
  · have first : (system.restricted state allowed).Reachable state := Leads.refl state
    apply first.terminates measure
    intro other label reached enabled
    exact decreases other label (known other reached) (holds other reached) enabled.1 enabled.2
  · intro last leads ended
    apply stuck last (known last leads) (holds last leads)
    exact fun label permitted enabled => ended label ⟨permitted, enabled⟩

theorem Reachable.restricted_ends {α : Type} [relation : WellFoundedRelation α] {state : σ}
    (reachable : system.Reachable state) {allowed : ℓ → Prop} {final : σ → Prop}
    (measure : σ → α)
    (decreases : ∀ state label, system.Reachable state → allowed label →
      system.Enabled state label →
      WellFoundedRelation.rel (measure (system.next state label)) (measure state))
    (stuck : ∀ last, system.Reachable last →
      (∀ label, allowed label → ¬ system.Enabled last label) → final last) :
    (system.restricted state allowed).EndsIn state final :=
  reachable.restricted_ends_keeping measure (fun _ => True) trivial
    (fun _ _ _ _ _ _ => trivial)
    (fun other label reached _ permitted enabled =>
      decreases other label reached permitted enabled)
    (fun last reached _ ended => stuck last reached ended)

/-! ## Runs -/

variable (system)

def after (state : σ) (labels : List ℓ) : σ :=
  labels.foldl system.next state

/-- Every label of the list is enabled when its turn comes. -/
def Runs : σ → List ℓ → Prop
  | _, [] => True
  | state, label :: rest => system.Enabled state label ∧ Runs (system.next state label) rest

instance decidableRuns [∀ state label, Decidable (system.Enabled state label)] :
    (state : σ) → (labels : List ℓ) → Decidable (system.Runs state labels)
  | _, [] => isTrue trivial
  | state, label :: rest =>
      have := decidableRuns (system.next state label) rest
      inferInstanceAs (Decidable (_ ∧ _))

variable {system}

theorem Runs.leads {state : σ} {labels : List ℓ} (runs : system.Runs state labels) :
    system.Leads state (system.after state labels) := by
  induction labels generalizing state with
  | nil => exact Leads.refl state
  | cons label rest ih =>
      exact Relation.ReflTransGen.head ⟨label, runs.1, rfl⟩ (ih runs.2)

end System

end ApLabs.Foundation.Transition
