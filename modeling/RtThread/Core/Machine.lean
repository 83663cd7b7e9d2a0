import Mathlib

set_option linter.all false

/-!
# Labelled machines, runs and invariants

A machine has an executable step function: an act is either not enabled in
a st or leads to one next st and emits one event.  All nondeterminism of
a concurrent system (which thread moves, when a timer fires) is the choice of
the next act, so a property of every interleaving is a property of every
run.  The rules below are the only inductions over runs the development needs.
-/

namespace RtThread.Core

structure Machine (State Action Event : Type*) where
  step : State → Action → Option (State × Event)

namespace Machine

variable {State Action Event : Type*} (machine : Machine State Action Event)

/-- `RunWith good first trace last`: executing the actions of `trace` from
`first` emits its events and ends in `last`, and every action is taken in a
state where `good` allows it. -/
inductive RunWith (good : State → Action → Prop) :
    State → List (Action × Event) → State → Prop
  | nil (st : State) : RunWith good st [] st
  | cons {first next last : State} {act : Action} {event : Event}
      {trace : List (Action × Event)} (hgood : good first act)
      (hstep : machine.step first act = some (next, event))
      (hrest : RunWith good next trace last) :
      RunWith good first ((act, event) :: trace) last

/-- Runs with no condition on the actions. -/
abbrev Run : State → List (Action × Event) → State → Prop :=
  machine.RunWith fun _ _ => True

/-- The executable counterpart of `RunWith`: execute a schedule, if every
action of it is allowed and enabled in turn. -/
def exec (good : State → Action → Prop)
    [∀ st act, Decidable (good st act)] :
    State → List Action → Option (State × List (Action × Event))
  | st, [] => some (st, [])
  | st, act :: rest =>
    if good st act then
      match machine.step st act with
      | none => none
      | some (next, event) =>
        match exec good next rest with
        | none => none
        | some (last, trace) => some (last, (act, event) :: trace)
    else none

variable {machine} {good better : State → Action → Prop}
variable {first middle last : State} {trace trace' : List (Action × Event)}

theorem runWith_of_exec [∀ st act, Decidable (good st act)]
    (schedule : List Action)
    (hexec : machine.exec good first schedule = some (last, trace)) :
    machine.RunWith good first trace last := by
  induction schedule generalizing first trace with
  | nil =>
    obtain ⟨rfl, rfl⟩ := hexec
    exact .nil _
  | cons act rest ih =>
    simp only [exec] at hexec
    split at hexec
    · next hgood =>
        split at hexec
        · contradiction
        · next next event hstep =>
            split at hexec
            · contradiction
            · next final tail hrest =>
                obtain ⟨rfl, rfl⟩ := hexec
                exact .cons hgood hstep (ih hrest)
    · contradiction

theorem runWith_of_isSome [∀ st act, Decidable (good st act)]
    (schedule : List Action) (hexec : (machine.exec good first schedule).isSome = true) :
    machine.RunWith good first ((machine.exec good first schedule).get hexec).2
      ((machine.exec good first schedule).get hexec).1 :=
  runWith_of_exec schedule (Option.some_get hexec).symm

theorem actions_of_exec [∀ st act, Decidable (good st act)] (schedule : List Action)
    (hexec : machine.exec good first schedule = some (last, trace)) :
    trace.map Prod.fst = schedule := by
  induction schedule generalizing first trace with
  | nil =>
    obtain ⟨rfl, rfl⟩ := hexec
    rfl
  | cons act rest ih =>
    simp only [exec] at hexec
    split at hexec
    · split at hexec
      · contradiction
      · split at hexec
        · contradiction
        · next final tail hrest =>
          obtain ⟨rfl, rfl⟩ := hexec
          rw [List.map_cons, ih hrest]
    · contradiction

/-- The run of a schedule takes the actions of the schedule. -/
theorem actions_of_isSome [∀ st act, Decidable (good st act)] (schedule : List Action)
    (hexec : (machine.exec good first schedule).isSome = true) :
    ((machine.exec good first schedule).get hexec).2.map Prod.fst = schedule :=
  actions_of_exec schedule (Option.some_get hexec).symm

namespace RunWith

theorem mono (hbetter : ∀ st act, good st act → better st act)
    (hrun : machine.RunWith good first trace last) :
    machine.RunWith better first trace last := by
  induction hrun with
  | nil st => exact .nil st
  | cons hgood hstep _ ih => exact .cons (hbetter _ _ hgood) hstep ih

theorem run (hrun : machine.RunWith good first trace last) :
    machine.Run first trace last :=
  hrun.mono fun _ _ _ => trivial

theorem append (hleft : machine.RunWith good first trace middle)
    (hright : machine.RunWith good middle trace' last) :
    machine.RunWith good first (trace ++ trace') last := by
  induction hleft with
  | nil _ => exact hright
  | cons hgood hstep _ ih => exact .cons hgood hstep (ih hright)

theorem snoc {act : Action} {event : Event}
    (hrun : machine.RunWith good first trace middle) (hgood : good middle act)
    (hstep : machine.step middle act = some (last, event)) :
    machine.RunWith good first (trace ++ [(act, event)]) last :=
  hrun.append (.cons hgood hstep (.nil _))

/-- The first step of a nonempty run, when the state it leads to is known. -/
theorem of_cons {act : Action} {event : Event}
    (hrun : machine.RunWith good first ((act, event) :: trace) last)
    (hstep : machine.step first act = some (middle, event)) :
    good first act ∧ machine.RunWith good middle trace last := by
  cases hrun with
  | cons hgood hstep' hrest =>
    rw [hstep] at hstep'
    cases hstep'
    exact ⟨hgood, hrest⟩

/-- Invariant rule: what every allowed step preserves holds along the run. -/
theorem invariant (inv : State → Prop)
    (hpreserve : ∀ st act next event, inv st → good st act →
      machine.step st act = some (next, event) → inv next)
    (hfirst : inv first) (hrun : machine.RunWith good first trace last) :
    inv last := by
  induction hrun with
  | nil _ => exact hfirst
  | cons hgood hstep _ ih => exact ih (hpreserve _ _ _ _ hfirst hgood hstep)

theorem always (inv : State → Prop)
    (hpreserve : ∀ st act next event, inv st → good st act →
      machine.step st act = some (next, event) → inv next)
    (hfirst : inv first) (hrun : machine.RunWith good first trace last) :
    machine.RunWith (fun st _ => inv st) first trace last ∧ inv last := by
  induction hrun with
  | nil st => exact ⟨.nil st, hfirst⟩
  | cons hgood hstep _ ih =>
    obtain ⟨hrest, hlast⟩ := ih (hpreserve _ _ _ _ hfirst hgood hstep)
    exact ⟨.cons hfirst hstep hrest, hlast⟩

/-- Consequence rule: along an invariant, the condition on the steps may be changed. -/
theorem weaken (inv : State → Prop)
    (hpreserve : ∀ st act next event, inv st → good st act →
      machine.step st act = some (next, event) → inv next)
    (hbetter : ∀ st act, inv st → good st act → better st act)
    (hfirst : inv first) (hrun : machine.RunWith good first trace last) :
    machine.RunWith better first trace last := by
  induction hrun with
  | nil st => exact .nil st
  | cons hgood hstep _ ih =>
    exact .cons (hbetter _ _ hfirst hgood) hstep (ih (hpreserve _ _ _ _ hfirst hgood hstep))

/-- Invariant rule for a relation between the trace so far and the state. -/
theorem traceInvariant (inv : List (Action × Event) → State → Prop)
    (hpreserve : ∀ past st act next event, inv past st →
      good st act → machine.step st act = some (next, event) →
        inv (past ++ [(act, event)]) next)
    (hfirst : inv [] first) (hrun : machine.RunWith good first trace last) :
    inv trace last := by
  have hgeneral : ∀ past, inv past first → inv (past ++ trace) last := by
    clear hfirst
    induction hrun with
    | nil _ =>
      intro past hpast
      simpa using hpast
    | cons hgood hstep _ ih =>
      intro past hpast
      have hnext := ih _ (hpreserve _ _ _ _ _ hpast hgood hstep)
      simpa using hnext
  simpa using hgeneral [] hfirst

/-- Simulation rule.  If every step that starts in `inv` is, under the abstraction
and the relabelling, a step of the abstract machine, then every run is one of its
runs. -/
theorem simulates {AbsState AbsAction AbsEvent : Type*}
    {abstract : Machine AbsState AbsAction AbsEvent} (abs : State → AbsState)
    (label : Action × Event → AbsAction × AbsEvent) (inv : State → Prop)
    (hpreserve : ∀ st act next event, inv st → good st act →
      machine.step st act = some (next, event) → inv next)
    (hsimulate : ∀ st act next event, inv st → good st act →
      machine.step st act = some (next, event) →
        abstract.step (abs st) (label (act, event)).1 =
          some (abs next, (label (act, event)).2))
    (hfirst : inv first) (hrun : machine.RunWith good first trace last) :
    abstract.Run (abs first) (trace.map label) (abs last) := by
  induction hrun with
  | nil _ => exact .nil _
  | cons hgood hstep _ ih =>
    exact .cons trivial (hsimulate _ _ _ _ hfirst hgood hstep)
      (ih (hpreserve _ _ _ _ hfirst hgood hstep))

/-- Simulation rule for a relation between the states of the two machines. -/
theorem refines {AbsState AbsAction AbsEvent : Type*}
    {abstract : Machine AbsState AbsAction AbsEvent} {absFirst : AbsState}
    (rel : State → AbsState → Prop) (label : Action × Event → AbsAction × AbsEvent)
    (hsimulate : ∀ st abs act next event, rel st abs → good st act →
      machine.step st act = some (next, event) → ∃ absNext,
        abstract.step abs (label (act, event)).1 =
          some (absNext, (label (act, event)).2) ∧ rel next absNext)
    (hfirst : rel first absFirst) (hrun : machine.RunWith good first trace last) :
    ∃ absLast, abstract.Run absFirst (trace.map label) absLast ∧ rel last absLast := by
  induction hrun generalizing absFirst with
  | nil _ => exact ⟨absFirst, .nil _, hfirst⟩
  | cons hgood hstep _ ih =>
    obtain ⟨absNext, habs, hnext⟩ := hsimulate _ _ _ _ _ hfirst hgood hstep
    obtain ⟨absLast, hrest, hlast⟩ := ih hnext
    exact ⟨absLast, .cons trivial habs hrest, hlast⟩

/-- Exactness rule for the runs under a condition.  `inv` implies the property, an allowed
step preserves `inv`, and a forbidden step breaks the property at once: then the property
holds in every state of such a run exactly when every step of it is allowed. -/
theorem always_iff_under {given : State → Action → Prop} (inv property : State → Prop)
    (hproperty : ∀ st, inv st → property st)
    (hallowed : ∀ st act next event, inv st → given st act → good st act →
      machine.step st act = some (next, event) → inv next)
    (hforbidden : ∀ st act next event, inv st → given st act →
      ¬ good st act → machine.step st act = some (next, event) → ¬ property next)
    (hfirst : inv first) (hrun : machine.RunWith given first trace last) :
    (machine.RunWith (fun st _ => property st) first trace last ∧
        property last) ↔
      machine.RunWith good first trace last := by
  induction hrun with
  | nil st =>
    exact ⟨fun _ => .nil st, fun _ => ⟨.nil st, hproperty _ hfirst⟩⟩
  | @cons first next last act event trace hgiven hstep hrest ih =>
    by_cases hgood : good first act
    · have hnext := hallowed _ _ _ _ hfirst hgiven hgood hstep
      constructor
      · rintro ⟨hvisited, hlast⟩
        exact .cons hgood hstep ((ih hnext).1 ⟨(hvisited.of_cons hstep).2, hlast⟩)
      · intro hruns
        obtain ⟨hvisited, hlast⟩ := (ih hnext).2 (hruns.of_cons hstep).2
        exact ⟨.cons (hproperty _ hfirst) hstep hvisited, hlast⟩
    · have hbroken := hforbidden _ _ _ _ hfirst hgiven hgood hstep
      constructor
      · rintro ⟨hvisited, hlast⟩
        have htail := (hvisited.of_cons hstep).2
        cases htail with
        | nil _ => exact absurd hlast hbroken
        | cons hnext _ _ => exact absurd hnext hbroken
      · intro hruns
        exact absurd (hruns.of_cons hstep).1 hgood

theorem always_iff (inv property : State → Prop)
    (hproperty : ∀ st, inv st → property st)
    (hallowed : ∀ st act next event, inv st → good st act →
      machine.step st act = some (next, event) → inv next)
    (hforbidden : ∀ st act next event, inv st → ¬ good st act →
      machine.step st act = some (next, event) → ¬ property next)
    (hfirst : inv first) (hrun : machine.Run first trace last) :
    (machine.RunWith (fun st _ => property st) first trace last ∧
        property last) ↔
      machine.RunWith good first trace last :=
  hrun.always_iff_under inv property hproperty
    (fun _ _ _ _ hinv _ hgood hstep => hallowed _ _ _ _ hinv hgood hstep)
    (fun _ _ _ _ hinv _ hbad hstep => hforbidden _ _ _ _ hinv hbad hstep) hfirst

end RunWith

end Machine

end RtThread.Core
