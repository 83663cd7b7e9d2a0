import RtThread.Core.Machine

set_option linter.all false

/-!
# Recording what has happened

Some properties of a st speak about the steps that led to it.  A recorder
runs beside a machine and takes notes: it sees each step and never takes part in
one, so the runs of the machine with its recorder are the runs of the machine.
-/

namespace RtThread.Core

namespace Machine

variable {State Action Event Notes : Type*}

/-- The machine with a recorder that takes notes of its steps. -/
def recorded (machine : Machine State Action Event)
    (record : Notes → State → Action → State → Event → Notes) :
    Machine (State × Notes) Action Event where
  step := fun ⟨st, notes⟩ act =>
    match machine.step st act with
    | none => none
    | some (next, event) => some ((next, record notes st act next event), event)

variable {machine : Machine State Action Event}
variable {record : Notes → State → Action → State → Event → Notes}
variable {good : State → Action → Prop} {first last : State} {trace : List (Action × Event)}

theorem recorded_step {st : State} {notes : Notes} {act : Action} {after : State × Notes}
    {event : Event} :
    (machine.recorded record).step (st, notes) act = some (after, event) ↔
      machine.step st act = some (after.1, event) ∧
        after.2 = record notes st act after.1 event := by
  obtain ⟨next, notes'⟩ := after
  simp only [recorded]
  cases machine.step st act with
  | none => simp
  | some result =>
    obtain ⟨next', event'⟩ := result
    simp only [Option.some.injEq, Prod.mk.injEq]
    constructor
    · rintro ⟨⟨rfl, rfl⟩, rfl⟩
      exact ⟨⟨rfl, rfl⟩, rfl⟩
    · rintro ⟨⟨rfl, rfl⟩, rfl⟩
      exact ⟨⟨rfl, rfl⟩, rfl⟩

theorem RunWith.recorded (hrun : machine.RunWith good first trace last)
    (record : Notes → State → Action → State → Event → Notes) (notes : Notes) :
    ∃ notes', (machine.recorded record).RunWith (fun st act => good st.1 act)
      (first, notes) trace (last, notes') := by
  induction hrun generalizing notes with
  | nil st => exact ⟨notes, .nil _⟩
  | cons hgood hstep _ ih =>
    obtain ⟨notes', hrest⟩ := ih (record notes _ _ _ _)
    exact ⟨notes', .cons hgood (recorded_step.2 ⟨hstep, rfl⟩) hrest⟩

theorem RunWith.of_recorded {start final : State × Notes}
    {allowed : State × Notes → Action → Prop}
    (hrun : (machine.recorded record).RunWith allowed start trace final) :
    machine.Run start.1 trace final.1 := by
  induction hrun with
  | nil _ => exact .nil _
  | cons _ hstep _ ih => exact .cons trivial (recorded_step.1 hstep).1 ih

end Machine

end RtThread.Core
