import RtThread.Timer.Timer

set_option linter.all false

/-!
# The two checks on one list

`rt_timer_check` looks at the first timer of its list in every turn.
`rt_soft_timer_check` goes on with the node that followed the timer it has removed,
whatever the timeout function has done to that node in the meantime.  The two agree
exactly when, after every timeout function, that node is what the first place of the
list would have told.
-/

namespace RtThread.Timer

open RtThread.Core

variable {Id : Type*} [DecidableEq Id]
variable (cfg : Config) (kind : Kind) (callback : List Id → List (Op Id))

/-- The two checks have called the same timers in the same order, and if they have
returned they leave the same timers linked. -/
structure Agrees (soft hard : Pass Id) : Prop where
  called : soft.called = hard.called
  returned : soft.returned = hard.returned
  linked : hard.returned = true → ∀ id,
    id ∈ soft.state.rows kind cfg.bottom ↔ id ∈ hard.state.rows kind cfg.bottom

/-- Every timer the soft check calls is linked when it is called, so none that has been
stopped before in the same check. -/
def CallsLinked : ℕ → BitVec 32 → Option Id → List Id → State Id → Prop
  | 0, _, _, _, _ => True
  | fuel + 1, currentTick, n, called, st =>
    match due st currentTick n with
    | some id =>
      id ∈ st.rows kind cfg.bottom ∧
        CallsLinked fuel (expire cfg callback called st id).tick
          (nextNode cfg st kind id) (called ++ [id])
          (expire cfg callback called st id)
    | none => True

/-- The node `n` that followed the called timer: if its timer has expired it is the first
of the list, and if not, or if there was none, the first of the list has not
expired. -/
def Undisturbed (n : Option Id) (st : State Id) : Prop :=
  match n with
  | some id =>
    if expired st.tick (st.timers id) then firstTimer cfg st kind = some id
    else ∀ first ∈ firstTimer cfg st kind, expired st.tick (st.timers first) = false
  | none => ∀ first ∈ firstTimer cfg st kind, expired st.tick (st.timers first) = false

/-- Over the next `turns` turns of the hard check, no timeout function disturbs the node
that follows its timer. -/
def KeepsNext : ℕ → BitVec 32 → List Id → State Id → Prop
  | 0, _, _, _ => True
  | turns + 1, currentTick, called, st =>
    match due st currentTick (firstTimer cfg st kind) with
    | some id =>
      Undisturbed cfg kind (nextNode cfg st kind id)
          (expire cfg callback called st id) ∧
        KeepsNext turns (expire cfg callback called st id).tick (called ++ [id])
          (expire cfg callback called st id)
    | none => True

variable {cfg kind callback}

variable {st : State Id} {currentTick : BitVec 32}

omit [DecidableEq Id] in
theorem due_eq_none_iff {node : Option Id} : due st currentTick node = none ↔
      ∀ id ∈ node, expired currentTick (st.timers id) = false := by
  cases node with
  | none => simp [due]
  | some id => simp [due, Option.filter]

omit [DecidableEq Id] in
theorem due_eq_some_iff {node : Option Id} {id : Id} : due st currentTick node = some id ↔
      node = some id ∧ expired currentTick (st.timers id) = true := by
  rw [due, Option.filter_eq_some_iff]

variable {n : Option Id}

omit [DecidableEq Id] in
/-- An undisturbed node leads both checks to the same timer. -/
theorem undisturbed_iff : Undisturbed cfg kind n st ↔
      due st st.tick n = due st st.tick (firstTimer cfg st kind) := by
  cases n with
  | none =>
    have hnone : due st st.tick none = none := rfl
    rw [Undisturbed, hnone, eq_comm, due_eq_none_iff]
  | some id =>
    rw [Undisturbed]
    by_cases hexpired : expired st.tick (st.timers id) = true
    · have hdue : due st st.tick (some id) = some id :=
        due_eq_some_iff.2 ⟨rfl, hexpired⟩
      rw [if_pos hexpired, hdue, @eq_comm _ (some id), due_eq_some_iff]
      exact ⟨fun hfirst => ⟨hfirst, hexpired⟩, fun hfirst => hfirst.1⟩
    · have hdue : due st st.tick (some id) = none := by
        rw [due_eq_none_iff]
        intro other hother
        obtain rfl := Option.mem_some_iff.1 hother
        simpa using hexpired
      rw [if_neg hexpired, hdue, eq_comm, due_eq_none_iff]

variable {called : List Id}

/-- A check whose node is undisturbed all along is the hard check. -/
theorem softCheckLoop_eq {fuel : ℕ}
    (hnext : due st currentTick n = due st currentTick (firstTimer cfg st kind))
    (hkeeps : KeepsNext cfg kind callback fuel currentTick called st) :
    softCheckLoop cfg kind callback fuel currentTick n called st =
        checkLoop cfg kind callback fuel currentTick called st ∧
      CallsLinked cfg kind callback fuel currentTick n called st := by
  induction fuel generalizing currentTick n called st with
  | zero => exact ⟨rfl, trivial⟩
  | succ fuel ih =>
    rw [KeepsNext] at hkeeps
    rw [softCheckLoop, checkLoop, CallsLinked, hnext]
    cases hdue : due st currentTick (firstTimer cfg st kind) with
    | none => exact ⟨rfl, trivial⟩
    | some id =>
      rw [hdue] at hkeeps
      obtain ⟨hundisturbed, hkeeps⟩ := hkeeps
      have hrest := ih (undisturbed_iff.1 hundisturbed) hkeeps
      have hmem : id ∈ st.rows kind cfg.bottom :=
        List.mem_of_mem_head? (due_eq_some_iff.1 hdue).1
      exact ⟨hrest.1, hmem, hrest.2⟩

/-- Two checks that agree on their next turn look at the same timer. -/
theorem due_eq_of_agrees
    (hagrees : Agrees cfg kind
      (softCheckLoop cfg kind callback 1 currentTick n called st)
      (checkLoop cfg kind callback 1 currentTick called st)) :
    due st currentTick n = due st currentTick (firstTimer cfg st kind) := by
  have hcalled := hagrees.called
  have hreturned := hagrees.returned
  simp only [softCheckLoop, checkLoop] at hcalled hreturned
  cases hsoft : due st currentTick n with
  | none =>
    cases hhard : due st currentTick (firstTimer cfg st kind) with
    | none => rfl
    | some id => simp [hsoft, hhard] at hreturned
  | some id =>
    cases hhard : due st currentTick (firstTimer cfg st kind) with
    | none => simp [hsoft, hhard] at hreturned
    | some id' => simpa [hsoft, hhard] using hcalled

theorem keepsNext_of_agrees {turns : ℕ}
    (hagrees : ∀ fuel, Agrees cfg kind
      (softCheckLoop cfg kind callback fuel currentTick n called st)
      (checkLoop cfg kind callback fuel currentTick called st)) :
    KeepsNext cfg kind callback turns currentTick called st := by
  induction turns generalizing currentTick n called st with
  | zero => trivial
  | succ turns ih =>
    have hnext := due_eq_of_agrees (hagrees 1)
    rw [KeepsNext]
    cases hdue : due st currentTick (firstTimer cfg st kind) with
    | none => trivial
    | some id =>
      have hrest : ∀ fuel, Agrees cfg kind
          (softCheckLoop cfg kind callback fuel (expire cfg callback called st id).tick
            (nextNode cfg st kind id) (called ++ [id])
            (expire cfg callback called st id))
          (checkLoop cfg kind callback fuel (expire cfg callback called st id).tick
            (called ++ [id]) (expire cfg callback called st id)) := by
        intro fuel
        have hfuel := hagrees (fuel + 1)
        rwa [softCheckLoop, checkLoop, hnext, hdue] at hfuel
      exact ⟨undisturbed_iff.2 (due_eq_of_agrees (hrest 1)), ih hrest⟩

/-- The soft check agrees with the hard check on the same list at the same tick, and
calls no stopped timer, exactly when no timeout function of the check disturbs the node
that follows its timer. -/
theorem softTimerCheck_agrees_iff (cfg : Config) (callback : List Id → List (Op Id))
    (st : State Id) :
    (∀ fuel,
      Agrees cfg .soft (rtSoftTimerCheck cfg callback fuel st)
        (checkLoop cfg .soft callback fuel st.tick [] st) ∧
      CallsLinked cfg .soft callback fuel st.tick (firstTimer cfg st .soft) [] st) ↔
    ∀ turns, KeepsNext cfg .soft callback turns st.tick [] st := by
  constructor
  · intro hagrees turns
    exact keepsNext_of_agrees fun fuel => (hagrees fuel).1
  · intro hkeeps fuel
    obtain ⟨hsame, hlinked⟩ := softCheckLoop_eq rfl (hkeeps fuel)
    refine ⟨?_, hlinked⟩
    rw [rtSoftTimerCheck, hsame]
    exact ⟨rfl, rfl, fun _ _ => Iff.rfl⟩

/-- One row, with soft timers. -/
def withSoft : Config where
  level := 1
  level_pos := Nat.one_pos
  mask := 3
  usingTimerSoft := true

/-- The timeout function that is called first stops the second timer. -/
def stopsSecond (called : List (Fin 2)) : List (Op (Fin 2)) :=
  if called = [0] then [.stop 1] else []

/-- Two soft timers have been started for the current tick. -/
def twoExpired : State (Fin 2) :=
  { rtTimerStart withSoft (rtTimerStart withSoft
      (initial 0 (fun _ => 1) (fun _ => false) fun _ => true) 0) 1 with tick := 1 }

/-- Two soft timers have expired and the timeout function of the first stops the second:
the soft check calls the second all the same, the hard check returns. -/
theorem softTimerCheck_calls_stopped :
    (rtSoftTimerCheck withSoft stopsSecond 2 twoExpired).called = [0, 1] ∧
    (checkLoop withSoft .soft stopsSecond 2 twoExpired.tick [] twoExpired).called = [0] ∧
    ¬ (∀ fuel,
      Agrees withSoft .soft (rtSoftTimerCheck withSoft stopsSecond fuel twoExpired)
        (checkLoop withSoft .soft stopsSecond fuel twoExpired.tick [] twoExpired)) ∧
    ¬ CallsLinked withSoft .soft stopsSecond 2 twoExpired.tick
      (firstTimer withSoft twoExpired .soft) [] twoExpired := by
  have hsoft : (rtSoftTimerCheck withSoft stopsSecond 2 twoExpired).called = [0, 1] := rfl
  have hhard : (checkLoop withSoft .soft stopsSecond 2 twoExpired.tick [] twoExpired).called =
      [0] := rfl
  refine ⟨hsoft, hhard, fun hagrees => ?_, fun hlinked => ?_⟩
  · have hcalled := (hagrees 2).called
    rw [hsoft, hhard] at hcalled
    contradiction
  · have hsecond : (1 : Fin 2) ∈ ([] : List (Fin 2)) := hlinked.2.1
    contradiction

end RtThread.Timer
