import RtThread.Core.LayeredList
import RtThread.Core.Machine
import RtThread.Kernel.Thread

set_option linter.all false

/-!
# Timers

`timer.c`: the two timer lists, each a skip list, the operations on timers, the
check of the hard timers in the tick interrupt and that of the soft timers in the
timer thread.

A call of `rt_timer_start`, `rt_timer_stop` or `rt_timer_control` is one step.  A
check is a sequence of steps, because the timeout functions it calls may run any
timer operation: one step tests the first timer and removes it, and one follows
the return of its timeout function.  The hard check runs with interrupts disabled,
so between its steps only the timeout function it has called can act and the tick
stands still; the soft check may be interrupted anywhere.
-/

namespace RtThread.Timer

open RtThread.Core
open RtThread.Kernel

/-- `RT_TICK_MAX / 2`. -/
def halfTickMax : BitVec 32 := 0x7fffffff

/-- The build options of `timer.c`. -/
structure Config where
  /-- `RT_TIMER_SKIP_LIST_LEVEL`. -/
  level : ℕ
  level_pos : 0 < level
  /-- `RT_TIMER_SKIP_LIST_MASK`. -/
  mask : BitVec 32
  usingTimerSoft : Bool

/-- The last row, which holds every timer of a list. -/
def Config.bottom (cfg : Config) : ℕ :=
  cfg.level - 1

/-- `rt_timer_list` and `rt_soft_timer_list`. -/
inductive Kind
  | hard | soft
  deriving DecidableEq

/-- `struct rt_timer` with the bits of its flag. -/
structure RtTimer where
  timeoutTick : BitVec 32
  initTick : BitVec 32
  /-- `RT_TIMER_FLAG_ACTIVATED`. -/
  activated : Bool
  /-- `RT_TIMER_FLAG_PERIODIC`. -/
  periodic : Bool
  /-- `RT_TIMER_FLAG_SOFT_TIMER`. -/
  softTimer : Bool

/-- `_rt_timer_init`. -/
def rtTimerInit (time : BitVec 32) (periodic softTimer : Bool) : RtTimer where
  timeoutTick := 0
  initTick := time
  activated := false
  periodic := periodic
  softTimer := softTimer

/-- Where `rt_timer_check` stands. -/
inductive HardPhase (Id : Type*)
  | idle
  /-- At the head of its loop. -/
  | checking (currentTick : BitVec 32)
  /-- In the timeout function of a timer. -/
  | calling (id : Id)
  deriving DecidableEq

/-- The timer whose timeout function runs. -/
def HardPhase.timer {Id : Type*} : HardPhase Id → Option Id
  | .calling id => some id
  | _ => none

/-- Where `rt_soft_timer_check` stands, with the node it goes on with; `none` is the
list head. -/
inductive SoftPhase (Id : Type*)
  | idle
  | checking (currentTick : BitVec 32) (n : Option Id)
  | calling (id : Id) (n : Option Id)

def SoftPhase.timer {Id : Type*} : SoftPhase Id → Option Id
  | .calling id _ => some id
  | _ => none

structure State (Id : Type*) where
  tick : BitVec 32
  timers : Id → RtTimer
  /-- The rows of the two lists. -/
  rows : Kind → ℕ → List Id
  /-- The static counter of `rt_timer_start`. -/
  randomNr : BitVec 32
  hard : HardPhase Id
  soft : SoftPhase Id

variable {Id : Type*}

/-- The timers have been initialised and none is started. -/
def initial (tick : BitVec 32) (time : Id → BitVec 32) (periodic softTimer : Id → Bool) :
    State Id where
  tick := tick
  timers := fun id => rtTimerInit (time id) (periodic id) (softTimer id)
  rows := fun _ _ => []
  randomNr := 0
  hard := .idle
  soft := .idle

/-- The list a timer is started in. -/
def Config.kind (cfg : Config) (timer : RtTimer) : Kind :=
  if cfg.usingTimerSoft && timer.softTimer then .soft else .hard

/-- The timer has reached its timeout tick: `current_tick - timeout_tick` is less than
half the range of ticks. -/
def expired (currentTick : BitVec 32) (timer : RtTimer) : Bool :=
  currentTick - timer.timeoutTick < halfTickMax

/-- The insertion of `timer` stops before a timer with a later timeout tick, not before
one with the same. -/
def stops (timer next : RtTimer) : Bool :=
  next.timeoutTick - timer.timeoutTick ≠ 0 && next.timeoutTick - timer.timeoutTick < halfTickMax

/-- The number of rows above the bottom one, out of `rows`, that get the new timer. -/
def extraRows (mask : BitVec 32) : ℕ → BitVec 32 → ℕ
  | 0, _ => 0
  | rows + 1, tstNr =>
    if tstNr &&& mask = 0 then extraRows mask rows (tstNr >>> ((mask + 1) >>> 1)) + 1 else 0

/-- The rows a start links the timer in: the bottom row, and as many above it as the
bits of the counter allow. -/
def LinkedRow (cfg : Config) (randomNr : BitVec 32) (row : ℕ) : Prop :=
  row ≤ cfg.bottom ∧ cfg.bottom ≤ row + extraRows cfg.mask cfg.bottom randomNr

instance (cfg : Config) (randomNr : BitVec 32) (row : ℕ) :
    Decidable (LinkedRow cfg randomNr row) :=
  inferInstanceAs (Decidable (_ ∧ _))

@[simp]
theorem linkedRow_bottom (cfg : Config) (randomNr : BitVec 32) :
    LinkedRow cfg randomNr cfg.bottom :=
  ⟨le_rfl, Nat.le_add_right _ _⟩

variable [DecidableEq Id]

def setTimer (st : State Id) (id : Id) (operation : RtTimer → RtTimer) : State Id :=
  { st with timers := Function.update st.timers id (operation (st.timers id)) }

/-- `_rt_timer_remove`. -/
def timerRemove (st : State Id) (id : Id) : State Id :=
  { st with rows := fun kind row => (st.rows kind row).erase id }

def setActivated (st : State Id) (id : Id) (activated : Bool) : State Id :=
  setTimer st id fun timer => { timer with activated := activated }

/-- The new timeout tick, counted from now. -/
def setTimeout (st : State Id) (id : Id) : State Id :=
  setTimer st id fun timer => { timer with timeoutTick := st.tick + timer.initTick }

/-- The search for the place of a timer, and its insertion into the bottom row and
some of the rows above it. -/
def linkTimer (cfg : Config) (st : State Id) (id : Id) : State Id :=
  let list := cfg.kind (st.timers id)
  let rowHead := LayeredList.search
    (fun next => stops (st.timers id) (st.timers next)) (st.rows list)
  { st with
    randomNr := st.randomNr + 1
    rows := fun kind row =>
      if kind = list ∧ LinkedRow cfg (st.randomNr + 1) row then
        LayeredList.insertAfter (st.rows kind row) (rowHead row) id
      else st.rows kind row }

/-- The first half of `rt_timer_start`: the timer is stopped and gets its timeout tick. -/
def beginStart (st : State Id) (id : Id) : State Id :=
  setTimeout (setActivated (timerRemove st id) id false) id

/-- `rt_timer_start`. -/
def rtTimerStart (cfg : Config) (st : State Id) (id : Id) : State Id :=
  setActivated (linkTimer cfg (beginStart st id) id) id true

/-- `rt_timer_stop`. -/
def rtTimerStop (st : State Id) (id : Id) : State Id × Err :=
  if (st.timers id).activated then (setActivated (timerRemove st id) id false, .eok)
  else (st, .error)

inductive Cmd
  | getTime
  | setTime (time : BitVec 32)
  | setOneshot
  | setPeriodic

/-- `rt_timer_control`. -/
def rtTimerControl (st : State Id) (id : Id) : Cmd → State Id
  | .getTime => st
  | .setTime time => setTimer st id fun timer => { timer with initTick := time }
  | .setOneshot => setTimer st id fun timer => { timer with periodic := false }
  | .setPeriodic => setTimer st id fun timer => { timer with periodic := true }

/-- A timer is started again after its timeout function. -/
def rearms (timer : RtTimer) : Bool :=
  timer.periodic && timer.activated

/-- What follows the return of a timeout function in both checks. -/
def endExpiry (cfg : Config) (st : State Id) (id : Id) : State Id :=
  if rearms (st.timers id) then rtTimerStart cfg (setActivated st id false) id
  else setActivated st id false

/-- The first timer of a list. -/
def firstTimer (cfg : Config) (st : State Id) (kind : Kind) : Option Id :=
  (st.rows kind cfg.bottom).head?

/-- `node->next` in the bottom row: a node that is not linked points to itself. -/
def nextNode (cfg : Config) (st : State Id) (kind : Kind) (id : Id) : Option Id :=
  if id ∈ st.rows kind cfg.bottom then
    (LayeredList.behind (st.rows kind cfg.bottom) (some id)).head?
  else some id

/-- The node a check looks at, if there is one and its timer has expired. -/
def due (st : State Id) (currentTick : BitVec 32) (node : Option Id) : Option Id :=
  node.filter fun id => expired currentTick (st.timers id)

/-! ## What the operations do -/

section Fields

variable (cfg : Config) (st : State Id) (id : Id)

@[simp]
theorem tick_setTimer (operation : RtTimer → RtTimer) :
    (setTimer st id operation).tick = st.tick := rfl

@[simp]
theorem rows_setTimer (operation : RtTimer → RtTimer) :
    (setTimer st id operation).rows = st.rows := rfl

@[simp]
theorem timers_setTimer (operation : RtTimer → RtTimer) :
    (setTimer st id operation).timers id = operation (st.timers id) := by
  simp [setTimer]

theorem timers_setTimer_of_ne (operation : RtTimer → RtTimer) {other : Id} (hne : other ≠ id) :
    (setTimer st id operation).timers other = st.timers other := by
  simp [setTimer, hne]

@[simp]
theorem tick_timerRemove : (timerRemove st id).tick = st.tick := rfl

@[simp]
theorem timers_timerRemove : (timerRemove st id).timers = st.timers := rfl

@[simp]
theorem rows_timerRemove (kind : Kind) (row : ℕ) :
    (timerRemove st id).rows kind row = (st.rows kind row).erase id := rfl

@[simp]
theorem tick_rtTimerStart : (rtTimerStart cfg st id).tick = st.tick := rfl

@[simp]
theorem hard_rtTimerStart : (rtTimerStart cfg st id).hard = st.hard := rfl

@[simp]
theorem soft_rtTimerStart : (rtTimerStart cfg st id).soft = st.soft := rfl

/-- A started timer is active and times out `init_tick` ticks from now. -/
@[simp]
theorem timers_rtTimerStart :
    (rtTimerStart cfg st id).timers id =
      { st.timers id with
        timeoutTick := st.tick + (st.timers id).initTick
        activated := true } := by
  simp [rtTimerStart, beginStart, setActivated, linkTimer, setTimeout, setTimer, timerRemove]

theorem timers_rtTimerStart_of_ne {other : Id} (hne : other ≠ id) :
    (rtTimerStart cfg st id).timers other = st.timers other := by
  simp [rtTimerStart, beginStart, setActivated, linkTimer, setTimeout, setTimer, timerRemove, hne]

@[simp]
theorem randomNr_beginStart : (beginStart st id).randomNr = st.randomNr := rfl

@[simp]
theorem rows_beginStart (kind : Kind) (row : ℕ) :
    (beginStart st id).rows kind row = (st.rows kind row).erase id := rfl

@[simp]
theorem timers_beginStart :
    (beginStart st id).timers id =
      { st.timers id with
        timeoutTick := st.tick + (st.timers id).initTick
        activated := false } := by
  simp [beginStart, setActivated, setTimeout]

theorem rtTimerStart_setActivated (activated : Bool) :
    rtTimerStart cfg (setActivated st id activated) id = rtTimerStart cfg st id := by
  have hbegin : beginStart (setActivated st id activated) id = beginStart st id := by
    simp [beginStart, setTimeout, setActivated, setTimer, timerRemove]
  rw [rtTimerStart, rtTimerStart, hbegin]

@[simp]
theorem tick_endExpiry : (endExpiry cfg st id).tick = st.tick := by
  rw [endExpiry]
  split <;> rfl

@[simp]
theorem hard_endExpiry : (endExpiry cfg st id).hard = st.hard := by
  rw [endExpiry]
  split <;> rfl

@[simp]
theorem soft_endExpiry : (endExpiry cfg st id).soft = st.soft := by
  rw [endExpiry]
  split <;> rfl

/-- A start leaves every other timer where it is, and links this one in some rows of
its own list. -/
theorem perm_rtTimerStart (kind : Kind) (row : ℕ) :
    ((rtTimerStart cfg st id).rows kind row).Perm
      (if kind = cfg.kind (st.timers id) ∧ LinkedRow cfg (st.randomNr + 1) row then
        id :: (st.rows kind row).erase id
      else (st.rows kind row).erase id) := by
  have hkind : cfg.kind ((beginStart st id).timers id) = cfg.kind (st.timers id) := by
    simp [Config.kind]
  simp only [rtTimerStart, setActivated, rows_setTimer, linkTimer, hkind, randomNr_beginStart,
    rows_beginStart]
  by_cases hlist : kind = cfg.kind (st.timers id) ∧ LinkedRow cfg (st.randomNr + 1) row
  · rw [if_pos hlist, if_pos hlist]
    exact LayeredList.perm_insertAfter _ _ _
  · rw [if_neg hlist, if_neg hlist]

variable {st} in
theorem erase_rtTimerStart (hnodup : ∀ kind row, (st.rows kind row).Nodup) (kind : Kind)
    (row : ℕ) :
    ((rtTimerStart cfg st id).rows kind row).erase id = (st.rows kind row).erase id := by
  have hnot : id ∉ (st.rows kind row).erase id := (hnodup kind row).not_mem_erase
  simp only [rtTimerStart, setActivated, rows_setTimer, linkTimer, rows_beginStart]
  split
  · exact LayeredList.erase_insertAfter hnot _
  · exact List.erase_of_not_mem hnot

variable {st} in
theorem nodup_rtTimerStart (hnodup : ∀ kind row, (st.rows kind row).Nodup) (kind : Kind)
    (row : ℕ) : ((rtTimerStart cfg st id).rows kind row).Nodup := by
  rw [(perm_rtTimerStart cfg st id kind row).nodup_iff]
  have herase := (hnodup kind row).erase id
  split
  · exact List.nodup_cons.2 ⟨(hnodup kind row).not_mem_erase, herase⟩
  · exact herase

variable {st} in
/-- The timers linked in the bottom rows after a start. -/
theorem mem_bottom_rtTimerStart (hnodup : ∀ kind row, (st.rows kind row).Nodup)
    (kind : Kind) (other : Id) :
    other ∈ (rtTimerStart cfg st id).rows kind cfg.bottom ↔
      if other = id then kind = cfg.kind (st.timers id)
      else other ∈ st.rows kind cfg.bottom := by
  rw [(perm_rtTimerStart cfg st id kind cfg.bottom).mem_iff]
  by_cases hne : other = id
  · subst hne
    by_cases hkind : kind = cfg.kind (st.timers other)
    · simp [hkind]
    · simp [hkind, (hnodup kind cfg.bottom).not_mem_erase]
  · by_cases hkind : kind = cfg.kind (st.timers id)
    · simp [hne, hkind]
    · simp [hne, hkind]

end Fields

inductive Op (Id : Type*)
  | start (id : Id)
  | stop (id : Id)
  | control (id : Id) (cmd : Cmd)

inductive Action (Id : Type*)
  /-- A call by a thread, an interrupt handler or the timeout function that runs. -/
  | op (op : Op Id)
  /-- `rt_tick_increase`, which goes on to `rt_timer_check`. -/
  | tick
  /-- Another call of `rt_timer_check`. -/
  | check
  /-- `rt_timer_check` tests the first timer. -/
  | loop
  /-- The timeout function `rt_timer_check` has called returns. -/
  | finish
  /-- The timer thread calls `rt_soft_timer_check`. -/
  | softCheck
  | softLoop
  | softFinish

inductive Event (Id : Type*)
  | started (id : Id)
  | stopped (id : Id)
  /-- `rt_timer_stop` returns `-RT_ERROR`. -/
  | stopRefused (id : Id)
  | controlled (id : Id)
  | ticked
  | entered
  /-- The timeout function of a timer is called. -/
  | called (id : Id)
  /-- A periodic timer is started again. -/
  | rearmed (id : Id)
  /-- A timer is left inactive. -/
  | expired (id : Id)
  | left

def runOp (cfg : Config) (st : State Id) : Op Id → State Id × Event Id
  | .start id => (rtTimerStart cfg st id, .started id)
  | .stop id =>
    ((rtTimerStop st id).1,
      if (rtTimerStop st id).2 = .eok then .stopped id else .stopRefused id)
  | .control id cmd => (rtTimerControl st id cmd, .controlled id)

section RunOp

variable (cfg : Config) (st : State Id)

theorem hard_runOp (op : Op Id) : (runOp cfg st op).1.hard = st.hard := by
  cases op with
  | start id => rfl
  | stop id =>
    simp only [runOp, rtTimerStop]
    split <;> rfl
  | control id cmd => cases cmd <;> rfl

theorem soft_runOp (op : Op Id) : (runOp cfg st op).1.soft = st.soft := by
  cases op with
  | start id => rfl
  | stop id =>
    simp only [runOp, rtTimerStop]
    split <;> rfl
  | control id cmd => cases cmd <;> rfl

theorem kind_setTimer {id : Id} {operation : RtTimer → RtTimer}
    (hsame : ∀ timer, (operation timer).softTimer = timer.softTimer) (other : Id) :
    cfg.kind ((setTimer st id operation).timers other) =
      cfg.kind (st.timers other) := by
  by_cases hne : other = id
  · rw [hne, timers_setTimer, Config.kind, Config.kind, hsame]
  · rw [timers_setTimer_of_ne st id operation hne]

theorem kind_rtTimerStart (id other : Id) :
    cfg.kind ((rtTimerStart cfg st id).timers other) =
      cfg.kind (st.timers other) := by
  by_cases hne : other = id
  · rw [hne, timers_rtTimerStart, Config.kind, Config.kind]
  · rw [timers_rtTimerStart_of_ne cfg st id hne]

theorem kind_runOp (op : Op Id) (other : Id) :
    cfg.kind ((runOp cfg st op).1.timers other) = cfg.kind (st.timers other) := by
  cases op with
  | start id => exact kind_rtTimerStart cfg st id other
  | stop id =>
    simp only [runOp, rtTimerStop, setActivated]
    split
    · rw [kind_setTimer]
      · rfl
      · exact fun _ => rfl
    · rfl
  | control id cmd =>
    cases cmd with
    | getTime => rfl
    | setTime time =>
      simp only [runOp, rtTimerControl]
      rw [kind_setTimer]
      exact fun _ => rfl
    | setOneshot =>
      simp only [runOp, rtTimerControl]
      rw [kind_setTimer]
      exact fun _ => rfl
    | setPeriodic =>
      simp only [runOp, rtTimerControl]
      rw [kind_setTimer]
      exact fun _ => rfl

theorem kind_endExpiry (id other : Id) :
    cfg.kind ((endExpiry cfg st id).timers other) =
      cfg.kind (st.timers other) := by
  rw [endExpiry]
  split
  · rw [rtTimerStart_setActivated]
    exact kind_rtTimerStart cfg st id other
  · rw [setActivated, kind_setTimer]
    exact fun _ => rfl

end RunOp

def endEvent (st : State Id) (id : Id) : Event Id :=
  if rearms (st.timers id) then .rearmed id else .expired id

def step (cfg : Config) (st : State Id) : Action Id → Option (State Id × Event Id)
  | .op op =>
    match st.hard with
    | .checking _ => none
    | _ => some (runOp cfg st op)
  | .tick =>
    match st.hard with
    | .idle => some ({ st with tick := st.tick + 1, hard := .checking (st.tick + 1) },
        .ticked)
    | _ => none
  | .check =>
    match st.hard with
    | .idle => some ({ st with hard := .checking st.tick }, .entered)
    | _ => none
  | .loop =>
    match st.hard with
    | .checking currentTick =>
      match due st currentTick (firstTimer cfg st .hard) with
      | some id => some ({ timerRemove st id with hard := .calling id }, .called id)
      | none => some ({ st with hard := .idle }, .left)
    | _ => none
  | .finish =>
    match st.hard with
    | .calling id =>
      some ({ endExpiry cfg st id with hard := .checking st.tick },
        endEvent st id)
    | _ => none
  | .softCheck =>
    match st.hard, st.soft with
    | .idle, .idle =>
      some ({ st with soft := .checking st.tick (firstTimer cfg st .soft) },
        .entered)
    | _, _ => none
  | .softLoop =>
    match st.hard, st.soft with
    | .idle, .checking currentTick n =>
      match due st currentTick n with
      | some id =>
        some ({ timerRemove st id with
          soft := .calling id (nextNode cfg st .soft id) }, .called id)
      | none => some ({ st with soft := .idle }, .left)
    | _, _ => none
  | .softFinish =>
    match st.hard, st.soft with
    | .idle, .calling id n =>
      some ({ endExpiry cfg st id with soft := .checking st.tick n },
        endEvent st id)
    | _, _ => none

def machine (cfg : Config) : Machine (State Id) (Action Id) (Event Id) where
  step := step cfg

/-! ## Whole checks

A timeout function is given by the operations it runs, which may depend on all
timers called before in the same check. -/

/-- The timers a check has called so far, whether it has returned, and the state. -/
structure Pass (Id : Type*) where
  called : List Id
  returned : Bool
  state : State Id

def runCallback (cfg : Config) (st : State Id) (ops : List (Op Id)) : State Id :=
  ops.foldl (fun st op => (runOp cfg st op).1) st

/-- One turn of the loop: the timer is removed, its timeout function runs, and the
flag is updated. -/
def expire (cfg : Config) (callback : List Id → List (Op Id)) (called : List Id)
    (st : State Id) (id : Id) : State Id :=
  endExpiry cfg (runCallback cfg (timerRemove st id) (callback (called ++ [id]))) id

/-- The loop of `rt_timer_check`, on either list. -/
def checkLoop (cfg : Config) (kind : Kind) (callback : List Id → List (Op Id)) :
    ℕ → BitVec 32 → List Id → State Id → Pass Id
  | 0, _, called, st => ⟨called, false, st⟩
  | fuel + 1, currentTick, called, st =>
    match due st currentTick (firstTimer cfg st kind) with
    | some id =>
      let next := expire cfg callback called st id
      checkLoop cfg kind callback fuel next.tick (called ++ [id]) next
    | none => ⟨called, true, st⟩

/-- `rt_timer_check`. -/
def rtTimerCheck (cfg : Config) (callback : List Id → List (Op Id)) (fuel : ℕ)
    (st : State Id) : Pass Id :=
  checkLoop cfg .hard callback fuel st.tick [] st

/-- The loop of `rt_soft_timer_check`, on either list. -/
def softCheckLoop (cfg : Config) (kind : Kind) (callback : List Id → List (Op Id)) :
    ℕ → BitVec 32 → Option Id → List Id → State Id → Pass Id
  | 0, _, _, called, st => ⟨called, false, st⟩
  | fuel + 1, currentTick, n, called, st =>
    match due st currentTick n with
    | some id =>
      let next := expire cfg callback called st id
      softCheckLoop cfg kind callback fuel next.tick (nextNode cfg st kind id)
        (called ++ [id]) next
    | none => ⟨called, true, st⟩

/-- `rt_soft_timer_check`. -/
def rtSoftTimerCheck (cfg : Config) (callback : List Id → List (Op Id)) (fuel : ℕ)
    (st : State Id) : Pass Id :=
  softCheckLoop cfg .soft callback fuel st.tick (firstTimer cfg st .soft) [] st

end RtThread.Timer
