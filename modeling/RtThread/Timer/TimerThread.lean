import RtThread.Timer.TimerOrder

set_option linter.all false

/-!
# The timer thread

`rt_thread_timer_entry` reads the timeout tick of the first soft timer, suspends itself
or delays, and then checks the soft timers.  Nothing locks the list between the reading
and the wait, so that other threads and interrupts may start and stop timers there.

`rt_timer_list_next_timeout` answers `RT_TICK_MAX` for an empty list, which is also the
timeout tick of a timer.  For every other value the thread waits no longer than any timer
of the list, as long as its first timer is the earliest: the list is sorted as long as
no timer is overdue by half the range of ticks, and none is started that far behind one
that is overdue.
-/

namespace RtThread.Timer

open RtThread.Core
open RtThread.Core.WrapClock
open RtThread.Core.LayeredList

variable {Id : Type*}

/-- `RT_TICK_MAX`. -/
def tickMax : BitVec 32 := 0xffffffff

/-- `rt_timer_list_next_timeout`. -/
def rtTimerListNextTimeout (cfg : Config) (st : State Id) (kind : Kind) : BitVec 32 :=
  match firstTimer cfg st kind with
  | none => tickMax
  | some id => (st.timers id).timeoutTick

/-- What the timer thread does before its check. -/
inductive Wait
  /-- `rt_thread_suspend` of itself, without a timeout. -/
  | suspend
  /-- `rt_thread_delay`. -/
  | delay (tick : BitVec 32)
  | check
  deriving DecidableEq

/-- The branches of `rt_thread_timer_entry`. -/
def timerEntryWait (currentTick nextTimeout : BitVec 32) : Wait :=
  if nextTimeout = tickMax then .suspend
  else if nextTimeout - currentTick < halfTickMax then .delay (nextTimeout - currentTick)
  else .check

/-- Where `rt_thread_timer_entry` stands. -/
inductive EntryPhase
  /-- At the head of its loop. -/
  | loop
  /-- Behind the call of `rt_timer_list_next_timeout`. -/
  | read (nextTimeout : BitVec 32)
  | suspended
  | delayed
  /-- On the way into `rt_soft_timer_check`, or in it. -/
  | checking
  deriving DecidableEq

/-- The tick the thread goes on with. -/
def EntryPhase.nextTimeout : EntryPhase → Option (BitVec 32)
  | .read nextTimeout => some nextTimeout
  | _ => none

/-- `rt_thread_resume` of the timer thread, if it is suspended. -/
def EntryPhase.resumed : EntryPhase → EntryPhase
  | .suspended | .delayed => .checking
  | phase => phase

def EntryPhase.ofWait : Wait → EntryPhase
  | .suspend => .suspended
  | .delay _ => .delayed
  | .check => .checking

/-- The timers and the timer thread. -/
structure EntryState (Id : Type*) where
  timers : State Id
  entry : EntryPhase

def entryInitial (tick : BitVec 32) (time : Id → BitVec 32) (periodic softTimer : Id → Bool) :
    EntryState Id where
  timers := initial tick time periodic softTimer
  entry := .loop

inductive EntryAction (Id : Type*)
  | timer (act : Action Id)
  /-- The thread calls `rt_timer_list_next_timeout`. -/
  | nextTimeout
  /-- The thread suspends itself, delays or goes on to the check. -/
  | wait
  /-- The delay is over, or another thread resumes the timer thread. -/
  | wake

inductive EntryEvent (Id : Type*)
  | timer (event : Event Id)
  | read (nextTimeout : BitVec 32)
  | waits (wait : Wait)
  | woken

/-- Only the timer thread runs the soft check. -/
def Action.ofTimerThread : Action Id → Bool
  | .softCheck | .softLoop | .softFinish => true
  | _ => false

/-- The thread after an action: the start of a soft timer resumes it, and it goes back to its
loop at the end of its check. -/
def entryAfter (cfg : Config) (st : EntryState Id) (act : Action Id)
    (event : Event Id) : EntryPhase :=
  match act, event with
  | .op (.start id), _ =>
    if cfg.kind (st.timers.timers id) = .soft then st.entry.resumed else st.entry
  | .softLoop, .left => .loop
  | _, _ => st.entry

variable [DecidableEq Id]

def entryStep (cfg : Config) (st : EntryState Id) :
    EntryAction Id → Option (EntryState Id × EntryEvent Id)
  | .timer act =>
    if act.ofTimerThread ∧ st.entry ≠ .checking then none
    else
      match step cfg st.timers act with
      | none => none
      | some (timers, event) =>
        some (⟨timers, entryAfter cfg st act event⟩, .timer event)
  | .nextTimeout =>
    match st.timers.hard, st.entry with
    | .idle, .loop =>
      let nextTimeout := rtTimerListNextTimeout cfg st.timers .soft
      some ({ st with entry := .read nextTimeout }, .read nextTimeout)
    | _, _ => none
  | .wait =>
    match st.timers.hard, st.entry with
    | .idle, .read nextTimeout =>
      let wait := timerEntryWait st.timers.tick nextTimeout
      some ({ st with entry := .ofWait wait }, .waits wait)
    | _, _ => none
  | .wake =>
    match st.entry with
    | .suspended | .delayed => some ({ st with entry := .checking }, .woken)
    | _ => none

def entryMachine (cfg : Config) :
    Machine (EntryState Id) (EntryAction Id) (EntryEvent Id) where
  step := entryStep cfg

/-! ## The list of soft timers -/

/-- The list of soft timers, in the order of their timeouts, none of them before the tick that
the timer thread has read. -/
structure SoftListInv (cfg : Config) (read : Option (BitVec 32)) (st : State Id) :
    Prop where
  nodup : ∀ kind row, (st.rows kind row).Nodup
  own : ∀ kind row, ∀ id ∈ st.rows kind row, kind = cfg.kind (st.timers id)
  layered : Layered (st.rows .soft) cfg.level
  sorted : ∀ row, row < cfg.level → (st.rows .soft row).Pairwise
    fun left right => timeLeft st left ≤ timeLeft st right
  ahead : ∀ id ∈ st.rows .soft cfg.bottom, timeLeft st id ≤ 0x7ffffffe
  floor : ∀ next ∈ read, ∀ id ∈ st.rows .soft cfg.bottom,
    next ≠ tickMax ∧ distance st.tick next ≤ timeLeft st id
  fits : ∀ id, (st.timers id).initTick < halfTickMax

/-- A soft timer may be started: it is less than half the range behind the timers of the list,
and not before a tick that the timer thread has read but not yet waited for. -/
def StartFits (cfg : Config) (read : Option (BitVec 32)) (st : State Id) (id : Id) :
    Prop :=
  cfg.kind (st.timers id) = .soft →
    (∀ other ∈ st.rows .soft cfg.bottom, other ≠ id →
      ((st.timers id).initTick.toNat : ℤ) - timeLeft st other ≤ 0x80000001) ∧
    ∀ next ∈ read, next ≠ tickMax ∧
      distance st.tick next ≤ (st.timers id).initTick.toNat

/-- The tick may advance: neither a timer of the list nor the tick that the thread has read is
half the range back. -/
def TickFits (cfg : Config) (read : Option (BitVec 32)) (st : State Id) : Prop :=
  (∀ id ∈ st.rows .soft cfg.bottom, -0x80000000 < timeLeft st id) ∧
  ∀ next ∈ read, next ≠ tickMax → -0x80000000 < distance st.tick next

variable {cfg : Config} {read : Option (BitVec 32)} {st : State Id}

namespace SoftListInv

omit [DecidableEq Id] in
theorem mem_bottom (hinv : SoftListInv cfg read st) {row : ℕ} (hrow : row < cfg.level)
    {id : Id} (hmem : id ∈ st.rows .soft row) : id ∈ st.rows .soft cfg.bottom := by
  have hlevel : cfg.bottom + 1 = cfg.level := Nat.sub_add_cancel cfg.level_pos
  have hlayered : Layered (st.rows .soft) (cfg.bottom + 1) := hlevel ▸ hinv.layered
  exact (hlayered.sublist_bottom (by omega)).subset hmem

omit [DecidableEq Id] in
theorem unread (hinv : SoftListInv cfg read st) : SoftListInv cfg none st :=
  { hinv with floor := fun _ hnext => by cases hnext }

omit [DecidableEq Id] in
/-- The list depends on the ticks of the linked timers only. -/
theorem congr {next : State Id} (hinv : SoftListInv cfg read st)
    (hrows : next.rows = st.rows) (htick : next.tick = st.tick)
    (hkind : ∀ id, cfg.kind (next.timers id) = cfg.kind (st.timers id))
    (htimeout : ∀ row, ∀ id ∈ st.rows .soft row,
      (next.timers id).timeoutTick = (st.timers id).timeoutTick)
    (hfits : ∀ id, (next.timers id).initTick < halfTickMax) : SoftListInv cfg read next := by
  have hleft : ∀ row, ∀ id ∈ st.rows .soft row, timeLeft next id = timeLeft st id := by
    intro row id hmem
    rw [timeLeft, timeLeft, htick, htimeout row id hmem]
  refine ⟨fun kind row => ?_, fun kind row id hmem => ?_, ?_, fun row hrow => ?_,
    fun id hmem => ?_, fun tick hread id hmem => ?_, hfits⟩
  · rw [hrows]
    exact hinv.nodup kind row
  · rw [hrows] at hmem
    rw [hkind]
    exact hinv.own kind row id hmem
  · rw [hrows]
    exact hinv.layered
  · rw [hrows]
    refine List.Pairwise.imp_of_mem (fun {left right} hleftMem hrightMem hle => ?_)
      (hinv.sorted row hrow)
    rw [hleft row left hleftMem, hleft row right hrightMem]
    exact hle
  · rw [hrows] at hmem
    rw [hleft _ id hmem]
    exact hinv.ahead id hmem
  · rw [hrows] at hmem
    rw [htick, hleft _ id hmem]
    exact hinv.floor tick hread id hmem

omit [DecidableEq Id] in
theorem setPhases (hinv : SoftListInv cfg read st) (hard : HardPhase Id)
    (soft : SoftPhase Id) :
    SoftListInv cfg read { st with hard := hard, soft := soft } :=
  hinv.congr rfl rfl (fun _ => rfl) (fun _ _ _ => rfl) hinv.fits

theorem timerRemove (hinv : SoftListInv cfg read st) (id : Id) :
    SoftListInv cfg read (timerRemove st id) := by
  have hmem : ∀ {kind row other}, other ∈ (Timer.timerRemove st id).rows kind row →
      other ∈ st.rows kind row := fun hother => List.mem_of_mem_erase hother
  exact ⟨fun kind row => (hinv.nodup kind row).erase id,
    fun kind row other hother => hinv.own kind row other (hmem hother), hinv.layered.erase id,
    fun row hrow => (hinv.sorted row hrow).sublist List.erase_sublist,
    fun other hother => hinv.ahead other (hmem hother),
    fun next hread other hother => hinv.floor next hread other (hmem hother), hinv.fits⟩

/-- A setting of a timer that concerns neither its list nor, while it is linked, its
place in it. -/
theorem setTimer (hinv : SoftListInv cfg read st) {id : Id} {operation : RtTimer → RtTimer}
    (hkind : cfg.kind (operation (st.timers id)) = cfg.kind (st.timers id))
    (htimeout : (∀ row, id ∉ st.rows .soft row) ∨
      (operation (st.timers id)).timeoutTick = (st.timers id).timeoutTick)
    (hfits : (operation (st.timers id)).initTick < halfTickMax) :
    SoftListInv cfg read (setTimer st id operation) := by
  refine hinv.congr rfl rfl (fun other => ?_) (fun row other hmem => ?_) (fun other => ?_)
  · by_cases hne : other = id
    · subst hne
      rw [timers_setTimer, hkind]
    · rw [timers_setTimer_of_ne st id operation hne]
  · by_cases hne : other = id
    · subst hne
      rw [timers_setTimer]
      exact htimeout.resolve_left fun hnot => hnot row hmem
    · rw [timers_setTimer_of_ne st id operation hne]
  · by_cases hne : other = id
    · subst hne
      rwa [timers_setTimer]
    · rw [timers_setTimer_of_ne st id operation hne]
      exact hinv.fits other

theorem setActivated (hinv : SoftListInv cfg read st) (id : Id) (activated : Bool) :
    SoftListInv cfg read (setActivated st id activated) :=
  hinv.setTimer rfl (.inr rfl) (hinv.fits id)

section Link

variable (hinv : SoftListInv cfg read st) {id : Id}
  (hahead : 0 ≤ timeLeft st id ∧ timeLeft st id ≤ 0x7ffffffe)
  (hspan : ∀ other ∈ st.rows .soft cfg.bottom,
    timeLeft st id - timeLeft st other ≤ 0x80000001)

include hinv hahead hspan

variable {row : ℕ}

omit [DecidableEq Id] in
/-- The insertion of a timer stops exactly before those that time out later. -/
theorem stops_iff (hrow : row < cfg.level) {other : Id} (hmem : other ∈ st.rows .soft row) :
    stops (st.timers id) (st.timers other) = true ↔
      timeLeft st id < timeLeft st other := by
  have hbottom := hinv.mem_bottom hrow hmem
  have hhigh := hinv.ahead other hbottom
  have hlow := hspan other hbottom
  have hcompare := @lt_iff_sub_of_span st.tick (st.timers id).timeoutTick
    (st.timers other).timeoutTick
  rw [← timeLeft, ← timeLeft] at hcompare
  rw [← hcompare (by omega) (by omega)]
  simp only [stops, Bool.and_eq_true, decide_eq_true_eq]
  rfl

omit [DecidableEq Id] in
theorem monotone_stops (hrow : row < cfg.level) :
    Monotone (fun next => stops (st.timers id) (st.timers next)) (st.rows .soft row) := by
  refine List.Pairwise.imp_of_mem (fun {left right} hleft hright hle => ?_) (hinv.sorted row hrow)
  intro hstops
  simp only [hinv.stops_iff hahead hspan hrow hleft] at hstops
  rw [hinv.stops_iff hahead hspan hrow hright]
  exact hstops.trans_le hle

/-- A soft timer enters the rows of its list by ordered insertion. -/
theorem rows_linkTimer (hkind : cfg.kind (st.timers id) = .soft) (hrow : row < cfg.level) :
    (linkTimer cfg st id).rows .soft row =
      if LinkedRow cfg (st.randomNr + 1) row then
        (st.rows .soft row).orderedInsert
          (fun _ next => stops (st.timers id) (st.timers next) = true) id
      else st.rows .soft row := by
  simp only [linkTimer, hkind, true_and]
  split
  · exact insertAfter_search hinv.layered
      (fun row hrow => hinv.monotone_stops hahead hspan hrow) hrow (hinv.nodup .soft row) id
  · rfl

theorem sorted_linkTimer (hkind : cfg.kind (st.timers id) = .soft) (hrow : row < cfg.level) :
    ((linkTimer cfg st id).rows .soft row).Pairwise
      fun left right => timeLeft st left ≤ timeLeft st right := by
  rw [hinv.rows_linkTimer hahead hspan hkind hrow]
  split
  · have hsame : (st.rows .soft row).orderedInsert
        (fun _ next => stops (st.timers id) (st.timers next) = true) id =
        (st.rows .soft row).orderedInsert
          (fun left right => timeLeft st left < timeLeft st right) id := by
      apply StableOrder.orderedInsert_congr
      intro other hother
      exact hinv.stops_iff hahead hspan hrow hother
    rw [hsame]
    exact StableOrder.pairwise_le_orderedInsert (hinv.sorted row hrow) id
  · exact hinv.sorted row hrow

theorem layered_linkTimer (hkind : cfg.kind (st.timers id) = .soft) :
    Layered ((linkTimer cfg st id).rows .soft) cfg.level := by
  intro row hrow
  rw [hinv.rows_linkTimer hahead hspan hkind (by omega),
    hinv.rows_linkTimer hahead hspan hkind hrow]
  exact hinv.layered.orderedInsert (fun row hrow => hinv.monotone_stops hahead hspan hrow)
    (fun row hrow hlinked => linkedRow_succ hrow hlinked) id row hrow

end Link

variable {id : Id}

/-- A timer that is not linked is put into the list of its kind. -/
theorem linkTimer (hinv : SoftListInv cfg read st)
    (hahead : 0 ≤ timeLeft st id ∧ timeLeft st id ≤ 0x7ffffffe)
    (hnot : ∀ kind row, id ∉ st.rows kind row)
    (hfits : cfg.kind (st.timers id) = .soft →
      (∀ other ∈ st.rows .soft cfg.bottom,
        timeLeft st id - timeLeft st other ≤ 0x80000001) ∧
      ∀ next ∈ read, next ≠ tickMax ∧ distance st.tick next ≤ timeLeft st id) :
    SoftListInv cfg read (linkTimer cfg st id) := by
  have hnodup : ∀ kind row, ((Timer.linkTimer cfg st id).rows kind row).Nodup := by
    intro kind row
    rw [(perm_linkTimer cfg st id kind row).nodup_iff]
    split
    · exact List.nodup_cons.2 ⟨hnot kind row, hinv.nodup kind row⟩
    · exact hinv.nodup kind row
  have hown : ∀ kind row, ∀ other ∈ (Timer.linkTimer cfg st id).rows kind row,
      kind = cfg.kind (st.timers other) := by
    intro kind row other hother
    rcases mem_linkTimer hother with ⟨rfl, hkind⟩ | hold
    · exact hkind
    · exact hinv.own kind row other hold
  by_cases hkind : cfg.kind (st.timers id) = .soft
  · obtain ⟨hspan, hread⟩ := hfits hkind
    refine ⟨hnodup, hown, hinv.layered_linkTimer hahead hspan hkind,
      fun row hrow => hinv.sorted_linkTimer hahead hspan hkind hrow, fun other hother => ?_,
      fun next hnext other hother => ?_, hinv.fits⟩
    · rcases mem_linkTimer hother with ⟨rfl, -⟩ | hold
      · exact hahead.2
      · exact hinv.ahead other hold
    · rcases mem_linkTimer hother with ⟨rfl, -⟩ | hold
      · exact hread next hnext
      · exact hinv.floor next hnext other hold
  · have hrows : ∀ row, (Timer.linkTimer cfg st id).rows .soft row = st.rows .soft row :=
      rows_linkTimer_of_ne (Ne.symm hkind)
    refine ⟨hnodup, hown, fun row hrow => ?_, fun row hrow => ?_, fun other hother => ?_,
      fun next hnext other hother => ?_, hinv.fits⟩
    · rw [hrows, hrows]
      exact hinv.layered row hrow
    · rw [hrows]
      exact hinv.sorted row hrow
    · rw [hrows] at hother
      exact hinv.ahead other hother
    · rw [hrows] at hother
      exact hinv.floor next hnext other hother

theorem rtTimerStart (hinv : SoftListInv cfg read st) (hfits : StartFits cfg read st id) :
    SoftListInv cfg read (rtTimerStart cfg st id) := by
  have hnot : ∀ kind row, id ∉ (Timer.timerRemove st id).rows kind row :=
    fun kind row => (hinv.nodup kind row).not_mem_erase
  have hremoved := (hinv.timerRemove id).setActivated id false
  have hbegun : SoftListInv cfg read (beginStart st id) := by
    rw [beginStart, setTimeout]
    exact hremoved.setTimer rfl (.inl (hnot .soft)) (hremoved.fits id)
  have hself : timeLeft (beginStart st id) id = (st.timers id).initTick.toNat := by
    rw [timeLeft, timers_beginStart]
    exact distance_add (hinv.fits id)
  have hlt : (st.timers id).initTick.toNat < 0x7fffffff := hinv.fits id
  refine SoftListInv.setActivated
    (hbegun.linkTimer (by omega) hnot fun hkind => ?_) id true
  have hsoft : cfg.kind (st.timers id) = .soft := by
    rw [timers_beginStart] at hkind
    exact hkind
  obtain ⟨hspan, hread⟩ := hfits hsoft
  rw [hself]
  refine ⟨fun other hother => ?_, hread⟩
  have hne : other ≠ id := ((hinv.nodup .soft cfg.bottom).mem_erase_iff.1 hother).1
  have hother' : timeLeft (beginStart st id) other = timeLeft st other := by
    rw [timeLeft, timeLeft, beginStart, setTimeout, Timer.setActivated,
      timers_setTimer_of_ne _ _ _ hne, timers_setTimer_of_ne _ _ _ hne]
    rfl
  rw [hother']
  exact hspan other (List.mem_of_mem_erase hother) hne

theorem endExpiry (hinv : SoftListInv cfg read st)
    (hfits : rearms (st.timers id) = true → StartFits cfg read st id) :
    SoftListInv cfg read (endExpiry cfg st id) := by
  rw [Timer.endExpiry]
  split
  · next hrearms =>
      rw [rtTimerStart_setActivated]
      exact hinv.rtTimerStart (hfits hrearms)
  · exact hinv.setActivated id false

omit [DecidableEq Id] in
/-- The tick advances, and no timer of the list falls behind by half the range. -/
theorem tick (hinv : SoftListInv cfg read st) (hfits : TickFits cfg read st)
    (hard : HardPhase Id) :
    SoftListInv cfg read { st with tick := st.tick + 1, hard := hard } := by
  set next : State Id := { st with tick := st.tick + 1, hard := hard } with hnext
  have hleft : ∀ id ∈ st.rows .soft cfg.bottom,
      timeLeft next id = timeLeft st id - 1 := fun id hmem => distance_succ (hfits.1 id hmem)
  refine ⟨hinv.nodup, hinv.own, hinv.layered, fun row hrow => ?_, fun id hmem => ?_,
    fun tick hread id hmem => ?_, hinv.fits⟩
  · refine List.Pairwise.imp_of_mem (fun {left right} hleftMem hrightMem hle => ?_)
      (hinv.sorted row hrow)
    rw [hleft left (hinv.mem_bottom hrow hleftMem), hleft right (hinv.mem_bottom hrow hrightMem)]
    omega
  · have hahead := hinv.ahead id hmem
    rw [hleft id hmem]
    omega
  · obtain ⟨hne, hle⟩ := hinv.floor tick hread id hmem
    have hsucc : distance (st.tick + 1) tick = distance st.tick tick - 1 :=
      distance_succ (hfits.2 tick hread hne)
    refine ⟨hne, ?_⟩
    rw [hleft id hmem, hnext, hsucc]
    omega

omit [DecidableEq Id] in
theorem timeLeft_first_le (hinv : SoftListInv cfg read st) {first : Id}
    (hfirst : firstTimer cfg st .soft = some first) (hmem : id ∈ st.rows .soft cfg.bottom) :
    timeLeft st first ≤ timeLeft st id := by
  obtain ⟨rest, hrows⟩ := List.head?_eq_some_iff.1 hfirst
  have hsorted := hinv.sorted cfg.bottom (bottom_lt cfg)
  rw [hrows] at hsorted hmem
  rcases List.mem_cons.1 hmem with rfl | hrest
  · exact le_rfl
  · exact (List.pairwise_cons.1 hsorted).1 id hrest

end SoftListInv

/-! ## The thread over a run -/

/-- What the thread would do next is right: it suspends itself without a timeout only if the
list is empty, and delays no longer than the distance to the timeout tick of any timer of
the list. -/
def SleepsInTime (cfg : Config) (st : EntryState Id) : Prop :=
  ∀ next ∈ st.entry.nextTimeout,
    (timerEntryWait st.timers.tick next = .suspend →
      st.timers.rows .soft cfg.bottom = []) ∧
    ∀ delay, timerEntryWait st.timers.tick next = .delay delay →
      ∀ id ∈ st.timers.rows .soft cfg.bottom,
        delay.toNat ≤ ((st.timers.timers id).timeoutTick - st.timers.tick).toNat

/-- The conditions on the actions: soft timers are started and the tick advances as
`StartFits` and `TickFits` say, the init ticks are less than half the range of ticks, and
when the thread reads the first timeout tick it is not `RT_TICK_MAX`. -/
def InTime (cfg : Config) (st : EntryState Id) : EntryAction Id → Prop
  | .timer (.op (.start id)) => StartFits cfg st.entry.nextTimeout st.timers id
  | .timer (.op (.control _ (.setTime time))) => time < halfTickMax
  | .timer .finish =>
    ∀ id ∈ st.timers.hard.timer, rearms (st.timers.timers id) = true →
      StartFits cfg st.entry.nextTimeout st.timers id
  | .timer .softFinish =>
    ∀ id ∈ st.timers.soft.timer, rearms (st.timers.timers id) = true →
      StartFits cfg st.entry.nextTimeout st.timers id
  | .timer .tick => TickFits cfg st.entry.nextTimeout st.timers
  | .nextTimeout =>
    ∀ id ∈ firstTimer cfg st.timers .soft, (st.timers.timers id).timeoutTick ≠ tickMax
  | _ => True

/-- The list, and what the thread has read of it. -/
def EntryInv (cfg : Config) (st : EntryState Id) : Prop :=
  SoftListInv cfg st.entry.nextTimeout st.timers

omit [DecidableEq Id] in
theorem entryInv_initial (cfg : Config) (tick : BitVec 32) {time : Id → BitVec 32}
    (periodic softTimer : Id → Bool) (htime : ∀ id, time id < halfTickMax) :
    EntryInv cfg (entryInitial tick time periodic softTimer) :=
  ⟨fun _ _ => List.nodup_nil, fun _ _ _ hmem => absurd hmem List.not_mem_nil,
    fun _ _ => List.Sublist.refl _, fun _ _ => List.Pairwise.nil,
    fun _ hmem => absurd hmem List.not_mem_nil, fun _ hnext => (by cases hnext), htime⟩

omit [DecidableEq Id] in
/-- A timer that is further away than what the thread has read. -/
theorem toNat_delay_le {now next timeout : BitVec 32} (hlt : next - now < halfTickMax)
    (hle : distance now next ≤ distance now timeout) :
    (next - now).toNat ≤ (timeout - now).toNat := by
  have hnext : (next - now).toNat < 0x7fffffff := hlt
  have htimeout := (timeout - now).isLt
  rw [distance, distance, BitVec.toInt_eq_toNat_cond, BitVec.toInt_eq_toNat_cond] at hle
  split_ifs at hle <;> omega

omit [DecidableEq Id] in
theorem EntryInv.sleepsInTime {st : EntryState Id} (hinv : EntryInv cfg st) :
    SleepsInTime cfg st := by
  intro next hnext
  constructor
  · intro hsuspend
    rw [timerEntryWait] at hsuspend
    split at hsuspend
    · next hmax =>
        refine List.eq_nil_iff_forall_not_mem.2 fun id hmem => ?_
        exact (hinv.floor next hnext id hmem).1 hmax
    · split at hsuspend <;> contradiction
  · intro delay hdelay id hmem
    rw [timerEntryWait] at hdelay
    split at hdelay
    · contradiction
    · split at hdelay
      · next hlt =>
          obtain rfl := Wait.delay.inj hdelay
          exact toNat_delay_le hlt (hinv.floor next hnext id hmem).2
      · contradiction

omit [DecidableEq Id] in
theorem EntryInv.afterReading {st : EntryState Id} (hinv : EntryInv cfg st)
    (hfirst : ∀ id ∈ firstTimer cfg st.timers .soft,
      (st.timers.timers id).timeoutTick ≠ tickMax) :
    SoftListInv cfg (some (rtTimerListNextTimeout cfg st.timers .soft)) st.timers := by
  refine { hinv.unread with floor := fun next hnext id hmem => ?_ }
  obtain rfl := Option.mem_some_iff.1 hnext
  rw [rtTimerListNextTimeout]
  cases hlist : firstTimer cfg st.timers .soft with
  | none =>
    rw [firstTimer, List.head?_eq_none_iff] at hlist
    rw [hlist] at hmem
    exact absurd hmem List.not_mem_nil
  | some first => exact ⟨hfirst first hlist, hinv.timeLeft_first_le hlist hmem⟩

section Step

variable {st next : State Id} {act : Action Id} {event : Event Id}

theorem SoftListInv.runOp (hinv : SoftListInv cfg read st) {op : Op Id}
    (hstart : ∀ id, op = .start id → StartFits cfg read st id)
    (htime : ∀ id time, op = .control id (.setTime time) → time < halfTickMax) :
    SoftListInv cfg read (runOp cfg st op).1 := by
  cases op with
  | start id => exact hinv.rtTimerStart (hstart id rfl)
  | stop id =>
    simp only [Timer.runOp, rtTimerStop]
    split
    · exact (hinv.timerRemove id).setActivated id false
    · exact hinv
  | control id cmd =>
    cases cmd with
    | getTime => exact hinv
    | setTime time =>
      change SoftListInv cfg read
        (Timer.setTimer st id fun timer => { timer with initTick := time })
      exact hinv.setTimer rfl (.inr rfl) (htime id time rfl)
    | setOneshot =>
      change SoftListInv cfg read
        (Timer.setTimer st id fun timer => { timer with periodic := false })
      exact hinv.setTimer rfl (.inr rfl) (hinv.fits id)
    | setPeriodic =>
      change SoftListInv cfg read
        (Timer.setTimer st id fun timer => { timer with periodic := true })
      exact hinv.setTimer rfl (.inr rfl) (hinv.fits id)

/-- A step of the timers, whatever the thread has read. -/
theorem SoftListInv.step (hinv : SoftListInv cfg read st)
    (hstart : ∀ id, act = .op (.start id) → StartFits cfg read st id)
    (htime : ∀ id time, act = .op (.control id (.setTime time)) → time < halfTickMax)
    (hfinish : act = .finish → ∀ id ∈ st.hard.timer,
      rearms (st.timers id) = true → StartFits cfg read st id)
    (hsoftFinish : act = .softFinish → ∀ id ∈ st.soft.timer,
      rearms (st.timers id) = true → StartFits cfg read st id)
    (htick : act = .tick → TickFits cfg read st)
    (hstep : step cfg st act = some (next, event)) :
    SoftListInv cfg read next := by
  cases act with
  | op op =>
    simp only [Timer.step] at hstep
    split at hstep
    · contradiction
    · have hnext := hinv.runOp (fun id hop => hstart id (hop ▸ rfl))
        fun id time hop => htime id time (hop ▸ rfl)
      rw [Option.some.inj hstep] at hnext
      exact hnext
  | tick =>
    simp only [Timer.step] at hstep
    split at hstep
    · cases hstep
      exact hinv.tick (htick rfl) _
    · contradiction
  | check =>
    simp only [Timer.step] at hstep
    split at hstep
    · cases hstep
      exact hinv.setPhases _ _
    · contradiction
  | loop =>
    simp only [Timer.step] at hstep
    split at hstep
    · split at hstep
      · next id hdue =>
          cases hstep
          exact (hinv.timerRemove id).setPhases _ _
      · cases hstep
        exact hinv.setPhases _ _
    · contradiction
  | finish =>
    simp only [Timer.step] at hstep
    split at hstep
    · next id hcalling =>
        cases hstep
        have hcalled : st.hard.timer = some id := by
          rw [hcalling]
          rfl
        exact (hinv.endExpiry (hfinish rfl id hcalled)).setPhases _ _
    · contradiction
  | softCheck =>
    simp only [Timer.step] at hstep
    split at hstep
    · cases hstep
      exact hinv.setPhases _ _
    · contradiction
  | softLoop =>
    simp only [Timer.step] at hstep
    split at hstep
    · split at hstep
      · next id hdue =>
          cases hstep
          exact (hinv.timerRemove id).setPhases _ _
      · cases hstep
        exact hinv.setPhases _ _
    · contradiction
  | softFinish =>
    simp only [Timer.step] at hstep
    split at hstep
    · next id n hidle hcalling =>
        cases hstep
        have hcalled : st.soft.timer = some id := by
          rw [hcalling]
          rfl
        exact (hinv.endExpiry (hsoftFinish rfl id hcalled)).setPhases _ _
    · contradiction

end Step

omit [DecidableEq Id] in
/-- Beside its own reading, the thread only forgets what it has read. -/
theorem nextTimeout_entryAfter (cfg : Config) (st : EntryState Id) (act : Action Id)
    (event : Event Id) :
    (entryAfter cfg st act event).nextTimeout = st.entry.nextTimeout ∨
      (entryAfter cfg st act event).nextTimeout = none := by
  unfold entryAfter
  split
  · split
    · cases st.entry <;> exact .inl rfl
    · exact .inl rfl
  · exact .inr rfl
  · exact .inl rfl

theorem EntryInv.step {st next : EntryState Id} {act : EntryAction Id}
    {event : EntryEvent Id} (hinv : EntryInv cfg st) (hgood : InTime cfg st act)
    (hstep : entryStep cfg st act = some (next, event)) : EntryInv cfg next := by
  cases act with
  | timer act =>
    simp only [entryStep] at hstep
    split at hstep
    · contradiction
    · split at hstep
      · contradiction
      · next timers event' htimers =>
          cases hstep
          have hnext := SoftListInv.step hinv (fun id haction => by subst haction; exact hgood)
            (fun id time haction => by subst haction; exact hgood)
            (fun haction => by subst haction; exact hgood)
            (fun haction => by subst haction; exact hgood)
            (fun haction => by subst haction; exact hgood) htimers
          rw [EntryInv]
          rcases nextTimeout_entryAfter cfg st act event' with hsame | hnone
          · rw [hsame]
            exact hnext
          · rw [hnone]
            exact hnext.unread
  | nextTimeout =>
    simp only [entryStep] at hstep
    split at hstep
    · cases hstep
      exact EntryInv.afterReading hinv hgood
    · contradiction
  | wait =>
    simp only [entryStep] at hstep
    split at hstep
    · next nextTimeout _ _ =>
        cases hstep
        have hnone : (EntryPhase.ofWait
            (timerEntryWait st.timers.tick nextTimeout)).nextTimeout = none := by
          cases timerEntryWait st.timers.tick nextTimeout <;> rfl
        rw [EntryInv, hnone]
        exact SoftListInv.unread hinv
    · contradiction
  | wake =>
    simp only [entryStep] at hstep
    split at hstep
    · cases hstep
      exact SoftListInv.unread hinv
    · cases hstep
      exact SoftListInv.unread hinv
    · contradiction

/-- For any soft and hard timers, any first tick and any interleaving of the timer thread
with starts, stops, settings, ticks and checks that meet `InTime`: in every state of the
run, the timer thread suspends itself without a timeout only if the list of soft timers is
empty, and delays no longer than the wrap-around distance from the current tick to the
timeout tick of any timer of the list. -/
theorem timer_thread_sleeps_in_time {tick : BitVec 32} {time : Id → BitVec 32}
    {periodic softTimer : Id → Bool} {trace : List (EntryAction Id × EntryEvent Id)}
    {st : EntryState Id} (htime : ∀ id, time id < halfTickMax)
    (hrun : (entryMachine cfg).RunWith (InTime cfg)
      (entryInitial tick time periodic softTimer) trace st) :
    (entryMachine cfg).RunWith (fun st _ => SleepsInTime cfg st)
        (entryInitial tick time periodic softTimer) trace st ∧
      SleepsInTime cfg st :=
  have hinv := hrun.always (EntryInv cfg)
    (fun _ _ _ _ hinv hgood hstep => EntryInv.step hinv hgood hstep)
    (entryInv_initial cfg tick periodic softTimer htime)
  ⟨hinv.1.mono fun _ _ hinv => hinv.sleepsInTime, hinv.2.sleepsInTime⟩

/-- One row, with the timer thread. -/
def withSoftThread : Config where
  level := 1
  level_pos := Nat.one_pos
  mask := 3
  usingTimerSoft := true

-- over the tick that was read, not over all ticks
instance (cfg : Config) (read : Option (BitVec 32)) (st : State Id) (id : Id) :
    Decidable (StartFits cfg read st id) :=
  have : Decidable (∀ next ∈ read, next ≠ tickMax ∧
      distance st.tick next ≤ (st.timers id).initTick.toNat) :=
    Option.decidableForallMem read
  inferInstanceAs (Decidable (_ → (∀ other ∈ _, _ → _) ∧ _))

instance (cfg : Config) (read : Option (BitVec 32)) (st : State Id) :
    Decidable (TickFits cfg read st) :=
  have : Decidable (∀ next ∈ read, next ≠ tickMax → -0x80000000 < distance st.tick next) :=
    Option.decidableForallMem read
  inferInstanceAs (Decidable ((∀ id ∈ _, _) ∧ _))

instance (cfg : Config) (st : EntryState Id) (act : EntryAction Id) :
    Decidable (InTime cfg st act) :=
  match act with
  | .timer (.op (.start id)) =>
    inferInstanceAs (Decidable (StartFits cfg st.entry.nextTimeout st.timers id))
  | .timer (.op (.control _ (.setTime time))) => inferInstanceAs (Decidable (time < halfTickMax))
  | .timer .finish => inferInstanceAs (Decidable (∀ id ∈ st.timers.hard.timer, _ → _))
  | .timer .softFinish => inferInstanceAs (Decidable (∀ id ∈ st.timers.soft.timer, _ → _))
  | .timer .tick =>
    inferInstanceAs (Decidable (TickFits cfg st.entry.nextTimeout st.timers))
  | .nextTimeout =>
    inferInstanceAs (Decidable (∀ id ∈ firstTimer cfg st.timers .soft, _ ≠ _))
  | .timer (.op (.control _ .getTime)) => isTrue trivial
  | .timer (.op (.control _ .setOneshot)) => isTrue trivial
  | .timer (.op (.control _ .setPeriodic)) => isTrue trivial
  | .timer (.op (.stop _)) => isTrue trivial
  | .timer .check | .timer .loop | .timer .softCheck | .timer .softLoop => isTrue trivial
  | .wait | .wake => isTrue trivial

/-- Two soft timers that time out beyond the wrap-around. -/
def beyondWrap : EntryState Bool :=
  entryInitial 0xfffffffe (fun id => if id then 3 else 5) (fun _ => true) fun _ => true

/-- The tick advances between the reading and the delay. -/
def scheduleWrap : List (EntryAction Bool) :=
  [.timer (.op (.start false)), .timer (.op (.start true)), .nextTimeout, .timer .tick,
    .timer .loop]

theorem isSome_scheduleWrap : ((entryMachine withSoftThread).exec (InTime withSoftThread)
    beyondWrap scheduleWrap).isSome = true := by
  decide

theorem timer_thread_sleeps_in_time_wrapAround :
    ∃ trace, ∃ st : EntryState Bool,
      (entryMachine withSoftThread).RunWith (InTime withSoftThread) beyondWrap trace st ∧
      st.entry = .read 1 ∧ timerEntryWait st.timers.tick 1 = .delay 2 ∧
      st.timers.rows .soft 0 = [true, false] ∧
      (entryMachine withSoftThread).RunWith (fun st _ => SleepsInTime withSoftThread st)
        beyondWrap trace st ∧ SleepsInTime withSoftThread st := by
  have hrun := Machine.runWith_of_isSome scheduleWrap isSome_scheduleWrap
  exact ⟨_, _, hrun, by decide, by decide, by decide,
    timer_thread_sleeps_in_time (by decide) hrun⟩

/-- A soft timer whose timeout tick is `RT_TICK_MAX`: the thread takes the list for empty and
suspends itself. -/
theorem timer_thread_suspends :
    ∃ trace, ∃ st : EntryState Unit,
      (entryMachine withSoftThread).Run
        (entryInitial 0xfffffff0 (fun _ => 15) (fun _ => true) fun _ => true) trace st ∧
      st.timers.rows .soft 0 = [()] ∧ (st.timers.timers ()).timeoutTick = tickMax ∧
      timerEntryWait st.timers.tick tickMax = .suspend ∧
      ¬ SleepsInTime withSoftThread st := by
  have hrun : (entryMachine withSoftThread).Run
      (entryInitial 0xfffffff0 (fun _ : Unit => 15) (fun _ => true) fun _ => true) _ _ :=
    Machine.runWith_of_exec [.timer (.op (.start ())), .nextTimeout] rfl
  refine ⟨_, _, hrun, rfl, rfl, rfl, fun hsleeps => ?_⟩
  have hempty := (hsleeps tickMax rfl).1 rfl
  contradiction

end RtThread.Timer
