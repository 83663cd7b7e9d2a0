import RtThread.Core.Machine
import RtThread.Kernel.Thread
import RtThread.Scheduler.ReadyQueue

set_option linter.all false

/-!
# The ready queues with several processors

With `RT_USING_SMP` there is a ready queue for the threads that may run anywhere and
one on each processor for the threads bound to it.  The removal of a bound thread looks
at the table of the global queue where it should look at that of the processor, before
it clears the bit of the group.
-/

namespace RtThread.Scheduler.Smp

open Function
open RtThread.Core
open RtThread.Core.Bitmap
open RtThread.Kernel (Stat)

/-- The fields of `struct rt_thread` that the ready queues depend on.  For `bind_cpu` and
`oncpu`, `none` is `RT_CPUS_NR`. -/
structure Thread (cfg : Config) (cpusNr : ℕ) where
  stat : Stat
  attributes : Attributes cfg
  bindCpu : Option (Fin cpusNr)
  oncpu : Option (Fin cpusNr)

structure State (cfg : Config) (cpusNr : ℕ) (Tid : Type*) where
  global : ReadyQueue Tid
  /-- The queue in the `struct rt_cpu` of each processor. -/
  cpus : Fin cpusNr → ReadyQueue Tid
  threads : Tid → Thread cfg cpusNr

variable {cfg : Config} {cpusNr : ℕ} {Tid : Type*}

/-- The threads have their attributes and are about to enter the queues. -/
def initial (priority : Tid → Fin cfg.priorityMax) (bindCpu : Tid → Option (Fin cpusNr)) :
    State cfg cpusNr Tid where
  global := .empty
  cpus := fun _ => .empty
  threads := fun tid =>
    { stat := .suspend
      attributes := .calculate (priority tid)
      bindCpu := bindCpu tid
      oncpu := none }

/-- The queue of a processor, or the global one. -/
def State.queue (st : State cfg cpusNr Tid) : Option (Fin cpusNr) → ReadyQueue Tid
  | none => st.global
  | some cpu => st.cpus cpu

/-- The thread is in the list of its priority. -/
def State.Queued (st : State cfg cpusNr Tid) (tid : Tid) : Prop :=
  tid ∈ (st.queue (st.threads tid).bindCpu).priorityTable
    (st.threads tid).attributes.currentPriority

inductive Action (cfg : Config) (cpusNr : ℕ) (Tid : Type*)
  | insert (tid : Tid)
  | remove (tid : Tid)
  /-- The attributes are calculated for a new priority. -/
  | setPriority (tid : Tid) (priority : Fin cfg.priorityMax)
  | bindCpu (tid : Tid) (cpu : Option (Fin cpusNr))
  | setOncpu (tid : Tid) (cpu : Option (Fin cpusNr))

variable [DecidableEq Tid]

instance (st : State cfg cpusNr Tid) (tid : Tid) : Decidable (st.Queued tid) :=
  inferInstanceAs (Decidable (_ ∈ _))

def setThread (st : State cfg cpusNr Tid) (tid : Tid) (thread : Thread cfg cpusNr) :
    State cfg cpusNr Tid :=
  { st with threads := update st.threads tid thread }

/-- `rt_schedule_insert_thread`. -/
def rtScheduleInsertThread (st : State cfg cpusNr Tid) (tid : Tid) :
    State cfg cpusNr Tid :=
  let thread := st.threads tid
  match thread.oncpu with
  | some _ => setThread st tid { thread with stat := .running }
  | none =>
    let ready := setThread st tid { thread with stat := .ready }
    match thread.bindCpu with
    | none => { ready with global := st.global.insert cfg thread.attributes tid }
    | some cpu =>
      { ready with
        cpus := update st.cpus cpu
          ((st.cpus cpu).insert cfg thread.attributes tid) }

/-- `rt_schedule_remove_thread`. -/
def rtScheduleRemoveThread (st : State cfg cpusNr Tid) (tid : Tid) :
    State cfg cpusNr Tid :=
  let thread := st.threads tid
  match thread.bindCpu with
  | none =>
    { st with
      global := st.global.remove cfg thread.attributes tid
        (st.global.clearedByte thread.attributes)
      cpus := fun cpu => (st.cpus cpu).unlink tid }
  | some cpu =>
    -- the byte that is tested is one of the global table
    { st with
      global := st.global.unlink tid
      cpus := update (fun other => (st.cpus other).unlink tid) cpu
        ((st.cpus cpu).remove cfg thread.attributes tid
          (st.global.readyTable thread.attributes.number)) }

/-- A thread enters a queue, or changes its priority or its processor, only while it is in no
queue. -/
def step (st : State cfg cpusNr Tid) :
    Action cfg cpusNr Tid → Option (State cfg cpusNr Tid × Unit)
  | .insert tid => if st.Queued tid then none else some (rtScheduleInsertThread st tid, ())
  | .remove tid => some (rtScheduleRemoveThread st tid, ())
  | .setPriority tid priority =>
    if st.Queued tid then none
    else some (setThread st tid
      { st.threads tid with attributes := .calculate priority }, ())
  | .bindCpu tid cpu =>
    if st.Queued tid then none
    else some (setThread st tid { st.threads tid with bindCpu := cpu }, ())
  | .setOncpu tid cpu =>
    some (setThread st tid { st.threads tid with oncpu := cpu }, ())

def machine (cfg : Config) (cpusNr : ℕ) :
    Machine (State cfg cpusNr Tid) (Action cfg cpusNr Tid) Unit where
  step := step

/-! ## The queues one by one -/

variable {st : State cfg cpusNr Tid} {tid : Tid}

/-- The byte that the removal of a thread tests. -/
def testedByte (st : State cfg cpusNr Tid) (tid : Tid) : BitVec 8 :=
  match (st.threads tid).bindCpu with
  | none => st.global.clearedByte (st.threads tid).attributes
  | some _ => st.global.readyTable (st.threads tid).attributes.number

theorem queue_rtScheduleInsertThread (hdetached : (st.threads tid).oncpu = none)
    (place : Option (Fin cpusNr)) :
    (rtScheduleInsertThread st tid).queue place =
      if place = (st.threads tid).bindCpu then
        (st.queue place).insert cfg (st.threads tid).attributes tid
      else st.queue place := by
  simp only [rtScheduleInsertThread, hdetached]
  cases hbind : (st.threads tid).bindCpu with
  | none => cases place <;> simp [State.queue, setThread]
  | some cpu =>
    cases place with
    | none => simp [State.queue, setThread]
    | some other =>
      by_cases hsame : other = cpu
      · subst hsame
        simp [State.queue]
      · simp [State.queue, hsame]

theorem queue_rtScheduleRemoveThread (st : State cfg cpusNr Tid) (tid : Tid)
    (place : Option (Fin cpusNr)) :
    (rtScheduleRemoveThread st tid).queue place =
      if place = (st.threads tid).bindCpu then
        (st.queue place).remove cfg (st.threads tid).attributes tid
          (testedByte st tid)
      else (st.queue place).unlink tid := by
  simp only [rtScheduleRemoveThread, testedByte]
  cases hbind : (st.threads tid).bindCpu with
  | none => cases place <;> simp [State.queue]
  | some cpu =>
    cases place with
    | none => simp [State.queue]
    | some other =>
      by_cases hsame : other = cpu
      · subst hsame
        simp [State.queue]
      · simp [State.queue, hsame]

@[simp]
theorem threads_setThread (thread : Thread cfg cpusNr) :
    (setThread st tid thread).threads tid = thread :=
  update_self _ _ _

theorem threads_setThread_of_ne {other : Tid} {thread : Thread cfg cpusNr} (hne : other ≠ tid) :
    (setThread st tid thread).threads other = st.threads other :=
  update_of_ne hne _ _

theorem attributes_rtScheduleInsertThread (st : State cfg cpusNr Tid) (tid other : Tid) :
    ((rtScheduleInsertThread st tid).threads other).attributes =
        (st.threads other).attributes ∧
      ((rtScheduleInsertThread st tid).threads other).bindCpu =
        (st.threads other).bindCpu := by
  have hset : ∀ stat,
      ((setThread st tid { st.threads tid with stat := stat }).threads other).attributes =
          (st.threads other).attributes ∧
        ((setThread st tid { st.threads tid with stat := stat }).threads other).bindCpu =
          (st.threads other).bindCpu := by
    intro stat
    by_cases hsame : other = tid
    · subst hsame
      rw [threads_setThread]
      exact ⟨rfl, rfl⟩
    · rw [threads_setThread_of_ne hsame]
      exact ⟨rfl, rfl⟩
  simp only [rtScheduleInsertThread]
  split
  · exact hset .running
  · split
    · exact hset .ready
    · exact hset .ready

/-- The bitmaps of all queues tell which of their own lists are empty. -/
def BitmapsRight (st : State cfg cpusNr Tid) : Prop :=
  ∀ place, (st.queue place).Represents cfg

structure Inv (st : State cfg cpusNr Tid) : Prop where
  right : BitmapsRight st
  nodup : ∀ place priority, ((st.queue place).priorityTable priority).Nodup
  placed : ∀ place priority, ∀ tid ∈ (st.queue place).priorityTable priority,
    place = (st.threads tid).bindCpu ∧ priority = (st.threads tid).attributes.currentPriority
  attributes : ∀ tid, (st.threads tid).attributes =
    .calculate (st.threads tid).attributes.currentPriority

omit [DecidableEq Tid] in
theorem Inv.not_mem (hinv : Inv st) (hqueued : ¬ st.Queued tid) (place : Option (Fin cpusNr))
    (priority : ℕ) : tid ∉ (st.queue place).priorityTable priority := by
  intro hmem
  obtain ⟨rfl, rfl⟩ := hinv.placed place priority tid hmem
  exact hqueued hmem

omit [DecidableEq Tid] in
theorem inv_initial (priority : Tid → Fin cfg.priorityMax)
    (bindCpu : Tid → Option (Fin cpusNr)) : Inv (initial priority bindCpu) := by
  have hqueue : ∀ place, (initial priority bindCpu).queue place = .empty := by
    intro place
    cases place <;> rfl
  refine ⟨fun place => ?_, fun place p => ?_, fun place p tid hmem => ?_, fun tid => ?_⟩
  · rw [hqueue]
    exact ReadyQueue.represents_empty cfg
  · rw [hqueue]
    exact List.nodup_nil
  · rw [hqueue] at hmem
    exact absurd hmem List.not_mem_nil
  · simp [initial]

theorem inv_setThread (hinv : Inv st) {thread : Thread cfg cpusNr}
    (hattributes : thread.attributes = .calculate thread.attributes.currentPriority)
    (hplaced : ∀ place priority, tid ∈ (st.queue place).priorityTable priority →
      place = thread.bindCpu ∧ priority = thread.attributes.currentPriority) :
    Inv (setThread st tid thread) := by
  have hqueue : ∀ place, (setThread st tid thread).queue place = st.queue place := by
    intro place
    cases place <;> rfl
  refine ⟨fun place => ?_, fun place p => ?_, fun place p other hmem => ?_, fun other => ?_⟩
  · rw [hqueue]
    exact hinv.right place
  · rw [hqueue]
    exact hinv.nodup place p
  · rw [hqueue] at hmem
    by_cases hsame : other = tid
    · subst hsame
      rw [threads_setThread]
      exact hplaced place p hmem
    · rw [threads_setThread_of_ne hsame]
      exact hinv.placed place p other hmem
  · by_cases hsame : other = tid
    · subst hsame
      rw [threads_setThread]
      exact hattributes
    · rw [threads_setThread_of_ne hsame]
      exact hinv.attributes other

theorem inv_rtScheduleInsertThread (hinv : Inv st) (hqueued : ¬ st.Queued tid) :
    Inv (rtScheduleInsertThread st tid) := by
  have hnot := hinv.not_mem hqueued
  cases honcpu : (st.threads tid).oncpu with
  | some cpu =>
    simp only [rtScheduleInsertThread, honcpu]
    exact inv_setThread hinv (hinv.attributes tid) fun place p hmem =>
      absurd hmem (hnot place p)
  | none =>
    have hqueue := queue_rtScheduleInsertThread honcpu
    have hthread := attributes_rtScheduleInsertThread st tid
    refine ⟨fun place => ?_, fun place p => ?_, fun place p other hmem => ?_, fun other => ?_⟩
    · rw [hqueue]
      split
      · rw [hinv.attributes tid]
        exact ReadyQueue.represents_insert (hinv.right place) _ tid
      · exact hinv.right place
    · rw [hqueue]
      split
      · rw [ReadyQueue.priorityTable_insert]
        split
        · refine (hinv.nodup place p).append (List.nodup_singleton tid) ?_
          rw [List.disjoint_singleton]
          exact hnot place p
        · exact hinv.nodup place p
      · exact hinv.nodup place p
    · rw [(hthread other).1, (hthread other).2]
      rw [hqueue] at hmem
      split at hmem
      · next hplace =>
          rw [ReadyQueue.priorityTable_insert] at hmem
          split at hmem
          · next hp =>
              rcases List.mem_append.1 hmem with hold | hnew
              · exact hinv.placed place p other hold
              · rw [List.mem_singleton.1 hnew]
                exact ⟨hplace, hp⟩
          · exact hinv.placed place p other hmem
      · exact hinv.placed place p other hmem
    · rw [(hthread other).1]
      exact hinv.attributes other

theorem priorityTable_rtScheduleRemoveThread (place : Option (Fin cpusNr)) (priority : ℕ) :
    ((rtScheduleRemoveThread st tid).queue place).priorityTable priority =
      ((st.queue place).priorityTable priority).erase tid := by
  rw [queue_rtScheduleRemoveThread]
  split
  · exact ReadyQueue.priorityTable_remove _ _ _ _ _
  · rfl

theorem inv_rtScheduleRemoveThread (hinv : Inv st)
    (hright : BitmapsRight (rtScheduleRemoveThread st tid)) :
    Inv (rtScheduleRemoveThread st tid) := by
  have hthreads : (rtScheduleRemoveThread st tid).threads = st.threads := by
    simp only [rtScheduleRemoveThread]
    split <;> rfl
  refine ⟨hright, fun place p => ?_, fun place p other hmem => ?_, fun other => ?_⟩
  · rw [priorityTable_rtScheduleRemoveThread]
    exact (hinv.nodup place p).erase tid
  · rw [priorityTable_rtScheduleRemoveThread] at hmem
    rw [hthreads]
    exact hinv.placed place p other (List.mem_of_mem_erase hmem)
  · rw [hthreads]
    exact hinv.attributes other

/-- What the removal of a bound thread needs, when it leaves the list of its priority
empty: if some thread in the group of eight priorities is ready in the global queue, one
is left in the queue of the processor, or there was none; if there is none in the global
queue, none is left in that of the processor. -/
def RemovalFits (st : State cfg cpusNr Tid) : Action cfg cpusNr Tid → Prop
  | .remove tid =>
    let priority := (st.threads tid).attributes.currentPriority.val
    ∀ cpu, (st.threads tid).bindCpu = some cpu →
      ((st.cpus cpu).unlink tid).priorityTable priority = [] →
      (st.global.GroupReady (priority / 8) → (st.cpus cpu).GroupReady (priority / 8) →
        ((st.cpus cpu).unlink tid).GroupReady (priority / 8)) ∧
      (¬ st.global.GroupReady (priority / 8) →
        ¬ ((st.cpus cpu).unlink tid).GroupReady (priority / 8))
  | _ => True

theorem represents_remove_of_ne (hinv : Inv st) {place : Option (Fin cpusNr)}
    (hplace : place ≠ (st.threads tid).bindCpu) :
    ((rtScheduleRemoveThread st tid).queue place).Represents cfg := by
  rw [queue_rtScheduleRemoveThread, if_neg hplace, ReadyQueue.unlink_eq]
  · exact hinv.right place
  · exact fun p hmem => hplace (hinv.placed place p tid hmem).1

/-- A bound thread: the queue of its processor is right after the removal exactly when it
fits. -/
theorem represents_remove_bound_iff (hlevel : cfg.twoLevel) (hinv : Inv st)
    {cpu : Fin cpusNr} (hbind : (st.threads tid).bindCpu = some cpu) :
    ((st.cpus cpu).remove cfg (st.threads tid).attributes tid
      (st.global.readyTable (st.threads tid).attributes.number)).Represents cfg ↔
    RemovalFits st (.remove tid) := by
  have hattributes := hinv.attributes tid
  have hcpu : (st.cpus cpu).Represents cfg := hinv.right (some cpu)
  have honly : ∀ other, tid ∈ (st.cpus cpu).priorityTable other →
      other = (st.threads tid).attributes.currentPriority.val :=
    fun other hmem => (hinv.placed (some cpu) other tid hmem).2
  simp only [RemovalFits]
  generalize (st.threads tid).attributes.currentPriority = priority at hattributes honly ⊢
  have hglobal : st.global.readyTable (priority.val / 8) ≠ 0 ↔
      st.global.GroupReady (priority.val / 8) :=
    ((hinv.right none).twoLevel hlevel).word_ne_zero_iff _
  rw [hattributes, (calculate_of_twoLevel hlevel _).1]
  by_cases hempty : ((st.cpus cpu).unlink tid).priorityTable priority.val = []
  · rw [ReadyQueue.represents_remove_iff hlevel hcpu honly hempty, hglobal, ← not_ne_iff, hglobal]
    constructor
    · intro hfits other hother _
      obtain rfl : cpu = other := Option.some.inj (hbind.symm.trans hother)
      exact hfits
    · intro hfits
      exact hfits cpu hbind hempty
  · -- a list that is not empty leaves the bits as they are
    have hright := ReadyQueue.represents_remove hcpu honly
    rw [ReadyQueue.remove, currentPriority_calculate, if_neg hempty] at hright ⊢
    refine ⟨fun _ other hother hnil => ?_, fun _ => hright⟩
    obtain rfl : cpu = other := Option.some.inj (hbind.symm.trans hother)
    exact absurd hnil hempty

/-- The bitmaps are right after a removal exactly when it fits. -/
theorem bitmapsRight_remove_iff (hlevel : cfg.twoLevel) (hinv : Inv st) (tid : Tid) :
    BitmapsRight (rtScheduleRemoveThread st tid) ↔ RemovalFits st (.remove tid) := by
  have hhome := queue_rtScheduleRemoveThread st tid (st.threads tid).bindCpu
  rw [if_pos rfl] at hhome
  have hsplit : BitmapsRight (rtScheduleRemoveThread st tid) ↔
      ((rtScheduleRemoveThread st tid).queue (st.threads tid).bindCpu).Represents cfg := by
    refine ⟨fun hright => hright _, fun hright place => ?_⟩
    by_cases hplace : place = (st.threads tid).bindCpu
    · rw [hplace]
      exact hright
    · exact represents_remove_of_ne hinv hplace
  rw [hsplit, hhome]
  cases hbind : (st.threads tid).bindCpu with
  | none =>
    have hright : (st.global.remove cfg (st.threads tid).attributes tid
        (st.global.clearedByte (st.threads tid).attributes)).Represents cfg := by
      rw [hinv.attributes tid]
      exact ReadyQueue.represents_remove (hinv.right none) fun other hmem =>
        (hinv.placed none other tid hmem).2
    have htested : testedByte st tid =
        st.global.clearedByte (st.threads tid).attributes := by
      rw [testedByte, hbind]
    rw [htested]
    refine ⟨fun _ cpu hcpu => ?_, fun _ => hright⟩
    rw [hbind] at hcpu
    cases hcpu
  | some cpu =>
    have htested : testedByte st tid =
        st.global.readyTable (st.threads tid).attributes.number := by
      rw [testedByte, hbind]
    rw [htested]
    exact represents_remove_bound_iff hlevel hinv hbind

theorem inv_step (hlevel : cfg.twoLevel) {next : State cfg cpusNr Tid}
    {act : Action cfg cpusNr Tid} {event : Unit} (hinv : Inv st)
    (hfits : RemovalFits st act) (hstep : step st act = some (next, event)) :
    Inv next := by
  cases act with
  | insert tid =>
    rw [step] at hstep
    split at hstep
    · contradiction
    · next hqueued =>
        cases hstep
        exact inv_rtScheduleInsertThread hinv hqueued
  | remove tid =>
    cases hstep
    exact inv_rtScheduleRemoveThread hinv ((bitmapsRight_remove_iff hlevel hinv tid).2 hfits)
  | setPriority tid priority =>
    rw [step] at hstep
    split at hstep
    · contradiction
    · next hqueued =>
        cases hstep
        exact inv_setThread hinv (by simp) fun place p hmem =>
          absurd hmem (hinv.not_mem hqueued place p)
  | bindCpu tid cpu =>
    rw [step] at hstep
    split at hstep
    · contradiction
    · next hqueued =>
        cases hstep
        exact inv_setThread hinv (hinv.attributes tid) fun place p hmem =>
          absurd hmem (hinv.not_mem hqueued place p)
  | setOncpu tid cpu =>
    cases hstep
    exact inv_setThread hinv (hinv.attributes tid)
      fun place p hmem => hinv.placed place p tid hmem

/-- For more than 32 priorities and any threads, bound and unbound: the bitmaps of the
global queue and of each processor's queue tell which of their own lists are empty, in
every state of a run, exactly when every removal of the run fits. -/
theorem smp_bitmapsRight_iff (hlevel : cfg.twoLevel)
    {priority : Tid → Fin cfg.priorityMax} {bindCpu : Tid → Option (Fin cpusNr)}
    {trace : List (Action cfg cpusNr Tid × Unit)}
    (hrun : (machine cfg cpusNr).Run (initial priority bindCpu) trace st) :
    ((machine cfg cpusNr).RunWith (fun st _ => BitmapsRight st)
        (initial priority bindCpu) trace st ∧ BitmapsRight st) ↔
      (machine cfg cpusNr).RunWith RemovalFits (initial priority bindCpu) trace st := by
  refine hrun.always_iff Inv BitmapsRight (fun _ hinv => hinv.right)
    (fun _ _ _ _ hinv hfits hstep => inv_step hlevel hinv hfits hstep)
    (fun st action next event hinv hfits hstep hright => hfits ?_) (inv_initial priority bindCpu)
  cases action with
  | remove tid =>
    cases hstep
    exact (bitmapsRight_remove_iff hlevel hinv tid).1 hright
  | _ => trivial

/-- Two threads of one group of priorities. -/
def twoPriorities : Fin 2 → Fin config256.priorityMax
  | 0 => ⟨0, by decide⟩
  | 1 => ⟨1, by decide⟩

/-- A thread of the global queue is removed while a bound one of its group stays. -/
theorem smp_bitmapsRight_iff_unbound :
    ∃ trace, ∃ st : State config256 2 (Fin 2),
      (machine config256 2).Run
        (initial twoPriorities fun tid => if tid = 0 then none else some 0) trace st ∧
      (st.cpus 0).priorityTable 1 = [1] ∧ st.global.priorityTable 0 = [] ∧
      (((machine config256 2).RunWith (fun st _ => BitmapsRight st)
          (initial twoPriorities fun tid => if tid = 0 then none else some 0) trace st ∧
          BitmapsRight st) ↔
        (machine config256 2).RunWith RemovalFits
          (initial twoPriorities fun tid => if tid = 0 then none else some 0) trace st) := by
  have hrun : (machine config256 2).Run
      (initial twoPriorities fun tid => if tid = 0 then none else some 0) _ _ :=
    Machine.runWith_of_exec [.insert 0, .insert 1, .remove 0] rfl
  exact ⟨_, _, hrun, by decide, by decide, smp_bitmapsRight_iff (by decide) hrun⟩

/-- Two threads bound to one processor, in one group of priorities, and nothing in the
global queue: when the first leaves, the bit of the group is cleared while the second is
still ready. -/
theorem smp_groupBit_lost :
    ∃ trace, ∃ st : State config256 2 (Fin 2),
      (machine config256 2).Run (initial twoPriorities fun _ => some 0) trace st ∧
      (st.cpus 0).priorityTable 1 = [1] ∧ (st.cpus 0).readyTable 0 ≠ 0 ∧
      (st.cpus 0).priorityGroup.getLsbD 0 = false ∧ ¬ BitmapsRight st := by
  have hrun : (machine config256 2).Run (initial twoPriorities fun _ => some 0) _ _ :=
    Machine.runWith_of_exec [.insert 0, .insert 1, .remove 0] rfl
  refine ⟨_, _, hrun, by decide, by decide, by decide, fun hright => ?_⟩
  have hgroup := ((hright (some 0)).twoLevel (by decide)).group_iff 0
  exact absurd (hgroup.2 (by decide)) (by decide)

end RtThread.Scheduler.Smp
