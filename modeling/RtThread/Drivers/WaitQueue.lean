import RtThread.Core.Machine

set_option linter.all false

/-!
# The wait queue

`waitqueue.c`: a queue has a flag, which a wake-up sets, and a list of the threads that wait.  A
wake-up resumes the first thread of the list and takes it off the list.  A thread that comes to
wait takes the flag if it is set; otherwise it links itself and sleeps.  A thread that comes
back from its sleep clears the flag, in one section, and takes itself off the list, in another.

A thread whose timeout has expired stays linked until it runs again, and every thread that comes
back clears the flag, whether it was woken or not.  A wake-up is lost in both places.
-/

namespace RtThread.WaitQueue

open Function
open RtThread.Core

/-- `RT_WAITING_FOREVER`, as an `int`. -/
def rtWaitingForever : ℤ := -1

/-- `rt_tick_from_millisecond`, read back as an `int`. -/
def rtTickFromMillisecond (tickPerSecond : ℕ) (ms : ℤ) : ℤ :=
  if ms < 0 then rtWaitingForever
  else (tickPerSecond * (ms / 1000) + (tickPerSecond * (ms % 1000) + 999) / 1000).bmod (2 ^ 32)

/-- Where a thread is in `rt_wqueue_wait`. -/
inductive Pc
  | out
  /-- Suspended, with the timer of the thread started unless it waits forever. -/
  | queued (tick : ℤ)
  /-- Resumed by a wake-up or by the timer, in front of the section that clears the flag. -/
  | returning
  /-- In front of the section that removes the node. -/
  | leaving
  deriving DecidableEq

def Pc.isQueued : Pc → Bool
  | .queued _ => true
  | _ => false

/-- `rt_wqueue_t`, and the threads. -/
structure State (Tid : Type*) where
  flag : Bool
  waitingList : List Tid
  pc : Tid → Pc

inductive Action (Tid : Type*)
  | wakeup
  /-- `rt_wqueue_wait`, up to the end of its first section. -/
  | wait (tid : Tid) (condition : Bool) (msec : ℤ)
  /-- The thread timer expires. -/
  | expire (tid : Tid)
  /-- A thread that was resumed clears the flag. -/
  | clearFlag (tid : Tid)
  /-- It removes its node and returns. -/
  | remove (tid : Tid)
  deriving DecidableEq

inductive Event (Tid : Type*)
  /-- A wake-up that resumed a thread that was linked and suspended. -/
  | resumed (tid : Tid)
  /-- A wake-up that resumed none although there was one. -/
  | absorbed
  /-- A wake-up that found none. -/
  | noWaiter
  /-- A wait that returns since the condition holds or the timeout is zero. -/
  | passed
  /-- A wait that takes the flag and returns. -/
  | atOnce
  | slept
  | moved

variable {Tid : Type*} [DecidableEq Tid]

def State.setPc (st : State Tid) (tid : Tid) (pc : Pc) : State Tid :=
  { st with pc := update st.pc tid pc }

/-- Some thread of the list is suspended. -/
def anyQueued (pc : Tid → Pc) (list : List Tid) : Bool :=
  list.any fun tid => (pc tid).isQueued

/-- `rt_wqueue_wakeup`; `__wqueue_default_wake` accepts every wake-up, so the first node is
taken, and `rt_thread_resume` fails if its thread is not suspended. -/
def rtWqueueWakeup (st : State Tid) : State Tid × Event Tid :=
  let st := { st with flag := true }
  match st.waitingList with
  | [] => (st, .noWaiter)
  | first :: rest =>
    let removed := { st with waitingList := rest }
    if (st.pc first).isQueued = true then (removed.setPc first .returning, .resumed first)
    else (removed, if anyQueued st.pc rest = true then .absorbed else .noWaiter)

def rtWqueueWait (tickPerSecond : ℕ) (st : State Tid) (tid : Tid) (condition : Bool)
    (msec : ℤ) : State Tid × Event Tid :=
  let tick := rtTickFromMillisecond tickPerSecond msec
  if condition = true ∨ tick = 0 then (st, .passed)
  else if st.flag = true then ({ st with flag := false }, .atOnce)
  else
    ({ st with waitingList := st.waitingList ++ [tid] }.setPc tid (.queued tick), .slept)

def step (tickPerSecond : ℕ) (st : State Tid) :
    Action Tid → Option (State Tid × Event Tid)
  | .wakeup => some (rtWqueueWakeup st)
  | .wait tid condition msec =>
    if st.pc tid = .out then some (rtWqueueWait tickPerSecond st tid condition msec)
    else none
  | .expire tid =>
    match st.pc tid with
    | .queued tick =>
      if tick = rtWaitingForever then none else some (st.setPc tid .returning, .moved)
    | _ => none
  | .clearFlag tid =>
    if st.pc tid = .returning then
      some ({ st with flag := false }.setPc tid .leaving, .moved)
    else none
  | .remove tid =>
    if st.pc tid = .leaving then
      some ({ st with waitingList := st.waitingList.erase tid }.setPc tid .out, .moved)
    else none

def machine (tickPerSecond : ℕ) : Machine (State Tid) (Action Tid) (Event Tid) where
  step := step tickPerSecond

/-- `rt_wqueue_init`, with nobody waiting. -/
def initial : State Tid where
  flag := false
  waitingList := []
  pc _ := .out

/-! ## What must become of a wake-up -/

/-- No wake-up is lost in the trace: a wake-up that can resume a thread does, a wait that
follows a wake-up that found none (`owed`) does not sleep, and a wait returns at once only if
there was a wake-up since the last one that did (`fresh`). -/
def Lossless (owed fresh : Bool) : List (Action Tid × Event Tid) → Prop
  | [] => True
  | (_, event) :: rest =>
    match event with
    | .resumed _ => Lossless owed true rest
    | .absorbed => False
    | .noWaiter => Lossless true true rest
    | .passed => Lossless owed fresh rest
    | .atOnce => fresh = true ∧ Lossless false false rest
    | .slept => owed = false ∧ Lossless false fresh rest
    | .moved => Lossless owed fresh rest

instance : (owed fresh : Bool) → (trace : List (Action Tid × Event Tid)) →
    Decidable (Lossless owed fresh trace)
  | _, _, [] => isTrue trivial
  | owed, _, (_, .resumed _) :: rest => instDecidableLossless owed true rest
  | _, _, (_, .absorbed) :: _ => isFalse id
  | _, _, (_, .noWaiter) :: rest => instDecidableLossless true true rest
  | owed, fresh, (_, .passed) :: rest => instDecidableLossless owed fresh rest
  | _, fresh, (_, .atOnce) :: rest =>
    have : Decidable (Lossless false false rest) := instDecidableLossless false false rest
    inferInstanceAs (Decidable (fresh = true ∧ Lossless false false rest))
  | owed, fresh, (_, .slept) :: rest =>
    have : Decidable (Lossless false fresh rest) := instDecidableLossless false fresh rest
    inferInstanceAs (Decidable (owed = false ∧ Lossless false fresh rest))
  | owed, fresh, (_, .moved) :: rest => instDecidableLossless owed fresh rest

/-- A wake-up finds the first thread of the list suspended; or no thread of the list is, and no
thread has still to clear the flag. -/
def Good (st : State Tid) : Action Tid → Prop
  | .wakeup =>
    (∃ first ∈ st.waitingList.head?, (st.pc first).isQueued = true) ∨
      (∀ tid ∈ st.waitingList, (st.pc tid).isQueued = false) ∧
        ∀ tid, st.pc tid ≠ .returning
  | _ => True

instance [Fintype Tid] (st : State Tid) (act : Action Tid) :
    Decidable (Good st act) :=
  match act with
  | .wakeup => inferInstanceAs (Decidable ((∃ first ∈ st.waitingList.head?,
      (st.pc first).isQueued = true) ∨ (∀ tid ∈ st.waitingList,
        (st.pc tid).isQueued = false) ∧ ∀ tid, st.pc tid ≠ .returning))
  | .wait _ _ _ => isTrue trivial
  | .expire _ => isTrue trivial
  | .clearFlag _ => isTrue trivial
  | .remove _ => isTrue trivial

/-- What the flag says of the wake-ups so far.  While a wait is owed, nobody is there to clear
the flag. -/
structure Inv (owed fresh : Bool) (st : State Tid) : Prop where
  listed : ∀ tid, (st.pc tid).isQueued = true → tid ∈ st.waitingList
  fresh : st.flag = true → fresh = true
  owed : owed = true → st.flag = true ∧ ∀ tid, (st.pc tid).isQueued = false ∧
    st.pc tid ≠ .returning

variable {st next : State Tid} {event : Event Tid} {owed fresh : Bool} {tid : Tid}

/-- What the observer notes of an event. -/
def noteOwed (owed : Bool) : Event Tid → Bool
  | .noWaiter => true
  | .atOnce => false
  | .slept => false
  | _ => owed

def noteFresh (fresh : Bool) : Event Tid → Bool
  | .resumed _ => true
  | .noWaiter => true
  | .atOnce => false
  | _ => fresh

def Accepts (owed fresh : Bool) : Event Tid → Prop
  | .absorbed => False
  | .atOnce => fresh = true
  | .slept => owed = false
  | _ => True

omit [DecidableEq Tid] in
theorem lossless_cons {act : Action Tid} {rest : List (Action Tid × Event Tid)}
    (haccepts : Accepts owed fresh event)
    (hrest : Lossless (noteOwed owed event) (noteFresh fresh event) rest) :
    Lossless owed fresh ((act, event) :: rest) := by
  cases event with
  | absorbed => exact haccepts.elim
  | atOnce => exact ⟨haccepts, hrest⟩
  | slept => exact ⟨haccepts, hrest⟩
  | resumed _ => exact hrest
  | noWaiter => exact hrest
  | passed => exact hrest
  | moved => exact hrest

/-- A thread that is neither put to sleep nor resumed moves. -/
theorem Inv.setPc {pc : Pc} (hinv : Inv owed fresh st) (hqueued : pc.isQueued = false)
    (hreturning : pc ≠ .returning) (hlisted : ∀ other, other ≠ tid →
      other ∈ st.waitingList → other ∈ next.waitingList)
    (hflag : next.flag = st.flag) (hpc : next.pc = update st.pc tid pc) :
    Inv owed fresh next := by
  have hother : ∀ other, other ≠ tid → next.pc other = st.pc other := by
    intro other hne
    rw [hpc, update_of_ne hne]
  have hself : next.pc tid = pc := by rw [hpc, update_self]
  refine ⟨?_, hflag ▸ hinv.fresh, ?_⟩
  · intro other hother'
    by_cases heq : other = tid
    · rw [heq, hself, hqueued] at hother'
      contradiction
    · rw [hother other heq] at hother'
      exact hlisted other heq (hinv.listed other hother')
  · intro howed
    refine ⟨hflag.trans (hinv.owed howed).1, ?_⟩
    intro other
    by_cases heq : other = tid
    · rw [heq, hself]
      exact ⟨hqueued, hreturning⟩
    · rw [hother other heq]
      exact (hinv.owed howed).2 other

theorem wakeup_step (hinv : Inv owed fresh st) (hgood : Good st .wakeup)
    (hresult : rtWqueueWakeup st = (next, event)) :
    Accepts owed fresh event ∧ Inv (noteOwed owed event) (noteFresh fresh event) next := by
  rw [rtWqueueWakeup] at hresult
  cases hlist : st.waitingList with
  | nil =>
    -- nobody is linked, so by the condition nobody is on the way out
    simp only [hlist] at hresult
    cases hresult
    have hnone : ∀ tid, (st.pc tid).isQueued = false := by
      intro tid
      rw [← Bool.not_eq_true]
      intro hqueued
      exact absurd (hlist ▸ hinv.listed tid hqueued) List.not_mem_nil
    simp only [Good, hlist, List.head?_nil, Option.mem_def, reduceCtorEq, false_and,
      exists_false, false_or] at hgood
    refine ⟨trivial, ?_, fun _ => rfl, fun _ => ⟨rfl, ?_⟩⟩
    · exact fun tid hqueued => absurd ((hnone tid).symm.trans hqueued) Bool.false_ne_true
    · exact fun tid => ⟨hnone tid, hgood.2 tid⟩
  | cons first rest =>
    simp only [hlist] at hresult
    split at hresult
    · next hqueued =>
      cases hresult
      refine ⟨trivial, ?_, fun _ => rfl, ?_⟩
      · intro other hother
        by_cases heq : other = first
        · simp [State.setPc, heq, Pc.isQueued] at hother
        · have hpc : (st.pc other).isQueued = true := by
            simpa [State.setPc, heq] using hother
          have hmem := hinv.listed other hpc
          rw [hlist, List.mem_cons] at hmem
          exact hmem.resolve_left heq
      · intro howed
        have hnone := ((hinv.owed howed).2 first).1
        rw [hqueued] at hnone
        contradiction
    · next hqueued =>
      cases hresult
      simp only [Good, hlist, List.head?_cons, Option.mem_def, Option.some.injEq,
        exists_eq_left', hqueued, Bool.false_eq_true, false_or] at hgood
      have hnone : ∀ tid, (st.pc tid).isQueued = false := by
        intro tid
        rw [← Bool.not_eq_true]
        intro htid
        have hfalse := hgood.1 tid (hlist ▸ hinv.listed tid htid)
        rw [htid] at hfalse
        contradiction
      have hany : anyQueued st.pc rest = false := by
        rw [anyQueued, List.any_eq_false]
        intro tid _
        rw [hnone tid]
        exact Bool.false_ne_true
      rw [hany]
      refine ⟨trivial, ?_, fun _ => rfl, fun _ => ⟨rfl, ?_⟩⟩
      · intro tid htid
        rw [hnone tid] at htid
        contradiction
      · exact fun tid => ⟨hnone tid, hgood.2 tid⟩

theorem wait_step {tickPerSecond : ℕ} {condition : Bool} {msec : ℤ} (hinv : Inv owed fresh st)
    (hresult : rtWqueueWait tickPerSecond st tid condition msec = (next, event)) :
    Accepts owed fresh event ∧ Inv (noteOwed owed event) (noteFresh fresh event) next := by
  rw [rtWqueueWait] at hresult
  split at hresult
  · cases hresult
    exact ⟨trivial, hinv⟩
  · split at hresult
    · next hflag =>
      cases hresult
      exact ⟨hinv.fresh hflag, hinv.listed, fun hset => absurd hset Bool.false_ne_true,
        fun howed => absurd howed Bool.false_ne_true⟩
    · next hflag =>
      cases hresult
      have howed : owed = false := by
        rw [← Bool.not_eq_true]
        exact fun howed => hflag (hinv.owed howed).1
      refine ⟨howed, ?_, hinv.fresh, fun hset => absurd hset Bool.false_ne_true⟩
      intro other hother
      by_cases heq : other = tid
      · exact List.mem_append_right _ (List.mem_singleton.2 heq)
      · have hpc : (st.pc other).isQueued = true := by
          simpa [State.setPc, heq] using hother
        exact List.mem_append_left _ (hinv.listed other hpc)

/-- One step: the observer accepts its event, and the flag says what it should. -/
theorem step_inv {tickPerSecond : ℕ} {act : Action Tid} (hinv : Inv owed fresh st)
    (hgood : Good st act) (hstep : step tickPerSecond st act = some (next, event)) :
    Accepts owed fresh event ∧ Inv (noteOwed owed event) (noteFresh fresh event) next := by
  cases act with
  | wakeup => exact wakeup_step hinv hgood (Option.some.inj hstep)
  | wait tid condition msec =>
    simp only [step] at hstep
    split at hstep
    · exact wait_step hinv (Option.some.inj hstep)
    · contradiction
  | expire tid =>
    simp only [step] at hstep
    split at hstep
    · next tick hpc =>
      split at hstep
      · contradiction
      · cases hstep
        refine ⟨trivial, ?_, hinv.fresh, ?_⟩
        · intro other hother
          by_cases heq : other = tid
          · simp [State.setPc, heq, Pc.isQueued] at hother
          · exact hinv.listed other (by simpa [State.setPc, heq] using hother)
        · intro howed
          have hnone := ((hinv.owed howed).2 tid).1
          rw [hpc] at hnone
          contradiction
    · contradiction
  | clearFlag tid =>
    simp only [step] at hstep
    split at hstep
    · next hpc =>
      cases hstep
      have howed : owed = false := by
        rw [← Bool.not_eq_true]
        exact fun howed => ((hinv.owed howed).2 tid).2 hpc
      refine ⟨trivial, ?_, fun hset => absurd hset Bool.false_ne_true, ?_⟩
      · intro other hother
        by_cases heq : other = tid
        · simp [State.setPc, heq, Pc.isQueued] at hother
        · exact hinv.listed other (by simpa [State.setPc, heq] using hother)
      · exact fun hset => absurd (howed.symm.trans hset) Bool.false_ne_true
    · contradiction
  | remove tid =>
    simp only [step] at hstep
    split at hstep
    · cases hstep
      refine ⟨trivial, hinv.setPc rfl Pc.noConfusion ?_ rfl rfl⟩
      exact fun other hne hmem => (List.mem_erase_of_ne hne).2 hmem
    · contradiction

theorem lossless_of_inv {tickPerSecond : ℕ} {trace : List (Action Tid × Event Tid)}
    {last : State Tid} (hinv : Inv owed fresh st)
    (hrun : (machine tickPerSecond).RunWith Good st trace last) :
    Lossless owed fresh trace := by
  induction hrun generalizing owed fresh with
  | nil _ => trivial
  | cons hgood hstep _ ih =>
    obtain ⟨haccepts, hnext⟩ := step_inv hinv hgood hstep
    exact lossless_cons haccepts (ih hnext)

/-- In every run whose wake-ups find the first linked thread suspended, or nobody asleep and
nobody on the way out, no wake-up is lost. -/
theorem no_wakeup_lost {tickPerSecond : ℕ} {trace : List (Action Tid × Event Tid)}
    {last : State Tid}
    (hrun : (machine tickPerSecond).RunWith Good initial trace last) :
    Lossless false false trace := by
  refine lossless_of_inv ⟨?_, ?_, ?_⟩ hrun <;> simp [initial, Pc.isQueued]

/-- A thread is woken, a wake-up finds nobody, and a thread times out. -/
def scheduleQuiet (first second : Tid) : List (Action Tid) :=
  [.wait first false (-1), .wakeup, .clearFlag first, .remove first, .wakeup,
    .wait second false 10, .wait second false 10, .expire second, .clearFlag second,
    .remove second, .wakeup, .wait first true 0, .wait first false (-1)]

theorem isSome_scheduleQuiet : ((machine 1000).exec Good
    (initial : State (Fin 2)) (scheduleQuiet 0 1)).isSome = true := by
  decide

theorem no_wakeup_lost_scheduleQuiet : ∃ trace, ∃ last : State (Fin 2),
    (machine 1000).RunWith Good initial trace last ∧ trace.length = 13 ∧
      Lossless false false trace := by
  have hrun := Machine.runWith_of_isSome (scheduleQuiet 0 1) isSome_scheduleQuiet
  exact ⟨_, _, hrun, by decide, no_wakeup_lost hrun⟩

/-- The first of two threads times out and is still linked when the wake-up comes. -/
def scheduleAbsorbed (first second : Tid) : List (Action Tid) :=
  [.wait first false 10, .wait second false (-1), .expire first, .wakeup]

theorem isSome_scheduleAbsorbed : ((machine 1000).exec (fun _ _ => True)
    (initial : State (Fin 2)) (scheduleAbsorbed 0 1)).isSome = true := by
  decide

/-- A second wake-up finds nobody, and the thread that the first one woke clears the flag. -/
def scheduleCleared (first second : Tid) : List (Action Tid) :=
  [.wait first false (-1), .wakeup, .wakeup, .clearFlag first, .wait second false (-1)]

theorem isSome_scheduleCleared : ((machine 1000).exec (fun _ _ => True)
    (initial : State (Fin 2)) (scheduleCleared 0 1)).isSome = true := by
  decide

theorem wakeup_lost :
    (∃ trace, ∃ last : State (Fin 2), (machine 1000).Run initial trace last ∧
      trace.map Prod.fst = scheduleAbsorbed 0 1 ∧ ¬ Lossless false false trace) ∧
    ∃ trace, ∃ last : State (Fin 2), (machine 1000).Run initial trace last ∧
      trace.map Prod.fst = scheduleCleared 0 1 ∧ ¬ Lossless false false trace :=
  ⟨⟨_, _, Machine.runWith_of_isSome (scheduleAbsorbed 0 1) isSome_scheduleAbsorbed,
      Machine.actions_of_isSome (scheduleAbsorbed 0 1) isSome_scheduleAbsorbed, by decide⟩,
    ⟨_, _, Machine.runWith_of_isSome (scheduleCleared 0 1) isSome_scheduleCleared,
      Machine.actions_of_isSome (scheduleCleared 0 1) isSome_scheduleCleared, by decide⟩⟩

end RtThread.WaitQueue
