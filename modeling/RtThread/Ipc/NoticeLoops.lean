import RtThread.Ipc.Semaphore

set_option linter.all false

/-!
# Loops that wait for a notice

`at_client_getchar`, `at_server_gerchar` and `async_output_thread_entry` share one pattern: a
consumer that finds no data resets its notice semaphore with `RT_IPC_CMD_RESET` and then takes
it; whoever makes data available releases the semaphore afterwards.  A reset that comes after
such a release takes the notice away, and the consumer then sleeps in front of its data.
-/

namespace RtThread.Notice

open RtThread.Core
open RtThread.Kernel
open RtThread.Sem (rtSemTake rtSemRelease rtSemControl)

def waitingForever : ℤ := -1

/-- What is different in the loops. -/
structure Loop where
  /-- The call returns with what it has read. -/
  returns : Bool
  /-- The call returns when the semaphore was not taken. -/
  givesUp : Bool
  /-- Other threads read as well. -/
  shared : Bool
  /-- The ticks to wait for the `timeout` of the call. -/
  ticks : ℤ → ℤ

/-- `rt_tick_from_millisecond`, read as the `rt_int32_t` of `rt_sem_take`. -/
def rtTickFromMillisecond (tickPerSecond : ℕ) (ms : ℤ) : ℤ :=
  if ms < 0 then waitingForever
  else Int.bmod (tickPerSecond * (ms / 1000) + (tickPerSecond * (ms % 1000) + 999) / 1000) (2 ^ 32)

def atClientGetchar (tickPerSecond : ℕ) : Loop where
  returns := true
  givesUp := true
  shared := false
  ticks := rtTickFromMillisecond tickPerSecond

def atServerGerchar : Loop where
  returns := true
  givesUp := false
  shared := false
  ticks _ := waitingForever

/-- `ulog_flush` reads the frames in other threads. -/
def asyncOutputThreadEntry : Loop where
  returns := false
  givesUp := false
  shared := true
  ticks _ := waitingForever

/-- Where the consumer is: outside a call, before its test for data, its reset, its
`rt_sem_take`, and in it. -/
inductive Pc
  | out
  | testing (ticks : ℤ)
  | resetting (ticks : ℤ)
  | taking (ticks : ℤ)
  | waiting (ticks : ℤ)
  deriving DecidableEq

structure State (Tid Item : Type*) where
  sem : Sem.State Tid
  data : List Item
  /-- Those who have made data available and have not released the semaphore yet. -/
  announcing : ℕ
  pc : Pc

inductive Action (Item : Type*)
  | call (timeout : ℤ)
  | test
  | reset
  | take
  /-- The time to wait is over. -/
  | expire
  /-- The consumer returns from `rt_sem_take` after it has been suspended. -/
  | resume
  | put (item : Item) (items : List Item)
  | release
  /-- Another thread reads. -/
  | drain

section Machine

variable {Tid Item : Type*} [DecidableEq Tid]

/-- After `rt_sem_take`: the loop tests again, or its call gives up. -/
def Loop.afterTake (loop : Loop) (ticks : ℤ) (err : Err) : Pc :=
  if err ≠ .eok ∧ loop.givesUp = true then .out else .testing ticks

/-- One step, of the consumer or of those who serve it; a test emits what it reads. -/
def step (loop : Loop) (consumer : Tid) (st : State Tid Item) :
    Action Item → Option (State Tid Item × Option Item)
  | .call timeout =>
    if st.pc = .out then some ({ st with pc := .testing (loop.ticks timeout) }, none)
    else none
  | .test =>
    match st.pc with
    | .testing ticks =>
      match st.data with
      | [] => some ({ st with pc := .resetting ticks }, none)
      | item :: rest =>
        let pc := if loop.returns = true then .out else .testing ticks
        some ({ st with data := rest, pc := pc }, some item)
    | _ => none
  | .reset =>
    match st.pc with
    | .resetting ticks =>
      some
        ({ st with sem := (rtSemControl st.sem rtIpcCmdReset 0).1, pc := .taking ticks },
          none)
    | _ => none
  | .take =>
    match st.pc with
    | .taking ticks =>
      match Sem.step st.sem (.take consumer ticks) with
      | some (sem, .returned _ err) =>
        some ({ st with sem := sem, pc := loop.afterTake ticks err }, none)
      | some (sem, _) => some ({ st with sem := sem, pc := .waiting ticks }, none)
      | none => none
    | _ => none
  | .expire =>
    match Sem.step st.sem (.timeout consumer) with
    | some (sem, _) => some ({ st with sem := sem }, none)
    | none => none
  | .resume =>
    match st.pc with
    | .waiting ticks =>
      match Sem.step st.sem (.resume consumer) with
      | some (sem, .returned _ err) =>
        some ({ st with sem := sem, pc := loop.afterTake ticks err }, none)
      | _ => none
    | _ => none
  | .put item items =>
    some ({ st with
      data := st.data ++ item :: items
      announcing := st.announcing + 1 }, none)
  | .release =>
    if 0 < st.announcing then
      some ({ st with
        sem := (rtSemRelease st.sem).1
        announcing := st.announcing - 1 }, none)
    else none
  | .drain =>
    if loop.shared = true then some ({ st with data := st.data.tail }, none) else none

def machine (loop : Loop) (consumer : Tid) :
    Machine (State Tid Item) (Action Item) (Option Item) where
  step := step loop consumer

/-- The semaphore is created with no notice in it. -/
def initial (threads : Tid → Thread) : State Tid Item where
  sem := Sem.rtSemInit threads 0 .fifo
  data := []
  announcing := 0
  pc := .out

end Machine

/-! ## A notice for the data there are -/

variable {Tid Item : Type*} [DecidableEq Tid] {loop : Loop} {consumer : Tid}
variable {st next : State Tid Item} {output : Option Item}

/-- When the consumer sleeps in front of data somebody is about to release the semaphore. -/
def Kept (consumer : Tid) (st : State Tid Item) : Prop :=
  consumer ∈ st.sem.sem.suspendThread → st.data ≠ [] → 0 < st.announcing

/-- The consumer, about to take the semaphore, will find a notice or somebody is about to release
it.  A consumer that does not wait needs none. -/
def Noticed (st : State Tid Item) : Prop :=
  ∀ ticks, st.pc = .taking ticks → ticks ≠ 0 → st.data ≠ [] → st.announcing = 0 →
    0 < st.sem.sem.value

/-- A reset finds no data or somebody who is about to announce them, and a release does not take
`value` beyond 16 bits in front of the consumer. -/
def KeepsNotice (st : State Tid Item) : Action Item → Prop
  | .reset => ∀ ticks, st.pc = .resetting ticks → ticks ≠ 0 → st.data ≠ [] →
      0 < st.announcing
  | .release => ∀ ticks, st.pc = .taking ticks → ticks ≠ 0 → st.data ≠ [] →
      st.announcing = 1 → st.sem.sem.value + 1 ≠ 0x10000
  | _ => True

structure Inv (consumer : Tid) (st : State Tid Item) : Prop where
  sem : Sem.Inv st.sem
  alone : ∀ tid ∈ st.sem.sem.suspendThread, tid = consumer
  inTake : st.sem.inTake consumer = true → ∃ ticks, st.pc = .waiting ticks
  noticed : Noticed st
  kept : Kept consumer st

omit [DecidableEq Tid] in
theorem Inv.suspendThread_eq (hinv : Inv consumer st)
    (hpc : ∀ ticks, st.pc ≠ .waiting ticks) :
    st.sem.sem.suspendThread = [] := by
  apply List.eq_nil_iff_forall_not_mem.2
  intro tid hmem
  obtain rfl := hinv.alone tid hmem
  obtain ⟨ticks, hwaiting⟩ := hinv.inTake ((hinv.sem.mem_iff tid).1 hmem).1
  exact hpc ticks hwaiting

omit [DecidableEq Tid] in
theorem inv_init (threads : Tid → Thread) : Inv consumer (initial threads : State Tid Item) where
  sem := Sem.inv_rtSemInit threads 0 .fifo
  alone _ hmem := by cases hmem
  inTake hin := by cases hin
  noticed _ hpc := by cases hpc
  kept hmem := by cases hmem

omit [DecidableEq Tid] in
theorem Inv.move (hinv : Inv consumer st) (hout : ∀ ticks, st.pc ≠ .waiting ticks)
    (hsem : next.sem = st.sem) (hpc : ∀ ticks, next.pc ≠ .taking ticks) : Inv consumer next := by
  have hnil := hinv.suspendThread_eq hout
  refine ⟨hsem ▸ hinv.sem, hsem ▸ hinv.alone, fun hin => ?_, fun ticks hticks => ?_, fun hmem => ?_⟩
  · rw [hsem] at hin
    obtain ⟨ticks, hwaiting⟩ := hinv.inTake hin
    exact absurd hwaiting (hout ticks)
  · exact absurd hticks (hpc ticks)
  · rw [hsem, hnil] at hmem
    cases hmem

omit [DecidableEq Tid] in
/-- A step of those who serve the consumer, which leaves the semaphore alone. -/
theorem Inv.serve (hinv : Inv consumer st) (hsem : next.sem = st.sem)
    (hpc : next.pc = st.pc)
    (hdata : next.data ≠ [] → next.announcing = 0 → st.data ≠ [] ∧ st.announcing = 0) :
    Inv consumer next := by
  refine ⟨hsem ▸ hinv.sem, hsem ▸ hinv.alone, fun hin => ?_, fun ticks hticks hne hfull hzero => ?_,
    fun hmem hfull => ?_⟩
  · rw [hpc]
    exact hinv.inTake (hsem ▸ hin)
  · obtain ⟨hfull', hzero'⟩ := hdata hfull hzero
    rw [hsem]
    exact hinv.noticed ticks (hpc ▸ hticks) hne hfull' hzero'
  · by_contra hnone
    obtain ⟨hfull', hzero'⟩ := hdata hfull (by omega)
    have hpos := hinv.kept (hsem ▸ hmem) hfull'
    omega

theorem rtSemControl_reset (sem : Sem.State Tid) (hnil : sem.sem.suspendThread = []) :
    rtSemControl sem rtIpcCmdReset 0 =
      ({ sem with sem := { sem.sem with value := 0 } }, .controlled .eok) := by
  rw [rtSemControl, if_pos rfl, hnil]
  simp [rtIpcListResumeAll, ← hnil]

theorem reset_preserves (hinv : Inv consumer st) (hgood : KeepsNotice st .reset)
    (hstep : step loop consumer st .reset = some (next, output)) : Inv consumer next := by
  rw [step] at hstep
  split at hstep
  · next ticks hpc =>
    cases hstep
    have hout : ∀ ticks, st.pc ≠ .waiting ticks := by
      rw [hpc]
      exact fun _ => nofun
    have hnil := hinv.suspendThread_eq hout
    rw [rtSemControl_reset st.sem hnil]
    refine ⟨?_, hinv.alone, fun hin => ?_, ?_, fun hmem => ?_⟩
    · exact Sem.inv_withValue hinv.sem (fun _ => hnil) (by decide)
    · obtain ⟨ticks', hwaiting⟩ := hinv.inTake hin
      exact absurd hwaiting (hout ticks')
    · intro ticks' hticks hne hfull hzero
      obtain rfl : ticks = ticks' := Pc.taking.inj hticks
      have hpos := hgood ticks hpc hne hfull
      change st.announcing = 0 at hzero
      omega
    · change consumer ∈ st.sem.sem.suspendThread at hmem
      rw [hnil] at hmem
      cases hmem
  · contradiction

theorem semTake_cases {sem sem' : Sem.State Tid} {tid : Tid} {time : ℤ} {event : Sem.Event Tid}
    (hstep : Sem.step sem (.take tid time) = some (sem', event)) :
    (0 < sem.sem.value ∧ sem' = Sem.withValue sem (sem.sem.value - 1) ∧
        event = .returned tid .eok) ∨
      (time = 0 ∧ sem' = sem ∧ event = .returned tid .etimeout) ∨
        (sem.sem.value = 0 ∧ time ≠ 0 ∧ sem' = Sem.suspendSelf sem tid time ∧
          event = .suspended tid) := by
  simp only [Sem.step, rtSemTake] at hstep
  split_ifs at hstep with hcall havailable htime
  · cases hstep
    exact Or.inl ⟨havailable, rfl, rfl⟩
  · cases hstep
    exact Or.inr (Or.inl ⟨htime, rfl, rfl⟩)
  · cases hstep
    exact Or.inr (Or.inr ⟨by omega, htime, rfl, rfl⟩)

theorem afterTake_ne (loop : Loop) (ticks : ℤ) (err : Err) (ticks' : ℤ) :
    loop.afterTake ticks err ≠ .taking ticks' := by
  rw [Loop.afterTake]
  split <;> exact nofun

theorem take_preserves (hinv : Inv consumer st)
    (hstep : step loop consumer st .take = some (next, output)) : Inv consumer next := by
  rw [step] at hstep
  split at hstep
  case h_2 => contradiction
  case h_1 ticks hpc =>
    have hout : ∀ ticks, st.pc ≠ .waiting ticks := by
      rw [hpc]
      exact fun _ => nofun
    have hnil := hinv.suspendThread_eq hout
    cases hsem : Sem.step st.sem (.take consumer ticks) with
    | none =>
      rw [hsem] at hstep
      cases hstep
    | some result =>
      obtain ⟨sem, event⟩ := result
      have hsemInv := Sem.inv_step hinv.sem hsem
      rw [hsem] at hstep
      have hinTake : st.sem.inTake consumer ≠ true := by
        intro hin
        obtain ⟨ticks', hwaiting⟩ := hinv.inTake hin
        exact hout ticks' hwaiting
      rcases semTake_cases hsem with ⟨-, rfl, rfl⟩ | ⟨-, rfl, rfl⟩ | ⟨hzero, hne, rfl, rfl⟩
      · cases hstep
        refine ⟨hsemInv, hinv.alone, fun hin => absurd hin hinTake,
          fun ticks' hticks => ?_, fun hmem => ?_⟩
        · exact absurd hticks (afterTake_ne loop ticks .eok ticks')
        · change consumer ∈ st.sem.sem.suspendThread at hmem
          rw [hnil] at hmem
          cases hmem
      · cases hstep
        refine ⟨hsemInv, hinv.alone, fun hin => absurd hin hinTake,
          fun ticks' hticks => ?_, fun hmem => ?_⟩
        · exact absurd hticks (afterTake_ne loop ticks .etimeout ticks')
        · change consumer ∈ st.sem.sem.suspendThread at hmem
          rw [hnil] at hmem
          cases hmem
      · -- the consumer sleeps: there was no notice, so the data are still to be announced
        cases hstep
        refine ⟨hsemInv, fun tid hmem => ?_, fun _ => ⟨ticks, rfl⟩, nofun, fun _ hfull => ?_⟩
        · have hcase := Sem.mem_suspendSelf.1 hmem
          rw [hnil] at hcase
          exact hcase.resolve_right List.not_mem_nil
        · by_contra hnone
          have hpos := hinv.noticed ticks hpc hne hfull (Nat.eq_zero_of_not_pos hnone)
          omega

theorem expire_preserves (hinv : Inv consumer st)
    (hstep : step loop consumer st .expire = some (next, output)) : Inv consumer next := by
  rw [step] at hstep
  cases hsem : Sem.step st.sem (.timeout consumer) with
  | none =>
    rw [hsem] at hstep
    cases hstep
  | some result =>
    obtain ⟨sem, event⟩ := result
    have hsemInv := Sem.inv_step hinv.sem hsem
    rw [hsem] at hstep
    cases hstep
    simp only [Sem.step] at hsem
    split at hsem
    · next henabled =>
      cases hsem
      obtain ⟨ticks, hpc⟩ := hinv.inTake henabled.1
      refine ⟨hsemInv, fun tid hmem => hinv.alone tid (List.mem_of_mem_erase hmem), hinv.inTake,
        fun ticks' hticks => ?_, fun hmem => hinv.kept (List.mem_of_mem_erase hmem)⟩
      cases hpc.symm.trans hticks
    · contradiction

theorem resume_preserves (hinv : Inv consumer st)
    (hstep : step loop consumer st .resume = some (next, output)) : Inv consumer next := by
  rw [step] at hstep
  split at hstep
  case h_2 => contradiction
  case h_1 ticks hpc =>
    cases hsem : Sem.step st.sem (.resume consumer) with
    | none =>
      rw [hsem] at hstep
      cases hstep
    | some result =>
      obtain ⟨sem, event⟩ := result
      have hsemInv := Sem.inv_step hinv.sem hsem
      rw [hsem] at hstep
      simp only [Sem.step] at hsem
      split at hsem
      · next henabled =>
        cases hsem
        cases hstep
        refine ⟨hsemInv, hinv.alone, fun hin => ?_, fun ticks' hticks => ?_, hinv.kept⟩
        · change Function.update st.sem.inTake consumer false consumer = true at hin
          rw [Function.update_self] at hin
          cases hin
        · exact absurd hticks (afterTake_ne loop ticks _ ticks')
      · contradiction

theorem rtSemRelease_cases {sem : Sem.State Tid} (hinv : Sem.Inv sem) :
    (sem.sem.suspendThread = [] ∧
        (rtSemRelease sem).1 = Sem.withValue sem ((sem.sem.value + 1) % 0x10000)) ∨
      ∃ tid rest, sem.sem.suspendThread = tid :: rest ∧
        (rtSemRelease sem).1 = Sem.wake sem tid rtThreadResume := by
  cases hlist : sem.sem.suspendThread with
  | nil =>
    refine Or.inl ⟨rfl, ?_⟩
    rw [rtSemRelease, hlist]
  | cons tid rest =>
    have hstat := ((hinv.mem_iff tid).1 (by rw [hlist]; exact List.mem_cons_self)).2
    refine Or.inr ⟨tid, rest, rfl, ?_⟩
    simp only [rtSemRelease, hlist, rtThreadResumeFrom, hstat, if_true, Sem.wake]

theorem release_preserves (hinv : Inv consumer st) (hgood : KeepsNotice st .release)
    (hstep : step loop consumer st .release = some (next, output)) : Inv consumer next := by
  rw [step] at hstep
  split at hstep
  case isFalse => contradiction
  case isTrue hpos =>
    cases hstep
    have hsemInv : Sem.Inv (rtSemRelease st.sem).1 := by
      have hsem : Sem.step st.sem .release = some (rtSemRelease st.sem) := rfl
      exact Sem.inv_step hinv.sem hsem
    have hfewer : ∀ {others : ℕ}, others = st.announcing - 1 → others = 0 →
        st.announcing = 1 := by omega
    rcases rtSemRelease_cases hinv.sem with ⟨hnil, hrelease⟩ | ⟨tid, rest, hlist, hrelease⟩
    · rw [hrelease] at hsemInv ⊢
      refine ⟨hsemInv, hinv.alone, hinv.inTake, fun ticks hticks hne hfull hzero => ?_,
        fun hmem => ?_⟩
      · have hroom := hgood ticks hticks hne hfull (hfewer rfl hzero)
        have hbounded := hinv.sem.bounded
        change 0 < (st.sem.sem.value + 1) % 0x10000
        rw [Nat.mod_eq_of_lt (by omega)]
        omega
      · change consumer ∈ st.sem.sem.suspendThread at hmem
        rw [hnil] at hmem
        cases hmem
    · -- the consumer is woken
      have hmem : tid ∈ st.sem.sem.suspendThread := by
        rw [hlist]
        exact List.mem_cons_self
      obtain rfl := hinv.alone tid hmem
      obtain ⟨ticks, hpc⟩ := hinv.inTake ((hinv.sem.mem_iff tid).1 hmem).1
      rw [hrelease] at hsemInv ⊢
      refine ⟨hsemInv, fun other hother => hinv.alone other (List.mem_of_mem_erase hother),
        hinv.inTake, fun ticks' hticks => ?_, fun hother => ?_⟩
      · exact absurd (hpc.symm.trans hticks) nofun
      · exact absurd hother hinv.sem.nodup.not_mem_erase

theorem step_preserves {act : Action Item} (hinv : Inv consumer st)
    (hgood : KeepsNotice st act)
    (hstep : step loop consumer st act = some (next, output)) : Inv consumer next := by
  cases act with
  | call timeout =>
    rw [step] at hstep
    split at hstep
    · next hout =>
      cases hstep
      refine hinv.move (fun ticks => ?_) rfl (fun ticks => nofun)
      rw [hout]
      exact nofun
    · contradiction
  | test =>
    rw [step] at hstep
    split at hstep
    · next ticks hpc =>
      have hout : ∀ ticks, st.pc ≠ .waiting ticks := by
        rw [hpc]
        exact fun _ => nofun
      split at hstep
      · cases hstep
        exact hinv.move hout rfl fun ticks => nofun
      · cases hstep
        refine hinv.move hout rfl fun ticks => ?_
        split <;> exact nofun
    · contradiction
  | reset => exact reset_preserves hinv hgood hstep
  | take => exact take_preserves hinv hstep
  | expire => exact expire_preserves hinv hstep
  | resume => exact resume_preserves hinv hstep
  | put item items =>
    cases hstep
    exact hinv.serve rfl rfl fun _ hzero => absurd hzero (Nat.succ_ne_zero _)
  | release => exact release_preserves hinv hgood hstep
  | drain =>
    rw [step] at hstep
    split at hstep
    · cases hstep
      refine hinv.serve rfl rfl fun hfull hzero => ⟨fun hnil => hfull ?_, hzero⟩
      rw [hnil, List.tail_nil]
    · contradiction

/-- A consumer that finds no notice for its data sleeps in front of them. -/
theorem lost_of_taking {ticks : ℤ} (hpc : st.pc = .taking ticks) (hne : ticks ≠ 0)
    (hcall : st.sem.canCall consumer) (hzero : st.sem.sem.value = 0)
    (hfull : st.data ≠ []) (hnone : st.announcing = 0) :
    ∃ after output, step loop consumer st .take = some (after, output) ∧
      ¬ Kept consumer after := by
  have hsem : Sem.step st.sem (.take consumer ticks) =
      some (Sem.suspendSelf st.sem consumer ticks, .suspended consumer) := by
    rw [Sem.step, if_pos hcall, rtSemTake, if_neg (by omega), if_neg hne]
  refine ⟨{ st with sem := Sem.suspendSelf st.sem consumer ticks, pc := .waiting ticks },
    none, ?_, fun hkept => ?_⟩
  · rw [step, hpc]
    simp only [hsem]
  · have hpos := hkept (Sem.mem_suspendSelf.2 (Or.inl rfl)) hfull
    change 0 < st.announcing at hpos
    omega

theorem lost_of_not_keepsNotice {act : Action Item} (hinv : Inv consumer st)
    (hlost : ¬ KeepsNotice st act)
    (hstep : step loop consumer st act = some (next, output))
    (hruns : (st.sem.threads consumer).runnable) :
    ∃ after output', step loop consumer next .take = some (after, output') ∧
      ¬ Kept consumer after := by
  have hcallable : (∀ ticks, st.pc ≠ .waiting ticks) → st.sem.inTake consumer = false := by
    intro hout
    cases hin : st.sem.inTake consumer with
    | false => rfl
    | true =>
      obtain ⟨ticks, hwaiting⟩ := hinv.inTake hin
      exact absurd hwaiting (hout ticks)
  cases act with
  | reset =>
    simp only [KeepsNotice, not_forall, Nat.pos_iff_ne_zero, not_not] at hlost
    obtain ⟨ticks, hpc, hne, hfull, hnone⟩ := hlost
    have hout : ∀ ticks, st.pc ≠ .waiting ticks := by
      rw [hpc]
      exact fun _ => nofun
    rw [step, hpc] at hstep
    cases hstep
    rw [rtSemControl_reset st.sem (hinv.suspendThread_eq hout)]
    exact lost_of_taking rfl hne ⟨hcallable hout, hruns⟩ rfl hfull hnone
  | release =>
    simp only [KeepsNotice, not_forall, ne_eq, not_not] at hlost
    obtain ⟨ticks, hpc, hne, hfull, hone, hwraps⟩ := hlost
    have hout : ∀ ticks, st.pc ≠ .waiting ticks := by
      rw [hpc]
      exact fun _ => nofun
    rw [step, if_pos (by omega)] at hstep
    cases hstep
    have hnil := hinv.suspendThread_eq hout
    have hrelease : (rtSemRelease st.sem).1 = Sem.withValue st.sem 0 := by
      rw [rtSemRelease, hnil]
      rw [hwraps]
    rw [hrelease]
    refine lost_of_taking hpc hne ⟨hcallable hout, hruns⟩ rfl hfull ?_
    change st.announcing - 1 = 0
    omega
  | call | test | take | expire | resume | put | drain => exact absurd trivial hlost

/-- As long as no step takes a notice away the consumer does not sleep in front of data that
nobody is about to announce; and after a step that takes one away it does when it goes on. -/
theorem notices_kept (loop : Loop) (consumer : Tid) (threads : Tid → Thread) :
    (∀ trace (last : State Tid Item),
        (machine loop consumer).RunWith KeepsNotice (initial threads) trace last →
          (machine loop consumer).RunWith (fun st _ => Kept consumer st) (initial threads)
            trace last ∧ Kept consumer last) ∧
      ∀ trace (st : State Tid Item),
        (machine loop consumer).RunWith KeepsNotice (initial threads) trace st →
          ∀ action next output, ¬ KeepsNotice st action →
            (machine loop consumer).step st action = some (next, output) →
            (st.sem.threads consumer).runnable →
            ∃ after output', (machine loop consumer).step next .take = some (after, output') ∧
              ¬ Kept consumer after := by
  have hinv : ∀ trace (last : State Tid Item),
      (machine loop consumer).RunWith KeepsNotice (initial threads) trace last →
        (machine loop consumer).RunWith (fun st _ => Inv consumer st) (initial threads)
          trace last ∧ Inv consumer last := by
    intro trace last hrun
    refine hrun.always (Inv consumer) ?_ (inv_init threads)
    intro st action next output hinv hgood hstep
    exact step_preserves hinv hgood hstep
  constructor
  · intro trace last hrun
    obtain ⟨hvisited, hlast⟩ := hinv trace last hrun
    exact ⟨hvisited.mono fun st _ hinv => hinv.kept, hlast.kept⟩
  · intro trace st hrun action next output hlost hstep hruns
    exact lost_of_not_keepsNotice (hinv trace st hrun).2 hlost hstep hruns

instance (st : State Tid Item) [DecidableEq Item] :
    (act : Action Item) → Decidable (KeepsNotice st act)
  | .reset =>
    match hpc : st.pc with
    | .resetting ticks =>
      decidable_of_iff (ticks ≠ 0 → st.data ≠ [] → 0 < st.announcing)
        (by simp [KeepsNotice, hpc])
    | .out | .testing _ | .taking _ | .waiting _ => isTrue (by simp [KeepsNotice, hpc])
  | .release =>
    match hpc : st.pc with
    | .taking ticks =>
      decidable_of_iff (ticks ≠ 0 → st.data ≠ [] → st.announcing = 1 →
        st.sem.sem.value + 1 ≠ 0x10000) (by simp [KeepsNotice, hpc])
    | .out | .testing _ | .resetting _ | .waiting _ => isTrue (by simp [KeepsNotice, hpc])
  | .call _ | .test | .take | .expire | .resume | .put _ _ | .drain => isTrue trivial

/-- Data come while the consumer sleeps. -/
def scheduleNotice (item : Item) : List (Action Item) :=
  [.call (-1), .test, .reset, .take, .put item [], .release, .resume, .test]

def someThreads (_ : Tid) : Thread := .started 10

theorem isSome_scheduleNotice :
    ((machine (atClientGetchar 1000) true).exec KeepsNotice (initial someThreads)
      (scheduleNotice true)).isSome = true := by
  decide

theorem notices_kept_scheduleNotice :
    Kept true (((machine (atClientGetchar 1000) true).exec KeepsNotice (initial someThreads)
      (scheduleNotice true)).get isSome_scheduleNotice).1 :=
  ((notices_kept (atClientGetchar 1000) true someThreads).1 _ _
    (Machine.runWith_of_isSome _ isSome_scheduleNotice)).2

/-- Data come between the test of the consumer and its reset. -/
def scheduleLost (item : Item) : List (Action Item) :=
  [.call (-1), .test, .put item [], .release, .reset, .take]

/-- A run leads to a consumer that sleeps in front of data nobody is about to announce. -/
def Loses (loop : Loop) : Prop :=
  ∃ trace last, (machine loop true).Run (initial someThreads : State Bool Bool) trace last ∧
    ¬ Kept true last

theorem loses_of_exec {loop : Loop}
    (hexec : ((machine loop true).exec (fun _ _ => True) (initial someThreads)
      (scheduleLost true)).isSome = true)
    (hasleep : true ∈ (((machine loop true).exec (fun _ _ => True) (initial someThreads)
      (scheduleLost true)).get hexec).1.sem.sem.suspendThread)
    (hdata : (((machine loop true).exec (fun _ _ => True) (initial someThreads)
      (scheduleLost true)).get hexec).1.data = [true])
    (hnone : (((machine loop true).exec (fun _ _ => True) (initial someThreads)
      (scheduleLost true)).get hexec).1.announcing = 0) : Loses loop := by
  refine ⟨_, _, Machine.runWith_of_isSome _ hexec, fun hkept => ?_⟩
  have hpos := hkept hasleep (by rw [hdata]; exact List.cons_ne_nil _ _)
  omega

theorem notices_lost :
    Loses (atClientGetchar 1000) ∧ Loses atServerGerchar ∧ Loses asyncOutputThreadEntry :=
  ⟨loses_of_exec (by decide) (by decide) (by decide) (by decide),
    loses_of_exec (by decide) (by decide) (by decide) (by decide),
    loses_of_exec (by decide) (by decide) (by decide) (by decide)⟩

end RtThread.Notice
