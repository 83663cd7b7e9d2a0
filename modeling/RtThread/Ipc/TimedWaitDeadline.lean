import RtThread.Ipc.TimedWait

set_option linter.all false

/-!
# Timed waits and their deadlines

A timed wait keeps its deadline over any number of wake-ups exactly as long as each turn of
the loop that finds no slot is punctual: the rest of the timeout was computed at the tick at
which the timer is armed again, and the signed difference saw whether the deadline had passed.
-/

namespace RtThread.TimedWait

open RtThread.Core
open RtThread.Kernel (Err)
open RtThread.Mailbox (remaining)

variable {loop : WaitLoop} {st next last : State} {timeout : ℤ} {tick time deadline : ℕ}

/-! ## The rest of a timeout -/

/-- What the loops compute as the rest, from the true times. -/
def rest (time deadline : ℕ) : ℤ :=
  max 0 (Int.bmod ((deadline : ℤ) - time) 0x100000000)

theorem remaining_eq_rest {armed : ℕ} (hpos : 0 < timeout) (harmed : armed + timeout = deadline) :
    remaining timeout (time % 0x100000000) (armed % 0x100000000) = rest time deadline := by
  have hbmod : Int.bmod (timeout - ((time % 0x100000000 + 0x100000000 - armed % 0x100000000) %
      0x100000000 : ℕ)) 0x100000000 = Int.bmod ((deadline : ℤ) - time) 0x100000000 := by
    rw [Int.bmod_def, Int.bmod_def]
    have hmod : (timeout - ((time % 0x100000000 + 0x100000000 - armed % 0x100000000) %
        0x100000000 : ℕ)) % 0x100000000 = ((deadline : ℤ) - time) % 0x100000000 := by
      omega
    simp only [Nat.cast_ofNat]
    rw [hmod]
  rw [remaining, if_pos hpos, rest, hbmod]
  dsimp only
  split
  · next hneg => rw [max_eq_left hneg.le]
  · next hnonneg => rw [max_eq_right (not_lt.1 hnonneg)]

theorem rest_of_lt (hlt : time < deadline) (hnear : (deadline : ℤ) - time < 0x80000000) :
    rest time deadline = deadline - time := by
  rw [rest, Int.bmod_def]
  split <;> omega

/-- The rest is nothing exactly when the deadline is seen to have passed. -/
theorem rest_eq_zero_iff (hle : deadline ≤ time) :
    rest time deadline = 0 ↔ SeenPassed time deadline := by
  rw [rest, SeenPassed, Int.bmod_def]
  split <;> omega

/-! ## The invariant -/

/-- The timeout of a caller that armed its timer, and the tick it noted then. -/
structure Noted (loop : WaitLoop) (st : State) (timeout : ℤ) (tick : ℕ) : Prop where
  pos : 0 < timeout
  lt : timeout < halfTickMax
  whole : loop.recompute = .never → timeout = st.total
  rest : loop.recompute ≠ .never → ∃ armed, armed ≤ st.time ∧ tick = armed % 0x100000000 ∧
    armed + timeout = st.deadline

def Pc.Sound (loop : WaitLoop) (st : State) : Pc → Prop
  | .asleep timeout tick expiry => expiry = st.deadline ∧ Noted loop st timeout tick
  | .woken timeout tick _ => Noted loop st timeout tick
  | .retrying timeout since => loop.recompute = .unlocked ∧ since ≤ st.time ∧
      timeout = TimedWait.rest since st.deadline ∧ (st.deadline : ℤ) - since < halfTickMax
  | .gaveUp err => err = .etimeout
  | .asserted => False
  | .out => True

def Inv (loop : WaitLoop) (st : State) : Prop :=
  st.pc.Sound loop st

theorem Inv.keepsDeadline (hinv : Inv loop st) : KeepsDeadline st := by
  rw [Inv] at hinv
  rw [KeepsDeadline]
  cases hpc : st.pc with
  | asleep timeout tick expiry =>
    rw [hpc] at hinv
    exact hinv.1
  | gaveUp err =>
    rw [hpc] at hinv
    exact hinv
  | asserted =>
    rw [hpc] at hinv
    exact hinv
  | out => trivial
  | woken _ _ _ => trivial
  | retrying _ _ => trivial

theorem turn_inv (hnonneg : 0 ≤ timeout)
    (hzero : loop.blocked st.objects = true → timeout = 0 → loop.failure = .etimeout)
    (harmed : loop.blocked st.objects = true → 0 < timeout → timeout < halfTickMax ∧
      st.time + timeout = st.deadline ∧ (loop.recompute = .never → timeout = st.total)) :
    Inv loop (turn loop st timeout).1 := by
  rw [turn]
  split
  · next hblocked =>
    split
    · next htimeout => exact hzero hblocked htimeout
    · next htimeout =>
      have hpos : 0 < timeout := lt_of_le_of_ne hnonneg (Ne.symm htimeout)
      obtain ⟨hlt, hdeadline, hwhole⟩ := harmed hblocked hpos
      rw [if_pos hlt]
      have hexpiry : st.time + timeout.toNat = st.deadline := by omega
      exact ⟨hexpiry, hpos, hlt, hwhole, fun _ => ⟨st.time, le_rfl, rfl, hdeadline⟩⟩
  · trivial

/-- A turn that finds no slot and has a wrong rest of the timeout. -/
theorem turn_not_keepsDeadline (hblocked : loop.blocked st.objects = true)
    (hnonneg : 0 ≤ timeout) (hzero : timeout = 0 → loop.failure ≠ .etimeout)
    (hwrong : 0 < timeout → timeout < halfTickMax → st.time + timeout ≠ st.deadline) :
    ¬ KeepsDeadline (turn loop st timeout).1 := by
  rw [turn, if_pos hblocked]
  split
  · next htimeout => exact hzero htimeout
  · next htimeout =>
    have hpos : 0 < timeout := lt_of_le_of_ne hnonneg (Ne.symm htimeout)
    split
    · next hlt =>
      intro hkeeps
      have hexpiry : st.time + timeout.toNat = st.deadline := hkeeps
      exact hwrong hpos hlt (by omega)
    · exact id

theorem rest_nonneg (time deadline : ℕ) : 0 ≤ rest time deadline :=
  le_max_left ..

theorem rest_pos_of_lt (hlt : time < deadline) (hnear : (deadline : ℤ) - time < 0x80000000) :
    0 < rest time deadline := by
  rw [rest_of_lt hlt hnear]
  omega

theorem afterSchedule_inv {err : Err} (hnoted : Noted loop st timeout tick)
    (hgood : loop.blocked st.objects = true → err = .eok → OnTime loop st) :
    Inv loop (afterSchedule loop st timeout tick err).1 := by
  rw [afterSchedule]
  split
  · trivial
  · next herr =>
    have heok : err = .eok := not_not.1 herr
    cases hkind : loop.recompute with
    | locked =>
      obtain ⟨armed, hle, rfl, hdeadline⟩ := hnoted.rest (by rw [hkind]; decide)
      rw [rtTickGet, remaining_eq_rest hnoted.pos hdeadline]
      have hlt := hnoted.lt
      rw [halfTickMax] at hlt
      refine turn_inv (rest_nonneg ..) (fun hblocked hzero => ?_) fun hblocked hpos => ?_
      · rcases (hgood hblocked heok).1 hkind with hbefore | hpassed
        · have hpos := rest_pos_of_lt hbefore (by omega)
          omega
        · exact hpassed.2
      · rcases (hgood hblocked heok).1 hkind with hbefore | hpassed
        · rw [rest_of_lt hbefore (by omega), hkind]
          refine ⟨by rw [halfTickMax]; omega, by omega, fun hnever => ?_⟩
          exact absurd hnever (by decide)
        · have hzero := (rest_eq_zero_iff hpassed.1.1).2 hpassed.1
          omega
    | unlocked =>
      obtain ⟨armed, hle, rfl, hdeadline⟩ := hnoted.rest (by rw [hkind]; decide)
      rw [rtTickGet, remaining_eq_rest hnoted.pos hdeadline]
      refine ⟨hkind, le_rfl, rfl, ?_⟩
      have hlt := hnoted.lt
      change (st.deadline : ℤ) - st.time < halfTickMax
      omega
    | never =>
      have hwhole := hnoted.whole hkind
      have hpos := hnoted.pos
      refine turn_inv hpos.le (fun _ hzero => by omega) fun hblocked _ => ?_
      have hstart := (hgood hblocked heok).2 hkind
      refine ⟨hnoted.lt, ?_, fun _ => hwhole⟩
      rw [State.deadline]
      omega

theorem afterSchedule_not_keepsDeadline {err : Err} (hnoted : Noted loop st timeout tick)
    (hblocked : loop.blocked st.objects = true) (heok : err = .eok)
    (hlate : ¬ OnTime loop st) :
    ¬ KeepsDeadline (afterSchedule loop st timeout tick err).1 := by
  have herr : ¬ err ≠ .eok := not_not.2 heok
  rw [afterSchedule, if_neg herr]
  cases hkind : loop.recompute with
  | locked =>
    obtain ⟨armed, hle, rfl, hdeadline⟩ := hnoted.rest (by rw [hkind]; decide)
    rw [rtTickGet, remaining_eq_rest hnoted.pos hdeadline]
    have hpassed : ¬ (st.time < st.deadline ∨
        SeenPassed st.time st.deadline ∧ loop.failure = .etimeout) := by
      intro hor
      exact hlate ⟨fun _ => hor, fun hnever => absurd (hkind.symm.trans hnever) (by decide)⟩
    rw [not_or, not_lt] at hpassed
    refine turn_not_keepsDeadline hblocked (rest_nonneg ..) (fun hzero hfailure => ?_) ?_
    · exact hpassed.2 ⟨(rest_eq_zero_iff hpassed.1).1 hzero, hfailure⟩
    · intro hpos _ heq
      omega
  | unlocked =>
    refine absurd ⟨fun hlocked => ?_, fun hnever => ?_⟩ hlate
    · exact absurd (hkind.symm.trans hlocked) (by decide)
    · exact absurd (hkind.symm.trans hnever) (by decide)
  | never =>
    have hwhole := hnoted.whole hkind
    have hpos := hnoted.pos
    have hmoved : st.time ≠ st.start := by
      intro heq
      exact hlate ⟨fun hlocked => absurd (hkind.symm.trans hlocked) (by decide), fun _ => heq⟩
    refine turn_not_keepsDeadline hblocked hpos.le (fun hzero => by omega) fun _ _ heq => ?_
    rw [State.deadline] at heq
    omega

/-! ## Runs -/

theorem Noted.congr {st' : State} (hnoted : Noted loop st timeout tick)
    (htime : st.time ≤ st'.time) (hdeadline : st'.deadline = st.deadline)
    (htotal : st'.total = st.total) : Noted loop st' timeout tick where
  pos := hnoted.pos
  lt := hnoted.lt
  whole hnever := (hnoted.whole hnever).trans (congrArg _ htotal.symm)
  rest hkind := by
    obtain ⟨armed, hle, htick, hsum⟩ := hnoted.rest hkind
    exact ⟨armed, hle.trans htime, htick, hdeadline ▸ hsum⟩

/-- The clock and the objects go on while the caller does nothing. -/
theorem Inv.congr {st' : State} (hinv : Inv loop st) (hpc : st'.pc = st.pc)
    (htime : st.time ≤ st'.time) (hstart : st'.start = st.start)
    (htotal : st'.total = st.total) : Inv loop st' := by
  have hdeadline : st'.deadline = st.deadline := by
    rw [State.deadline, State.deadline, hstart, htotal]
  rw [Inv] at hinv ⊢
  rw [hpc]
  cases hcase : st.pc with
  | out => trivial
  | asleep timeout tick expiry =>
    rw [hcase] at hinv
    exact ⟨hinv.1.trans hdeadline.symm, hinv.2.congr htime hdeadline htotal⟩
  | woken timeout tick err =>
    rw [hcase] at hinv
    exact Noted.congr hinv htime hdeadline htotal
  | retrying timeout since =>
    rw [hcase] at hinv
    obtain ⟨hkind, hsince, hrest, hnear⟩ := hinv
    rw [← hdeadline] at hrest hnear
    exact ⟨hkind, hsince.trans htime, hrest, hnear⟩
  | gaveUp err =>
    rw [hcase] at hinv
    exact hinv
  | asserted =>
    rw [hcase] at hinv
    exact hinv

theorem step_inv {act : Action} {event : Event} (hinv : Inv loop st)
    (hgood : Punctual loop st act) (hstep : step loop st act = some (next, event)) :
    Inv loop next := by
  cases act with
  | call timeout =>
    simp only [step] at hstep
    split at hstep
    · next hcall =>
      obtain ⟨-, hpos, -⟩ := hcall
      rw [← (Prod.mk.inj (Option.some.inj hstep)).1]
      refine turn_inv (Int.natCast_nonneg timeout) (fun _ hzero => by omega) ?_
      intro hblocked _
      exact ⟨hgood hblocked, by simp [State.deadline], fun _ => rfl⟩
    · contradiction
  | run =>
    simp only [step] at hstep
    rw [Inv] at hinv
    rw [Punctual] at hgood
    split at hstep
    · next timeout tick err hpc =>
      rw [hpc] at hinv hgood
      rw [← (Prod.mk.inj (Option.some.inj hstep)).1]
      exact afterSchedule_inv hinv hgood
    · next timeout since hpc =>
      rw [hpc] at hinv hgood
      obtain ⟨hkind, hsince, rfl, hnear⟩ := hinv
      rw [halfTickMax] at hnear
      rw [← (Prod.mk.inj (Option.some.inj hstep)).1]
      refine turn_inv (rest_nonneg ..) (fun hblocked hzero => ?_) fun hblocked hpos => ?_
      · rcases hgood hblocked with hpassed | ⟨hbefore, -⟩
        · exact hpassed.1
        · have hpos := rest_pos_of_lt hbefore (by omega)
          omega
      · rcases hgood hblocked with hpassed | ⟨hbefore, htime⟩
        · have hzero := (rest_eq_zero_iff hpassed.2.1).2 hpassed.2
          omega
        · rw [rest_of_lt hbefore (by omega)]
          refine ⟨by rw [halfTickMax]; omega, by omega, fun hnever => ?_⟩
          exact absurd hkind (by rw [hnever]; decide)
    · contradiction
  | wake err =>
    simp only [step] at hstep
    rw [Inv] at hinv
    split at hstep
    · next timeout tick expiry hpc =>
      rw [hpc] at hinv
      cases hstep
      exact hinv.2.congr le_rfl rfl rfl
    · contradiction
  | expire =>
    simp only [step] at hstep
    rw [Inv] at hinv
    split at hstep
    · next timeout tick expiry hpc =>
      rw [hpc] at hinv
      split at hstep
      · cases hstep
        exact hinv.2.congr le_rfl rfl rfl
      · contradiction
    · contradiction
  | other objects =>
    cases hstep
    exact hinv.congr rfl le_rfl rfl rfl
  | tick =>
    cases hstep
    exact hinv.congr rfl (Nat.le_succ _) rfl rfl

theorem step_not_keepsDeadline {act : Action} {event : Event} (hinv : Inv loop st)
    (hbad : ¬ Punctual loop st act) (hstep : step loop st act = some (next, event)) :
    ¬ KeepsDeadline next := by
  cases act with
  | call timeout =>
    simp only [step] at hstep
    split at hstep
    · next hcall =>
      obtain ⟨-, hpos, -⟩ := hcall
      rw [Punctual, Classical.not_imp] at hbad
      rw [← (Prod.mk.inj (Option.some.inj hstep)).1]
      refine turn_not_keepsDeadline hbad.1 (Int.natCast_nonneg timeout) (fun hzero => by omega) ?_
      intro _ hlt
      exact absurd hlt hbad.2
    · contradiction
  | run =>
    rw [Punctual, Classical.not_imp] at hbad
    obtain ⟨hblocked, hbad⟩ := hbad
    simp only [step] at hstep
    rw [Inv] at hinv
    split at hstep
    · next timeout tick err hpc =>
      rw [hpc] at hinv hbad
      rw [Pc.MayRun, Classical.not_imp] at hbad
      rw [← (Prod.mk.inj (Option.some.inj hstep)).1]
      exact afterSchedule_not_keepsDeadline hinv hblocked hbad.1 hbad.2
    · next timeout since hpc =>
      rw [hpc] at hinv hbad
      rw [Pc.MayRun, not_or] at hbad
      obtain ⟨hkind, hsince, rfl, hnear⟩ := hinv
      rw [halfTickMax] at hnear
      rw [← (Prod.mk.inj (Option.some.inj hstep)).1]
      refine turn_not_keepsDeadline hblocked (rest_nonneg ..) (fun hzero hfailure => ?_)
        fun hpos _ heq => ?_
      · rcases lt_or_ge since st.deadline with hbefore | hafter
        · have hpos := rest_pos_of_lt hbefore (by omega)
          omega
        · exact hbad.1 ⟨hfailure, (rest_eq_zero_iff hafter).1 hzero⟩
      · rcases lt_or_ge since st.deadline with hbefore | hafter
        · rw [rest_of_lt hbefore (by omega)] at heq
          exact hbad.2 ⟨hbefore, by omega⟩
        · omega
    · contradiction
  | wake err => exact absurd trivial hbad
  | expire => exact absurd trivial hbad
  | other objects => exact absurd trivial hbad
  | tick => exact absurd trivial hbad

/-- Over any number of calls and wake-ups, at any ticks, the deadlines are kept in every state
of a run exactly when every step of it is punctual. -/
theorem deadlines_kept_iff {objects : Objects} {trace : List (Action × Event)}
    (hrun : (machine loop).Run (initial time objects) trace last) :
    ((machine loop).RunWith (fun st _ => KeepsDeadline st) (initial time objects) trace last ∧
        KeepsDeadline last) ↔
      (machine loop).RunWith (Punctual loop) (initial time objects) trace last :=
  hrun.always_iff (Inv loop) KeepsDeadline (fun _ hinv => hinv.keepsDeadline)
    (fun _ _ _ _ hinv hgood hstep => step_inv hinv hgood hstep)
    (fun _ _ _ _ hinv hbad hstep => step_not_keepsDeadline hinv hbad hstep) trivial

/-- An empty mailbox, an empty message queue, an empty pool and a full data queue. -/
def exhausted : Objects := ⟨0, 4, 0, 0, 4, 0, 4⟩

def fullMailbox : Objects := { exhausted with mbEntry := 4 }

/-- A receiver is woken for nothing across the wrap-around of the clock, and its timer
expires at the deadline. -/
def stolenMail : List Action :=
  [.call 5, .tick, .tick, .wake .eok, .tick, .run, .tick, .tick, .expire, .run]

theorem isSome_stolenMail : ((machine rtMbRecv).exec (Punctual rtMbRecv)
    (initial 0xfffffffe exhausted) stolenMail).isSome = true := by
  decide

theorem deadlines_kept_stolenMail :
    ∃ trace last, (machine rtMbRecv).RunWith (Punctual rtMbRecv) (initial 0xfffffffe exhausted)
        trace last ∧ trace.length = 10 ∧ KeepsDeadline last ∧
      last.time = 0x100000003 := by
  have hrun := Machine.runWith_of_isSome stolenMail isSome_stolenMail
  exact ⟨_, _, hrun, by decide, ((deadlines_kept_iff hrun.run).2 hrun).2,
    by decide⟩

/-- One tick passes, and the wake-up is for nothing. -/
def stolenSlot : List Action :=
  [.call 10, .tick, .wake .eok, .run]

/-- The same, with a tick between the wake-up and the next turn. -/
def preemptedAlloc : List Action :=
  [.call 10, .tick, .wake .eok, .run, .tick, .run]

/-- The wake-up comes in time, and the caller runs after the deadline. -/
def lateSender : List Action :=
  [.call 2, .tick, .wake .eok, .tick, .tick, .run]

theorem isSome_stolenSlot_push : ((machine rtDataQueuePush).exec (fun _ _ => True)
    (initial 0 exhausted) stolenSlot).isSome = true := by
  decide

theorem isSome_preemptedAlloc : ((machine rtMpAlloc).exec (fun _ _ => True)
    (initial 0 exhausted) preemptedAlloc).isSome = true := by
  decide

theorem isSome_lateSender : ((machine rtMbSendWait).exec (fun _ _ => True)
    (initial 0 fullMailbox) lateSender).isSome = true := by
  decide

/-- `rt_data_queue_push` arms its timer with the whole timeout again, `rt_mp_alloc` arms it
one tick late, and `rt_mb_send_wait` says that the mailbox is full instead of a timeout. -/
theorem not_keepsDeadline_after_wakeup :
    (∃ trace last, (machine rtDataQueuePush).Run (initial 0 exhausted) trace last ∧
      trace.map Prod.fst = stolenSlot ∧ ¬ KeepsDeadline last) ∧
    (∃ trace last, (machine rtMpAlloc).Run (initial 0 exhausted) trace last ∧
      trace.map Prod.fst = preemptedAlloc ∧ ¬ KeepsDeadline last) ∧
    ∃ trace last, (machine rtMbSendWait).Run (initial 0 fullMailbox) trace last ∧
      trace.map Prod.fst = lateSender ∧ ¬ KeepsDeadline last := by
  refine ⟨?_, ?_, ?_⟩
  · have hrun := Machine.runWith_of_isSome stolenSlot isSome_stolenSlot_push
    exact ⟨_, _, hrun, Machine.actions_of_isSome stolenSlot isSome_stolenSlot_push, by decide⟩
  · have hrun := Machine.runWith_of_isSome preemptedAlloc isSome_preemptedAlloc
    exact ⟨_, _, hrun, Machine.actions_of_isSome preemptedAlloc isSome_preemptedAlloc, by decide⟩
  · have hrun := Machine.runWith_of_isSome lateSender isSome_lateSender
    exact ⟨_, _, hrun, Machine.actions_of_isSome lateSender isSome_lateSender, by decide⟩

end RtThread.TimedWait
