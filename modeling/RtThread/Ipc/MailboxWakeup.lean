import RtThread.Ipc.Mailbox

set_option linter.all false

/-!
# Mailboxes lose no wake-up

A transfer wakes at most one thread of the other side, and the woken thread has
to test again because a third thread may have been faster.  The two sides of a
mailbox play the same game with mails and free slots exchanged, so the invariant
and its lemmas are stated once for both: as long as a thread of one side sleeps,
what is available to that side is covered by threads of that side that have been
woken and have not run yet.
-/

namespace RtThread.Mailbox

open RtThread.Core
open RtThread.Kernel

variable {Tid Value : Type*}

inductive Side
  | receiving | sending
  deriving DecidableEq

def Side.other : Side → Side
  | .receiving => .sending
  | .sending => .receiving

/-- The thread stands in the loop of `rt_mb_recv`, or of `rt_mb_send_wait`. -/
def Pc.on : Side → Pc Value → Bool
  | .receiving, .receiving _ _ => true
  | .sending, .sending _ _ _ => true
  | _, _ => false

/-- The suspended threads of a side. -/
def State.waiting (st : State Tid Value) : Side → List Tid
  | .receiving => st.mb.suspendThread
  | .sending => st.mb.suspendSenderThread

/-- What a side waits for: mails, or free slots. -/
def State.available (st : State Tid Value) : Side → ℕ
  | .receiving => st.mb.entry
  | .sending => st.mb.size - st.mb.entry

/-- The thread has been resumed, will not leave with an error and has not run its
loop test again. -/
def Woken (side : Side) (st : State Tid Value) (tid : Tid) : Prop :=
  (st.pc tid).on side = true ∧ (st.threads tid).stat ≠ .suspend ∧
    (st.threads tid).error = .eok

instance (side : Side) (st : State Tid Value) (tid : Tid) :
    Decidable (Woken side st tid) :=
  inferInstanceAs (Decidable (_ ∧ _))

@[simp]
theorem Pc.on_out (side : Side) : Pc.on side (.out : Pc Value) = false := by
  cases side <;> rfl

theorem Side.eq_other {side side' : Side} (hne : side' ≠ side) : side' = side.other := by
  revert hne
  cases side <;> cases side' <;> simp [Side.other]

theorem Pc.not_on_other {side : Side} {pc : Pc Value} (hon : pc.on side = true) :
    pc.on side.other = false := by
  cases side <;> cases pc <;> simp_all [Pc.on, Side.other]

theorem Pc.isOut_of_on {side : Side} {pc : Pc Value} (hon : pc.on side = true) :
    pc.isOut = false := by
  cases pc with
  | out => simp at hon
  | sending value timeout start => rfl
  | receiving timeout start => rfl

section Counting

variable [Fintype Tid]

/-- The threads of a side that have been woken and have not run yet. -/
def woken (side : Side) (st : State Tid Value) : Finset Tid :=
  Finset.univ.filter (Woken side st)

variable {st : State Tid Value}

@[simp]
theorem mem_woken {side : Side} {tid : Tid} : tid ∈ woken side st ↔ Woken side st tid := by
  simp [woken]

/-- The mailbox has lost no wake-up. -/
structure WakeInv (st : State Tid Value) : Prop where
  nodup : ∀ side, (st.waiting side).Nodup
  asleep : ∀ side, ∀ tid ∈ st.waiting side, (st.pc tid).on side = true ∧
    (st.threads tid).stat = .suspend ∧ (st.threads tid).error = .eok
  inCall : ∀ tid, (st.pc tid).isOut = false →
    (st.threads tid).stat = .suspend ∨ (st.threads tid).runnable
  covered : ∀ side, st.waiting side ≠ [] →
    st.available side ≤ (woken side st).card
  entry_le : st.mb.entry ≤ st.mb.size
  size_lt : st.mb.size < 0x10000

theorem wakeInv_rtMbInit (threads : Tid → Thread) (tick : ℕ) (msgPool : ℕ → Value) (size : ℕ)
    (flag : IpcFlag) : WakeInv (rtMbInit threads tick msgPool size flag) where
  nodup side := by cases side <;> exact List.nodup_nil
  asleep side tid hmem := by cases side <;> simp [rtMbInit, State.waiting] at hmem
  inCall tid hin := by simp [rtMbInit, Pc.isOut] at hin
  covered side hwaiting := by cases side <;> simp [rtMbInit, State.waiting] at hwaiting
  entry_le := Nat.zero_le _
  size_lt := Nat.mod_lt _ (by decide)

/-- The thread runs, and is not in the loop of the other side: it calls in, or it
was woken and tests again. -/
def Enters (side : Side) (st : State Tid Value) (tid : Tid) : Prop :=
  (st.pc tid).on side.other = false ∧ (st.threads tid).runnable

theorem Enters.not_mem {side side' : Side} {tid : Tid} (hinv : WakeInv st)
    (henters : Enters side st tid) : tid ∉ st.waiting side' := by
  intro hmem
  exact henters.2.stat_ne (hinv.asleep side' tid hmem).2.1

/-- A thread that stands on another side before and after a step does not count. -/
theorem woken_congr {side : Side} {next : State Tid Value} {tid : Tid}
    (hthreads : ∀ other, other ≠ tid → next.threads other = st.threads other)
    (hpc : ∀ other, other ≠ tid → next.pc other = st.pc other)
    (hbefore : (st.pc tid).on side = false) (hafter : (next.pc tid).on side = false) :
    woken side next = woken side st := by
  ext other
  by_cases hne : other = tid
  · subst hne
    simp [Woken, hbefore, hafter]
  · simp [Woken, hthreads other hne, hpc other hne]

variable [DecidableEq Tid]

variable {side : Side} {st : State Tid Value} {tid : Tid}

/-- A thread that finds nothing available and does not wait. -/
theorem wakeInv_refused (hinv : WakeInv st) (henters : Enters side st tid)
    (hnone : st.available side = 0) (err : Err) :
    WakeInv (setPc { st with threads := modify st.threads tid (setError err) } tid .out) := by
  set next := setPc { st with threads := modify st.threads tid (setError err) } tid .out
    with hnext
  have hthreads : ∀ other, other ≠ tid → next.threads other = st.threads other := by
    intro other hne
    simp [hnext, setPc, hne]
  have hpc : ∀ other, other ≠ tid → next.pc other = st.pc other := by
    intro other hne
    simp [hnext, setPc, hne]
  have hout : next.pc tid = .out := by simp [hnext, setPc]
  refine ⟨hinv.nodup, fun side' other hmem => ?_, fun other hin => ?_, fun side' hwaiting => ?_,
    hinv.entry_le, hinv.size_lt⟩
  · have hne : other ≠ tid := fun heq => henters.not_mem hinv (heq ▸ hmem)
    rw [hthreads other hne, hpc other hne]
    exact hinv.asleep side' other hmem
  · have hne : other ≠ tid := by
      rintro rfl
      simp [hout, Pc.isOut] at hin
    rw [hpc other hne] at hin
    rw [hthreads other hne]
    exact hinv.inCall other hin
  · by_cases hside : side' = side
    · subst hside
      exact hnone.le.trans (Nat.zero_le _)
    · obtain rfl := Side.eq_other hside
      rw [woken_congr hthreads hpc henters.1 (by rw [hout, Pc.on_out])]
      exact hinv.covered _ hwaiting

variable {next : State Tid Value}

/-- A thread that finds nothing available and goes to sleep. -/
theorem wakeInv_slept (hinv : WakeInv st) (henters : Enters side st tid)
    (hnone : st.available side = 0)
    (hthreads : ∀ other, other ≠ tid → next.threads other = st.threads other)
    (hpc : ∀ other, other ≠ tid → next.pc other = st.pc other)
    (hself : (next.pc tid).on side = true ∧ (next.threads tid).stat = .suspend ∧
      (next.threads tid).error = .eok)
    (hwaiting : (next.waiting side).Perm (tid :: st.waiting side))
    (hother : next.waiting side.other = st.waiting side.other)
    (hentry : next.mb.entry = st.mb.entry) (hsize : next.mb.size = st.mb.size) : WakeInv next := by
  have hmem : ∀ side', ∀ other ∈ next.waiting side', other ≠ tid →
      other ∈ st.waiting side' := by
    intro side' other hmem hne
    by_cases hside : side' = side
    · subst hside
      exact (List.mem_cons.1 (hwaiting.mem_iff.1 hmem)).resolve_left hne
    · obtain rfl := Side.eq_other hside
      rwa [hother] at hmem
  have havailable : ∀ side', next.available side' = st.available side' := by
    intro side'
    cases side' <;> simp [State.available, hentry, hsize]
  refine ⟨fun side' => ?_, fun side' other hin => ?_, fun other hin => ?_,
    fun side' hnonempty => ?_, by rw [hentry, hsize]; exact hinv.entry_le,
    by rw [hsize]; exact hinv.size_lt⟩
  · by_cases hside : side' = side
    · subst hside
      rw [hwaiting.nodup_iff, List.nodup_cons]
      exact ⟨henters.not_mem hinv, hinv.nodup _⟩
    · obtain rfl := Side.eq_other hside
      rw [hother]
      exact hinv.nodup _
  · by_cases hne : other = tid
    · subst hne
      have hside : side' = side := by
        by_contra hside
        obtain rfl := Side.eq_other hside
        rw [hother] at hin
        exact henters.not_mem hinv hin
      subst hside
      exact hself
    · rw [hthreads other hne, hpc other hne]
      exact hinv.asleep side' other (hmem side' other hin hne)
  · by_cases hne : other = tid
    · subst hne
      exact .inl hself.2.1
    · rw [hpc other hne] at hin
      rw [hthreads other hne]
      exact hinv.inCall other hin
  · rw [havailable]
    by_cases hside : side' = side
    · subst hside
      exact hnone.le.trans (Nat.zero_le _)
    · obtain rfl := Side.eq_other hside
      rw [hother] at hnonempty
      rw [woken_congr hthreads hpc henters.1 (Pc.not_on_other hself.1)]
      exact hinv.covered _ hnonempty

variable {threads : Tid → Thread} {list : List Tid}

omit [Fintype Tid] in
/-- What `rt_ipc_list_resume` does to a list of sleeping threads. -/
theorem resumeFirst_tail (hasleep : ∀ tid ∈ list, (threads tid).stat = .suspend) :
    (resumeFirst threads list).2 = list.tail := by
  cases list with
  | nil => rfl
  | cons tid rest => simp [resumeFirst, rtThreadResumeFrom, hasleep tid]

omit [Fintype Tid] in
theorem resumeFirst_head (hasleep : ∀ tid ∈ list, (threads tid).stat = .suspend)
    (hhead : list.head? = some tid) :
    (resumeFirst threads list).1 tid = rtThreadResume (threads tid) := by
  cases list with
  | nil => contradiction
  | cons first rest =>
    obtain rfl : first = tid := by simpa using hhead
    simp [resumeFirst, rtThreadResumeFrom, hasleep first]

omit [Fintype Tid] in
theorem resumeFirst_other (hhead : list.head? ≠ some tid) :
    (resumeFirst threads list).1 tid = threads tid := by
  cases list with
  | nil => rfl
  | cons first rest =>
    have hne : tid ≠ first := fun heq => hhead (by simp [heq])
    simp only [resumeFirst, rtThreadResumeFrom]
    split
    · simp [hne]
    · rfl

/-- The other side gets one more woken thread, if a thread sleeps there. -/
theorem card_woken_of_head {waiter : Tid} (hinv : WakeInv st) (henters : Enters side st tid)
    (hhead : (st.waiting side.other).head? = some waiter)
    (hwaiter : next.threads waiter = rtThreadResume (st.threads waiter))
    (hthreads : ∀ other, other ≠ waiter → next.threads other = st.threads other)
    (hpc : ∀ other, other ≠ tid → next.pc other = st.pc other) :
    (woken side.other st).card + 1 ≤ (woken side.other next).card := by
  have hmem : waiter ∈ st.waiting side.other := List.mem_of_mem_head? hhead
  obtain ⟨hon, hstat, herror⟩ := hinv.asleep _ waiter hmem
  have hne : waiter ≠ tid := fun heq => henters.not_mem hinv (heq ▸ hmem)
  have hnot : waiter ∉ woken side.other st := by simp [Woken, hstat]
  have hsub : insert waiter (woken side.other st) ⊆ woken side.other next := by
    intro other hin
    rcases Finset.mem_insert.1 hin with rfl | hin
    · rw [mem_woken, Woken, hwaiter, hpc other hne, stat_rtThreadResume hstat]
      exact ⟨hon, by simp, by simp [herror]⟩
    · have hold := mem_woken.1 hin
      have hother : other ≠ waiter := fun heq => hnot (heq ▸ hin)
      have hself : other ≠ tid := by
        intro heq
        have hoff := henters.1
        rw [← heq, hold.1] at hoff
        contradiction
      rw [mem_woken, Woken, hthreads other hother, hpc other hself]
      exact hold
  have hcard := Finset.card_le_card hsub
  rwa [Finset.card_insert_of_notMem hnot] at hcard

theorem card_woken_of_taken
    (hkeeps : ∀ other, other ≠ tid → Woken side st other → Woken side next other) :
    (woken side st).card ≤ (woken side next).card + 1 := by
  classical
  have hsub : (woken side st).erase tid ⊆ woken side next := by
    intro other hmem
    rw [Finset.mem_erase, mem_woken] at hmem
    rw [mem_woken]
    exact hkeeps other hmem.1 hmem.2
  have hcard := Finset.card_le_card hsub
  have herase := Finset.pred_card_le_card_erase (s := woken side st) (a := tid)
  omega

omit [DecidableEq Tid] in
/-- When the first thread of one list has left it, whoever still waits waited before, and
is not the thread that has left. -/
theorem WakeInv.still_waiting {side' : Side} (hinv : WakeInv st)
    (hother : next.waiting side.other = (st.waiting side.other).tail)
    (hwaiting : next.waiting side = st.waiting side) (hin : tid ∈ next.waiting side') :
    tid ∈ st.waiting side' ∧ (st.waiting side.other).head? ≠ some tid := by
  by_cases hside : side' = side
  · subst hside
    rw [hwaiting] at hin
    refine ⟨hin, fun hhead => ?_⟩
    -- a thread is in the loop of one side only
    have hon := (hinv.asleep _ tid (List.mem_of_mem_head? hhead)).1
    rw [Pc.not_on_other (hinv.asleep _ tid hin).1] at hon
    contradiction
  · obtain rfl := Side.eq_other hside
    rw [hother] at hin
    refine ⟨List.mem_of_mem_tail hin, fun hhead => ?_⟩
    have hnodup := hinv.nodup side.other
    rw [← List.cons_head?_tail hhead, List.nodup_cons] at hnodup
    exact hnodup.1 hin

/-- A thread that takes one of what its side waits for gives one to the other side,
and wakes the first thread that sleeps there. -/
theorem wakeInv_moved (hinv : WakeInv st) (henters : Enters side st tid)
    (hthreads : next.threads = (resumeFirst st.threads (st.waiting side.other)).1)
    (hother : next.waiting side.other = (resumeFirst st.threads (st.waiting side.other)).2)
    (hwaiting : next.waiting side = st.waiting side)
    (hpc : next.pc = Function.update st.pc tid .out)
    (htaken : next.available side + 1 = st.available side)
    (hgiven : next.available side.other = st.available side.other + 1)
    (hentry : next.mb.entry ≤ next.mb.size) (hsize : next.mb.size = st.mb.size) : WakeInv next := by
  have hasleep : ∀ waiter ∈ st.waiting side.other,
      (st.threads waiter).stat = .suspend :=
    fun waiter hmem => (hinv.asleep _ waiter hmem).2.1
  have hpcSelf : next.pc tid = .out := by simp [hpc]
  have hpcOther : ∀ other, other ≠ tid → next.pc other = st.pc other := by
    intro other hne
    simp [hpc, hne]
  have hself : ∀ other, (next.pc other).isOut = false → other ≠ tid := by
    rintro other hin rfl
    simp [hpcSelf, Pc.isOut] at hin
  have hkeeps : ∀ other, (st.waiting side.other).head? ≠ some other →
      next.threads other = st.threads other := by
    intro other hhead
    rw [hthreads, resumeFirst_other hhead]
  have hwoken : ∀ waiter, (st.waiting side.other).head? = some waiter →
      next.threads waiter = rtThreadResume (st.threads waiter) := by
    intro waiter hhead
    rw [hthreads, resumeFirst_head hasleep hhead]
  rw [resumeFirst_tail hasleep] at hother
  refine ⟨fun side' => ?_, fun side' other hin => ?_, fun other hin => ?_,
    fun side' hnonempty => ?_, hentry, by rw [hsize]; exact hinv.size_lt⟩
  · by_cases hside : side' = side
    · rw [hside, hwaiting]
      exact hinv.nodup _
    · rw [Side.eq_other hside, hother]
      exact (hinv.nodup _).tail
  · obtain ⟨hin, hhead⟩ := hinv.still_waiting hother hwaiting hin
    have hne : other ≠ tid := fun heq => henters.not_mem hinv (heq ▸ hin)
    rw [hkeeps other hhead, hpcOther other hne]
    exact hinv.asleep side' other hin
  · have hne := hself other hin
    rw [hpcOther other hne] at hin
    by_cases hhead : (st.waiting side.other).head? = some other
    · rw [hwoken other hhead]
      exact .inr (.inl (stat_rtThreadResume (hasleep other (List.mem_of_mem_head? hhead))))
    · rw [hkeeps other hhead]
      exact hinv.inCall other hin
  · by_cases hside : side' = side
    · subst hside
      rw [hwaiting] at hnonempty
      have hcovered := hinv.covered _ hnonempty
      have hcard : (woken side' st).card ≤ (woken side' next).card + 1 := by
        apply card_woken_of_taken
        intro other hne hold
        have hhead : (st.waiting side'.other).head? ≠ some other :=
          fun hhead => hold.2.1 (hasleep other (List.mem_of_mem_head? hhead))
        rw [Woken, hkeeps other hhead, hpcOther other hne]
        exact hold
      omega
    · obtain rfl := Side.eq_other hside
      obtain ⟨waiter, hhead⟩ : ∃ waiter, (st.waiting side.other).head? = some waiter := by
        rw [hother] at hnonempty
        cases hlist : st.waiting side.other with
        | nil => simp [hlist] at hnonempty
        | cons waiter rest => exact ⟨waiter, rfl⟩
      have hcovered := hinv.covered side.other (fun hnil => by simp [hnil] at hhead)
      have hcard := card_woken_of_head hinv henters hhead (hwoken waiter hhead)
        (fun other hne => hkeeps other fun heq => hne (by simpa [hhead] using heq.symm)) hpcOther
      omega

omit [Fintype Tid] in
/-- The record of a thread that suspends itself in one of the two loops. -/
theorem suspendThread_startThreadTimer (timeout : ℤ) (hrunnable : (threads tid).runnable) :
    (modify (suspendThread threads tid) tid (startThreadTimer timeout) tid).stat = .suspend ∧
      (modify (suspendThread threads tid) tid (startThreadTimer timeout) tid).error = .eok := by
  have hsuspend : (rtThreadSuspend (setError .eok (threads tid))).stat = .suspend :=
    stat_rtThreadSuspend hrunnable
  simp [suspendThread, hsuspend]
  simp [setError]

theorem wakeInv_sendTurn (hinv : WakeInv st) (henters : Enters .sending st tid) (value : Value)
    (timeout : ℤ) : WakeInv (sendTurn st tid value timeout).1 := by
  rw [sendTurn]
  split
  · next hfull =>
      have hnone : st.available .sending = 0 := by simp [State.available, hfull]
      split
      · exact wakeInv_refused hinv henters hnone .eok
      · refine wakeInv_slept hinv henters hnone (fun other hne => ?_) (fun other hne => ?_) ?_ ?_
          rfl rfl rfl
        · simp [setPc, suspendThread, hne]
        · simp [setPc, hne]
        · exact ⟨by simp [setPc, Pc.on], suspendThread_startThreadTimer timeout henters.2⟩
        · exact perm_rtIpcListInsert _ _ _ _
  · next hroom =>
      have hroom : st.mb.entry < st.mb.size := lt_of_le_of_ne hinv.entry_le hroom
      have hsize := hinv.size_lt
      have hinc : (st.mb.entry + 1) % 0x10000 = st.mb.entry + 1 := by omega
      refine wakeInv_moved hinv henters rfl rfl rfl rfl ?_ ?_ ?_ rfl
      · simp only [setPc, putMail, State.available, hinc]
        omega
      · simp only [setPc, putMail, State.available, Side.other, hinc]
      · simp only [setPc, putMail, hinc]
        exact hroom

theorem wakeInv_recvTurn (hinv : WakeInv st) (henters : Enters .receiving st tid) (timeout : ℤ) :
    WakeInv (recvTurn st tid timeout).1 := by
  rw [recvTurn]
  split
  · next hempty =>
      have hnone : st.available .receiving = 0 := hempty
      split
      · exact wakeInv_refused hinv henters hnone .etimeout
      · refine wakeInv_slept hinv henters hnone (fun other hne => ?_) (fun other hne => ?_) ?_ ?_
          rfl rfl rfl
        · simp [setPc, suspendThread, hne]
        · simp [setPc, hne]
        · exact ⟨by simp [setPc, Pc.on], suspendThread_startThreadTimer timeout henters.2⟩
        · exact perm_rtIpcListInsert _ _ _ _
  · next hentry =>
      have hentry : 0 < st.mb.entry := Nat.pos_of_ne_zero hentry
      have hle := hinv.entry_le
      have hsize := hinv.size_lt
      rw [getMail_eq hentry (by omega)]
      refine wakeInv_moved hinv henters rfl rfl rfl rfl ?_ ?_ ?_ rfl
      · simp only [setPc, State.available]
        omega
      · simp only [setPc, State.available, Side.other]
        omega
      · simp only [setPc]
        omega

/-- A thread that times out leaves its list and does not count as woken. -/
theorem wakeInv_timeoutThread (hinv : WakeInv st) (hstat : (st.threads tid).stat = .suspend) :
    WakeInv (timeoutThread st tid) := by
  have hwaiting : ∀ side,
      (timeoutThread st tid).waiting side = (st.waiting side).erase tid := by
    intro side
    cases side <;> rfl
  have hothers : ∀ other, other ≠ tid →
      (timeoutThread st tid).threads other = st.threads other := by
    intro other hne
    simp [timeoutThread, hne]
  have hself : (timeoutThread st tid).threads tid = rtThreadTimeout (st.threads tid) := by
    simp [timeoutThread]
  refine ⟨fun side => ?_, fun side other hmem => ?_, fun other hin => ?_,
    fun side hnonempty => ?_, hinv.entry_le, hinv.size_lt⟩
  · rw [hwaiting]
    exact (hinv.nodup side).erase tid
  · rw [hwaiting, (hinv.nodup side).mem_erase_iff] at hmem
    rw [hothers other hmem.1]
    exact hinv.asleep side other hmem.2
  · by_cases hne : other = tid
    · subst hne
      rw [hself]
      exact .inr (.inl (stat_rtThreadTimeout _))
    · rw [hothers other hne]
      exact hinv.inCall other hin
  · have hsame : woken side (timeoutThread st tid) = woken side st := by
      ext other
      by_cases hne : other = tid
      · subst hne
        simp [Woken, hself, hstat]
      · rw [mem_woken, mem_woken, Woken, Woken, hothers other hne]
        rfl
    have hbefore : st.waiting side ≠ [] := by
      intro hnil
      rw [hwaiting, hnil] at hnonempty
      exact hnonempty rfl
    have havailable : (timeoutThread st tid).available side = st.available side := by
      cases side <;> rfl
    rw [hsame, havailable]
    exact hinv.covered side hbefore

omit [Fintype Tid] in
/-- A reset resumes threads and changes no other state. -/
theorem runnable_rtIpcListResumeAll (list : List Tid)
    (hstat : (threads tid).stat = .suspend ∨ (threads tid).runnable) :
    (rtIpcListResumeAll threads list tid).stat = .suspend ∨
      (rtIpcListResumeAll threads list tid).runnable := by
  induction list generalizing threads with
  | nil => exact hstat
  | cons head rest ih =>
    apply ih
    by_cases hne : tid = head
    · subst hne
      rw [modify_self, rtThreadResume]
      split
      · exact .inr (.inl rfl)
      · exact hstat
    · rwa [modify_of_ne _ _ hne]

theorem wakeInv_rtMbControl (hinv : WakeInv st) (cmd : ℕ) : WakeInv (rtMbControl st cmd).1 := by
  rw [rtMbControl]
  split
  · refine ⟨fun side => ?_, fun side tid hmem => ?_, fun tid hin => ?_, fun side hnonempty => ?_,
      Nat.zero_le _, hinv.size_lt⟩
    · cases side <;> exact List.nodup_nil
    · cases side <;> simp [State.waiting] at hmem
    · exact runnable_rtIpcListResumeAll _ (runnable_rtIpcListResumeAll _ (hinv.inCall tid hin))
    · cases side <;> simp [State.waiting] at hnonempty
  · exact hinv

omit [Fintype Tid] [DecidableEq Tid] in
theorem enters_of_canCall (hcall : st.canCall tid) (side : Side) : Enters side st tid := by
  refine ⟨?_, hcall.2⟩
  by_contra hon
  rw [Bool.not_eq_false] at hon
  have hout := hcall.1
  rw [Pc.isOut_of_on hon] at hout
  contradiction

omit [DecidableEq Tid] in
/-- A thread that comes back from `rt_schedule` tests again in its own loop. -/
theorem enters_of_on (hinv : WakeInv st) (hon : (st.pc tid).on side = true)
    (hstat : (st.threads tid).stat ≠ .suspend) : Enters side st tid :=
  ⟨Pc.not_on_other hon, (hinv.inCall tid (Pc.isOut_of_on hon)).resolve_left hstat⟩

/-- A thread that returns with the error it was resumed with. -/
theorem wakeInv_failed (hinv : WakeInv st) (hstat : (st.threads tid).stat ≠ .suspend)
    (herror : (st.threads tid).error ≠ .eok) : WakeInv (setPc st tid .out) := by
  have hothers : ∀ other, other ≠ tid → (setPc st tid .out).pc other = st.pc other := by
    intro other hne
    simp [setPc, hne]
  have hout : (setPc st tid .out).pc tid = .out := by simp [setPc]
  refine ⟨hinv.nodup, fun side other hmem => ?_, fun other hin => ?_, fun side hnonempty => ?_,
    hinv.entry_le, hinv.size_lt⟩
  · have hasleep := hinv.asleep side other hmem
    have hne : other ≠ tid := fun heq => hstat (heq ▸ hasleep.2.1)
    rw [hothers other hne]
    exact hasleep
  · have hne : other ≠ tid := by
      rintro rfl
      simp [hout, Pc.isOut] at hin
    rw [hothers other hne] at hin
    exact hinv.inCall other hin
  · have hsame : woken side (setPc st tid .out) = woken side st := by
      ext other
      rw [mem_woken, mem_woken]
      by_cases hne : other = tid
      · subst hne
        exact iff_of_false (fun hwoken => herror hwoken.2.2) fun hwoken => herror hwoken.2.2
      · rw [Woken, Woken, hothers other hne]
        rfl
    rw [hsame]
    exact hinv.covered side hnonempty

theorem wakeInv_rtMbSendWait (hinv : WakeInv st) (hcall : st.canCall tid) (value : Value)
    (timeout : ℤ) : WakeInv (rtMbSendWait st tid value timeout).1 := by
  rw [rtMbSendWait]
  split
  · exact hinv
  · exact wakeInv_sendTurn hinv (enters_of_canCall hcall _) value timeout

theorem wakeInv_rtMbRecv (hinv : WakeInv st) (hcall : st.canCall tid) (timeout : ℤ) :
    WakeInv (rtMbRecv st tid timeout).1 := by
  rw [rtMbRecv]
  split
  · exact hinv
  · exact wakeInv_recvTurn hinv (enters_of_canCall hcall _) timeout

theorem wakeInv_step {act : Action Tid Value} {event : Event Tid Value} (hinv : WakeInv st)
    (hstep : step st act = some (next, event)) : WakeInv next := by
  cases act with
  | send tid value timeout =>
    simp only [step] at hstep
    split at hstep
    · next hcall =>
        have hnext := wakeInv_rtMbSendWait hinv hcall value timeout
        rwa [Option.some.inj hstep] at hnext
    · contradiction
  | recv tid timeout =>
    simp only [step] at hstep
    split at hstep
    · next hcall =>
        have hnext := wakeInv_rtMbRecv hinv hcall timeout
        rwa [Option.some.inj hstep] at hnext
    · contradiction
  | control cmd =>
    have hnext := wakeInv_rtMbControl hinv cmd
    rwa [Option.some.inj hstep] at hnext
  | timeout tid =>
    simp only [step] at hstep
    split at hstep
    · next hactive =>
        cases hstep
        exact wakeInv_timeoutThread hinv hactive.1
    · contradiction
  | resume tid =>
    simp only [step, afterSchedule] at hstep
    split at hstep
    · contradiction
    · next hstat =>
        split at hstep
        · contradiction
        · next value timeout start hpc =>
            split at hstep
            · next herror =>
                cases hstep
                exact wakeInv_failed hinv hstat herror
            · have henters : Enters .sending st tid :=
                enters_of_on hinv (by simp [hpc, Pc.on]) hstat
              have hnext := wakeInv_sendTurn hinv henters value
                (remaining timeout st.tick start)
              rwa [Option.some.inj hstep] at hnext
        · next timeout start hpc =>
            split at hstep
            · next herror =>
                cases hstep
                exact wakeInv_failed hinv hstat herror
            · have henters : Enters .receiving st tid :=
                enters_of_on hinv (by simp [hpc, Pc.on]) hstat
              have hnext := wakeInv_recvTurn hinv henters (remaining timeout st.tick start)
              rwa [Option.some.inj hstep] at hnext
  | tick =>
    cases hstep
    exact ⟨hinv.nodup, hinv.asleep, hinv.inCall, hinv.covered, hinv.entry_le, hinv.size_lt⟩

/-- No wake-up is lost, over every interleaving of sends, receives, timeouts and
resets: while a receiver sleeps, at most as many mails are in the mailbox as
receivers have been woken for, and while a sender sleeps the same holds of the free
slots and the senders. -/
theorem mailbox_no_lost_wakeup (threads : Tid → Thread) (tick : ℕ) (msgPool : ℕ → Value)
    (size : ℕ) (flag : IpcFlag) {trace : List (Action Tid Value × Event Tid Value)}
    {st : State Tid Value}
    (hrun : machine.Run (rtMbInit threads tick msgPool size flag) trace st) :
    (st.mb.suspendThread ≠ [] → st.mb.entry ≤ (woken .receiving st).card) ∧
    (st.mb.suspendSenderThread ≠ [] →
      st.mb.size - st.mb.entry ≤ (woken .sending st).card) := by
  have hinv : WakeInv st :=
    hrun.invariant WakeInv (fun _ _ _ _ hinv _ hstep => wakeInv_step hinv hstep)
      (wakeInv_rtMbInit threads tick msgPool size flag)
  exact ⟨hinv.covered .receiving, hinv.covered .sending⟩

/-- Two receivers sleep, one mail wakes the first of them. -/
theorem mailbox_no_lost_wakeup_secondSleeper :
    ∃ trace, ∃ st : State (Fin 3) ℕ,
      machine.Run (rtMbInit (fun _ => Thread.started 10) 0 (fun _ => 0) 2 .fifo) trace st ∧
        st.mb.suspendThread = [1] ∧ st.mb.entry = 1 ∧
        st.mb.entry ≤ (woken .receiving st).card := by
  have hrun : machine.Run (rtMbInit (fun _ => Thread.started 10) 0 (fun _ => 0) 2 .fifo) _ _ :=
    Machine.runWith_of_exec [.recv (0 : Fin 3) (-1), .recv 1 5, .send 2 7 0] rfl
  exact ⟨_, _, hrun, rfl, rfl, (mailbox_no_lost_wakeup _ 0 _ 2 .fifo hrun).1 (by decide)⟩

end Counting

end RtThread.Mailbox
