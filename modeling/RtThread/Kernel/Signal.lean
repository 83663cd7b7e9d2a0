import RtThread.Core.Machine
import RtThread.Kernel.Thread

set_option linter.all false

/-!
# Signals of a thread

`signal.c` on a uniprocessor, for one target thread.  A signal is queued for the
target in two places, a bit of `sig_pending` and a node of `si_list`.
`rt_thread_kill` looks for the node in one section with interrupts disabled and
appends a new one in another; the target takes nodes off in the loop of
`rt_thread_handle_sig`, before each handler, and in `rt_signal_wait`.

An act is one such section.  A call of `rt_thread_kill` is named by a sender,
which is the target itself, another thread or an interrupt routine.  What the
handlers do is left open: every call the target can make can be made by one.
-/

namespace RtThread.Signal

open RtThread.Core RtThread.Kernel

/-- Signal numbers below `RT_SIG_MAX`. -/
abbrev Signo := Fin 32

/-- `siginfo_t`. -/
structure SigInfo where
  signo : Signo
  code : ℕ
  value : Option ℕ
  deriving DecidableEq

/-- `SI_USER`. -/
def siUser : ℕ := 1

/-- The information that `rt_thread_kill` queues. -/
def SigInfo.sent (signo : Signo) : SigInfo := ⟨signo, siUser, none⟩

/-- A function in `sig_vectors`. -/
inductive Handler
  | default
  | user (entry : ℕ)
  deriving DecidableEq

/-- The handler argument of `rt_signal_install`. -/
inductive Disposition
  | ignore
  | default
  | user (entry : ℕ)
  deriving DecidableEq

def Disposition.handler : Disposition → Option Handler
  | .ignore => none
  | .default => some .default
  | .user entry => some (.user entry)

/-- Who runs `rt_thread_kill`. -/
inductive Context
  | target
  | thread
  | interrupt
  deriving DecidableEq

/-- Where a call of `rt_thread_kill` is. -/
inductive Phase
  | idle
  /-- In front of the allocation of a node. -/
  | allocating (signo : Signo)
  /-- In front of the section that appends the node. -/
  | inserting (signo : Signo)
  /-- In front of `_signal_deliver`; `rt_signal_unmask` gets here too. -/
  | delivering
  deriving DecidableEq

/-- A call of `rt_thread_handle_sig` that the target is in. -/
inductive Frame
  /-- A handler runs, with interrupts enabled. -/
  | handling (cleanState : Bool)
  /-- `_signal_entry`, back from a call that ran no loop. -/
  | leaving
  deriving DecidableEq

/-- The signal fields of the target, and the calls in progress. -/
structure State (Sender : Type*) where
  sigMask : Finset Signo
  sigPending : Finset Signo
  siList : List SigInfo
  sigVectors : Option (Signo → Option Handler)
  stat : Stat
  /-- `RT_THREAD_STAT_SIGNAL`. -/
  signal : Bool
  /-- `RT_THREAD_STAT_SIGNAL_PENDING`. -/
  signalPending : Bool
  /-- `RT_THREAD_STAT_SIGNAL_WAIT`, with the set that is waited for. -/
  signalWait : Option (Finset Signo)
  /-- The saved stack pointer leads to `_signal_entry`. -/
  signalEntry : Bool
  frames : List Frame
  phase : Sender → Phase

inductive Action (Sender : Type*)
  /-- `rt_thread_kill`, up to the end of its first section. -/
  | kill (sender : Sender) (signo : Signo)
  | alloc (sender : Sender) (found : Bool)
  | insert (sender : Sender)
  | deliver (sender : Sender)
  | install (signo : Signo) (disposition : Disposition)
  | mask (signo : Signo)
  /-- `rt_signal_unmask`, up to the end of its first section. -/
  | unmask (sender : Sender) (signo : Signo)
  /-- `rt_signal_wait`, up to the end of its first section. -/
  | wait (set : Finset Signo) (timeout : ℤ)
  /-- The last section of `rt_signal_wait`. -/
  | endWait (timedOut : Bool)
  | handlerReturns
  /-- The end of `_signal_entry`. -/
  | leave
  /-- The target blocks in another call of the kernel. -/
  | block
  /-- Another thread suspends the target. -/
  | suspend
  /-- The target is resumed by something other than a signal. -/
  | resume
  | switchOut
  | switchIn
  /-- The target is back in `rt_schedule`. -/
  | afterSwitch
  deriving DecidableEq

inductive Event
  /-- The siginfo of a pending signal was replaced. -/
  | updated
  | missing
  | allocated
  | noMemory
  | queued (signo : Signo)
  /-- `_signal_deliver` did nothing. -/
  | ignored
  /-- It only set `RT_THREAD_STAT_SIGNAL`. -/
  | flagged
  | resumed
  | redirected
  /-- `rt_thread_handle_sig` took a node, and ran the handler if there is one. -/
  | handled (signo : Signo) (handler : Option Handler)
  /-- It returned after its loop. -/
  | finished
  /-- It returned without a loop. -/
  | skipped
  | taken (info : Option SigInfo)
  | invalid
  | timedOut
  | moved
  deriving DecidableEq

variable {Sender : Type*} [DecidableEq Sender]

def State.setPhase (st : State Sender) (sender : Sender) (phase : Phase) : State Sender :=
  { st with phase := Function.update st.phase sender phase }

/-- `sig_pending & sig_mask` is not zero. -/
def State.Interested (st : State Sender) : Prop :=
  (st.sigPending ∩ st.sigMask).Nonempty

instance (st : State Sender) : Decidable st.Interested :=
  inferInstanceAs (Decidable (Finset.Nonempty _))

/-- One turn of the loop of `rt_thread_handle_sig`, up to the handler, or the
end of the loop.  Both callers clear `RT_THREAD_STAT_SIGNAL` after it with
interrupts still disabled. -/
def handleLoop (cleanState : Bool) (st : State Sender) : State Sender × Event :=
  if st.Interested then
    match st.siList with
    | [] => ({ st with signal := false }, .finished)
    | node :: rest =>
      ({ st with
          siList := rest
          sigPending := st.sigPending.erase node.signo
          frames := .handling cleanState :: st.frames },
        .handled node.signo (st.sigVectors.bind fun vectors => vectors node.signo))
  else ({ st with signal := false }, .finished)

/-- `rt_thread_handle_sig`.  Where it runs no loop, its caller in `_signal_entry`
clears `RT_THREAD_STAT_SIGNAL` later and the other callers do not. -/
def rtThreadHandleSig (cleanState : Bool) (st : State Sender) : State Sender × Event :=
  if st.Interested ∧ st.signalWait = none then handleLoop cleanState st
  else if cleanState then (st, .skipped)
  else ({ st with frames := .leaving :: st.frames }, .skipped)

/-- `_signal_deliver`. -/
def signalDeliver (context : Context) (st : State Sender) : State Sender × Event :=
  if ¬st.Interested then (st, .ignored)
  else
    match st.stat with
    | .suspend => ({ st with stat := .ready, signal := true, signalPending := true }, .resumed)
    | .running =>
      if context = .target then rtThreadHandleSig true { st with signal := true }
      else ({ st with signal := true }, .flagged)
    | _ =>
      if st.signal then (st, .ignored)
      else ({ st with signal := true, signalPending := false, signalEntry := true },
        .redirected)

/-- The search of `rt_signal_wait` for the first pending signal of the set. -/
def waitTake (set : Finset Signo) (st : State Sender) : State Sender × Event :=
  match st.siList.find? fun node => node.signo ∈ set with
  | none => (st, .taken none)
  | some node =>
    ({ st with
        siList := st.siList.eraseP fun node => node.signo ∈ set
        sigPending := st.sigPending.erase node.signo },
      .taken (some node))

/-- `rt_signal_wait`, up to the section it ends or suspends in. -/
def rtSignalWait (set : Finset Signo) (timeout : ℤ) (st : State Sender) :
    State Sender × Event :=
  if set = ∅ then (st, .invalid)
  else if (st.sigPending ∩ set).Nonempty then waitTake set st
  else if timeout = 0 then (st, .timedOut)
  else ({ st with stat := .suspend, signalWait := some set }, .moved)

/-- The update of the first node of a signal. -/
def updateInfo (signo : Signo) : List SigInfo → List SigInfo
  | [] => []
  | node :: rest =>
    if node.signo = signo then SigInfo.sent signo :: rest else node :: updateInfo signo rest

/-- The first section of `rt_thread_kill`. -/
def rtThreadKill (sender : Sender) (signo : Signo) (st : State Sender) : State Sender × Event :=
  if signo ∈ st.sigPending ∧ ∃ node ∈ st.siList, node.signo = signo then
    ({ st with siList := updateInfo signo st.siList }, .updated)
  else (st.setPhase sender (.allocating signo), .missing)

/-- `rt_signal_install`; the vectors are allocated with the default handler. -/
def rtSignalInstall (signo : Signo) (disposition : Disposition) (st : State Sender) :
    State Sender :=
  let vectors := st.sigVectors.getD fun _ => some .default
  { st with sigVectors := some (Function.update vectors signo disposition.handler) }

/-- The target can run code of its own. -/
def State.Free (st : State Sender) : Prop :=
  st.stat = .running ∧ st.signalWait = none ∧ st.frames.head? ≠ some .leaving

instance (st : State Sender) : Decidable st.Free :=
  inferInstanceAs (Decidable (_ ∧ _))

/-- The context can run.  Another thread runs only while the target does not. -/
def State.Able (st : State Sender) : Context → Prop
  | .target => st.Free
  | .thread => st.stat ≠ .running
  | .interrupt => True

instance (st : State Sender) : (context : Context) → Decidable (st.Able context)
  | .target => inferInstanceAs (Decidable st.Free)
  | .thread => inferInstanceAs (Decidable (_ ≠ _))
  | .interrupt => inferInstanceAs (Decidable True)

def step (context : Sender → Context) (st : State Sender) :
    Action Sender → Option (State Sender × Event)
  | .kill sender signo =>
    if st.Able (context sender) ∧ st.phase sender = .idle then
      some (rtThreadKill sender signo st)
    else none
  | .alloc sender found =>
    match st.phase sender with
    | .allocating signo =>
      if st.Able (context sender) then
        if found then some (st.setPhase sender (.inserting signo), .allocated)
        else some (st.setPhase sender .delivering, .noMemory)
      else none
    | _ => none
  | .insert sender =>
    match st.phase sender with
    | .inserting signo =>
      if st.Able (context sender) then
        some ({ st.setPhase sender .delivering with
            siList := st.siList ++ [SigInfo.sent signo]
            sigPending := insert signo st.sigPending },
          .queued signo)
      else none
    | _ => none
  | .deliver sender =>
    if st.Able (context sender) ∧ st.phase sender = .delivering then
      some (signalDeliver (context sender) (st.setPhase sender .idle))
    else none
  | .install signo disposition =>
    if st.Free then some (rtSignalInstall signo disposition st, .moved) else none
  | .mask signo =>
    if st.Free then some ({ st with sigMask := st.sigMask.erase signo }, .moved)
    else none
  | .unmask sender signo =>
    if st.Free ∧ context sender = .target ∧ st.phase sender = .idle then
      let next := { st with sigMask := insert signo st.sigMask }
      if next.Interested then some (next.setPhase sender .delivering, .moved)
      else some (next, .moved)
    else none
  | .wait set timeout => if st.Free then some (rtSignalWait set timeout st) else none
  | .endWait timedOut =>
    match st.signalWait with
    | none => none
    | some set =>
      if st.stat = .running ∧ st.frames.head? ≠ some .leaving then
        let next := { st with signalWait := none }
        if timedOut then some (next, .timedOut) else some (waitTake set next)
      else none
  | .handlerReturns =>
    match st.frames with
    | .handling cleanState :: frames =>
      if st.Free then some (handleLoop cleanState { st with frames := frames }) else none
    | _ => none
  | .leave =>
    match st.frames with
    | .leaving :: frames =>
      if st.stat = .running then
        some ({ st with frames := frames, signal := false }, .moved)
      else none
    | _ => none
  | .block => if st.Free then some ({ st with stat := .suspend }, .moved) else none
  | .suspend =>
    if st.stat = .ready then some ({ st with stat := .suspend }, .moved) else none
  | .resume =>
    if st.stat = .suspend then some ({ st with stat := .ready }, .moved) else none
  | .switchOut =>
    if st.stat = .running then some ({ st with stat := .ready }, .moved) else none
  | .switchIn =>
    if st.stat = .ready then
      let next := { st with stat := .running, signalEntry := false }
      if st.signalEntry then some (rtThreadHandleSig false next) else some (next, .moved)
    else none
  | .afterSwitch =>
    if st.stat = .running ∧ st.frames.head? ≠ some .leaving ∧ st.signalPending then
      some (rtThreadHandleSig true { st with signalPending := false })
    else none

def machine (context : Sender → Context) : Machine (State Sender) (Action Sender) Event where
  step := step context

/-- The target after its start, with no signal unmasked. -/
def init : State Sender where
  sigMask := ∅
  sigPending := ∅
  siList := []
  sigVectors := none
  stat := .ready
  signal := false
  signalPending := false
  signalWait := none
  signalEntry := false
  frames := []
  phase := fun _ => .idle

/-! ## What an action does to the queue -/

/-- The signal numbers of `si_list`. -/
def State.signos (st : State Sender) : List Signo := st.siList.map SigInfo.signo

/-- What the target does to the queue: it holds the same signals, or one node has
been taken off. -/
inductive Drains (st next : State Sender) : Prop
  | kept (hlist : next.signos = st.signos) (hpending : next.sigPending = st.sigPending)
  | took (front : List SigInfo) (node : SigInfo) (back : List SigInfo)
      (hlist : st.siList = front ++ node :: back) (hrest : next.siList = front ++ back)
      (hpending : next.sigPending = st.sigPending.erase node.signo)

/-- The queue after an action: it is drained, or the second section of
`rt_thread_kill` has appended a node. -/
inductive QueueStep (st next : State Sender) : Action Sender → Prop
  | drains {act : Action Sender} (h : Drains st next) : QueueStep st next act
  | inserted {sender : Sender} (signo : Signo) (hphase : st.phase sender = .inserting signo)
      (hlist : next.siList = st.siList ++ [SigInfo.sent signo])
      (hpending : next.sigPending = insert signo st.sigPending) :
      QueueStep st next (.insert sender)

section QueueStep

variable {st base next : State Sender} {act : Action Sender} {event : Event}

omit [DecidableEq Sender] in
theorem Drains.of_eq (h : Drains base next) (hlist : base.siList = st.siList)
    (hpending : base.sigPending = st.sigPending) : Drains st next := by
  cases h with
  | kept hkept hsame =>
    exact .kept (hkept.trans (congrArg (List.map SigInfo.signo) hlist)) (hsame.trans hpending)
  | took front node back hbase hrest hsame =>
    exact .took front node back (hlist.symm.trans hbase) hrest (by rw [hsame, hpending])

omit [DecidableEq Sender] in
theorem handleLoop_drains {cleanState : Bool}
    (hresult : handleLoop cleanState st = (next, event)) : Drains st next := by
  rw [handleLoop] at hresult
  split at hresult
  · split at hresult
    · cases hresult
      exact .kept rfl rfl
    · rename_i node rest hlist
      cases hresult
      exact .took [] node rest hlist rfl rfl
  · cases hresult
    exact .kept rfl rfl

omit [DecidableEq Sender] in
theorem rtThreadHandleSig_drains {cleanState : Bool}
    (hresult : rtThreadHandleSig cleanState st = (next, event)) : Drains st next := by
  rw [rtThreadHandleSig] at hresult
  split at hresult
  · exact handleLoop_drains hresult
  · split at hresult <;> cases hresult <;> exact .kept rfl rfl

omit [DecidableEq Sender] in
theorem signalDeliver_drains {context : Context}
    (hresult : signalDeliver context st = (next, event)) : Drains st next := by
  rw [signalDeliver] at hresult
  split at hresult
  · cases hresult
    exact .kept rfl rfl
  · split at hresult
    · cases hresult
      exact .kept rfl rfl
    · split at hresult
      · exact (rtThreadHandleSig_drains hresult).of_eq rfl rfl
      · cases hresult
        exact .kept rfl rfl
    · split at hresult <;> cases hresult <;> exact .kept rfl rfl

omit [DecidableEq Sender] in
theorem waitTake_drains {set : Finset Signo}
    (hresult : waitTake set st = (next, event)) : Drains st next := by
  rw [waitTake] at hresult
  split at hresult
  · cases hresult
    exact .kept rfl rfl
  · rename_i node hfind
    cases hresult
    obtain ⟨hmem, front, back, hlist, hfront⟩ := List.find?_eq_some_iff_append.1 hfind
    refine .took front node back hlist ?_ rfl
    change st.siList.eraseP _ = _
    rw [hlist, List.eraseP_append_right _ (by simpa using hfront), List.eraseP_cons, hmem,
      cond_true]

omit [DecidableEq Sender] in
theorem rtSignalWait_drains {set : Finset Signo} {timeout : ℤ}
    (hresult : rtSignalWait set timeout st = (next, event)) : Drains st next := by
  rw [rtSignalWait] at hresult
  split at hresult
  · cases hresult
    exact .kept rfl rfl
  · split at hresult
    · exact waitTake_drains hresult
    · split at hresult <;> cases hresult <;> exact .kept rfl rfl

theorem map_signo_updateInfo (signo : Signo) (list : List SigInfo) :
    (updateInfo signo list).map SigInfo.signo = list.map SigInfo.signo := by
  induction list with
  | nil => rfl
  | cons node rest ih =>
    rw [updateInfo]
    split
    · rename_i hsigno
      simp [SigInfo.sent, hsigno]
    · simp [ih]

theorem rtThreadKill_drains {sender : Sender} {signo : Signo}
    (hresult : rtThreadKill sender signo st = (next, event)) : Drains st next := by
  rw [rtThreadKill] at hresult
  split at hresult <;> cases hresult
  · exact .kept (map_signo_updateInfo signo st.siList) rfl
  · exact .kept rfl rfl

theorem step_queueStep {context : Sender → Context}
    (hstep : step context st act = some (next, event)) : QueueStep st next act := by
  cases act with
  | kill sender signo =>
    simp only [step] at hstep
    split at hstep
    · exact .drains (rtThreadKill_drains (Option.some.inj hstep))
    · cases hstep
  | alloc sender found =>
    simp only [step] at hstep
    split at hstep
    · split at hstep
      · split at hstep <;> cases hstep <;> exact .drains (.kept rfl rfl)
      · cases hstep
    · cases hstep
  | insert sender =>
    simp only [step] at hstep
    split at hstep
    · rename_i signo hphase
      split at hstep
      · cases hstep
        exact .inserted signo hphase rfl rfl
      · cases hstep
    · cases hstep
  | deliver sender =>
    simp only [step] at hstep
    split at hstep
    · exact .drains ((signalDeliver_drains (Option.some.inj hstep)).of_eq rfl rfl)
    · cases hstep
  | install signo disposition =>
    simp only [step] at hstep
    split at hstep <;> cases hstep
    exact .drains (.kept rfl rfl)
  | mask signo =>
    simp only [step] at hstep
    split at hstep <;> cases hstep
    exact .drains (.kept rfl rfl)
  | unmask sender signo =>
    simp only [step] at hstep
    split at hstep
    · split at hstep <;> cases hstep <;> exact .drains (.kept rfl rfl)
    · cases hstep
  | wait set timeout =>
    simp only [step] at hstep
    split at hstep
    · exact .drains (rtSignalWait_drains (Option.some.inj hstep))
    · cases hstep
  | endWait timedOut =>
    simp only [step] at hstep
    split at hstep
    · cases hstep
    · split at hstep
      · split at hstep
        · cases hstep
          exact .drains (.kept rfl rfl)
        · exact .drains ((waitTake_drains (Option.some.inj hstep)).of_eq rfl rfl)
      · cases hstep
  | handlerReturns =>
    simp only [step] at hstep
    split at hstep
    · split at hstep
      · exact .drains ((handleLoop_drains (Option.some.inj hstep)).of_eq rfl rfl)
      · cases hstep
    · cases hstep
  | leave =>
    simp only [step] at hstep
    split at hstep
    · split at hstep <;> cases hstep
      exact .drains (.kept rfl rfl)
    · cases hstep
  | block | suspend | resume | switchOut =>
    simp only [step] at hstep
    split at hstep <;> cases hstep
    exact .drains (.kept rfl rfl)
  | switchIn =>
    simp only [step] at hstep
    split at hstep
    · split at hstep
      · exact .drains ((rtThreadHandleSig_drains (Option.some.inj hstep)).of_eq rfl rfl)
      · cases hstep
        exact .drains (.kept rfl rfl)
    · cases hstep
  | afterSwitch =>
    simp only [step] at hstep
    split at hstep
    · exact .drains ((rtThreadHandleSig_drains (Option.some.inj hstep)).of_eq rfl rfl)
    · cases hstep

end QueueStep

/-! ## The bits and the list -/

/-- A bit of `sig_pending` is set exactly when `si_list` has a node of the signal,
and no signal has two nodes. -/
structure Consistent (st : State Sender) : Prop where
  pending : ∀ signo, signo ∈ st.sigPending ↔ signo ∈ st.signos
  nodup : st.signos.Nodup

/-- A node is appended only while the bit of its signal is clear. -/
def InsertsFresh (st : State Sender) : Action Sender → Prop
  | .insert sender => ∀ signo, st.phase sender = .inserting signo → signo ∉ st.sigPending
  | _ => True

instance (st : State Sender) : (act : Action Sender) → Decidable (InsertsFresh st act)
  | .insert _ => inferInstanceAs (Decidable (∀ _, _))
  | .kill .. | .alloc .. | .deliver .. | .install .. | .mask .. | .unmask .. | .wait ..
  | .endWait .. | .handlerReturns | .leave | .block | .suspend | .resume | .switchOut
  | .switchIn | .afterSwitch => inferInstanceAs (Decidable True)

section Consistent

variable {st next : State Sender} {act : Action Sender} {event : Event}

omit [DecidableEq Sender] in
theorem Consistent.drains (h : Consistent st) (hdrains : Drains st next) :
    Consistent next := by
  cases hdrains with
  | kept hlist hpending =>
    refine ⟨fun signo => ?_, by rw [hlist]; exact h.nodup⟩
    rw [hpending, hlist]
    exact h.pending signo
  | took front node back hlist hrest hpending =>
    have hsignos : st.signos =
        front.map SigInfo.signo ++ node.signo :: back.map SigInfo.signo := by
      rw [State.signos, hlist, List.map_append, List.map_cons]
    have hnext : next.signos = front.map SigInfo.signo ++ back.map SigInfo.signo := by
      rw [State.signos, hrest, List.map_append]
    have hnodup := h.nodup
    rw [hsignos, List.nodup_middle, List.nodup_cons] at hnodup
    refine ⟨fun signo => ?_, by rw [hnext]; exact hnodup.2⟩
    rw [hpending, hnext, Finset.mem_erase, h.pending, hsignos, List.mem_append, List.mem_cons,
      List.mem_append]
    constructor
    · rintro ⟨hne, hfront | heq | hback⟩
      · exact Or.inl hfront
      · exact absurd heq hne
      · exact Or.inr hback
    · intro hmem
      have hne : signo ≠ node.signo := by
        rintro rfl
        exact hnodup.1 (List.mem_append.2 hmem)
      exact ⟨hne, hmem.imp_right Or.inr⟩

theorem Consistent.step {context : Sender → Context} (h : Consistent st)
    (hfresh : InsertsFresh st act)
    (hstep : step context st act = some (next, event)) : Consistent next := by
  cases step_queueStep hstep with
  | drains hdrains => exact h.drains hdrains
  | inserted signo hphase hlist hpending =>
    have hnext : next.signos = st.signos ++ [signo] := by
      rw [State.signos, hlist, List.map_append]
      rfl
    have hnew : signo ∉ st.signos := fun hmem =>
      hfresh signo hphase ((h.pending signo).2 hmem)
    refine ⟨fun other => ?_, ?_⟩
    · rw [hpending, hnext, Finset.mem_insert, h.pending, List.mem_append, List.mem_singleton,
        or_comm]
    · rw [hnext, List.nodup_append_comm, List.singleton_append, List.nodup_cons]
      exact ⟨hnew, h.nodup⟩

/-- Appending a signal that is pending gives it a second node. -/
theorem not_consistent_of_insert {context : Sender → Context} (h : Consistent st)
    (hstale : ¬InsertsFresh st act)
    (hstep : step context st act = some (next, event)) : ¬Consistent next := by
  intro hnext
  cases act with
  | insert sender =>
    simp only [InsertsFresh, not_forall, not_not] at hstale
    obtain ⟨signo, hphase, hmem⟩ := hstale
    simp only [Signal.step, hphase] at hstep
    split at hstep
    · cases hstep
      have hnodup := hnext.nodup
      rw [State.signos, List.map_append, List.nodup_append] at hnodup
      exact hnodup.2.2 signo ((h.pending signo).1 hmem) signo (by simp [SigInfo.sent]) rfl
    · cases hstep
  | _ => exact hstale trivial

end Consistent

/-- For any senders and any order of their sections with those of the target, the
pending bits and the list agree in every state exactly when no `rt_thread_kill`
appends a node while the bit of its signal is set. -/
theorem pending_iff_queued {context : Sender → Context} {last : State Sender}
    {trace : List (Action Sender × Event)} (hrun : (machine context).Run init trace last) :
    ((machine context).RunWith (fun st _ => Consistent st) init trace last ∧
        Consistent last) ↔
      (machine context).RunWith InsertsFresh init trace last :=
  hrun.always_iff Consistent Consistent (fun _ h => h)
    (fun _ _ _ _ h hfresh hstep => h.step hfresh hstep)
    (fun _ _ _ _ h hstale hstep => not_consistent_of_insert h hstale hstep)
    ⟨fun _ => by simp [init, State.signos], List.nodup_nil⟩

/-- The senders are other threads. -/
def betweenThreads : ℕ → Context := fun _ => .thread

/-- One thread queues a signal, and another finds it pending. -/
def scheduleRepeated : List (Action ℕ) :=
  [.kill 0 3, .alloc 0 true, .insert 0, .kill 1 3, .deliver 0, .kill 1 4, .alloc 1 true, .insert 1]

theorem isSome_scheduleRepeated : ((machine betweenThreads).exec InsertsFresh init
    scheduleRepeated).isSome = true := by
  decide

theorem pending_iff_queued_scheduleRepeated : ∃ trace last,
    (machine betweenThreads).RunWith InsertsFresh init trace last ∧
      trace.map Prod.fst = scheduleRepeated ∧
        (machine betweenThreads).RunWith (fun st _ => Consistent st) init trace last ∧
          Consistent last := by
  have hrun := Machine.runWith_of_isSome scheduleRepeated isSome_scheduleRepeated
  exact ⟨_, _, hrun, Machine.actions_of_isSome scheduleRepeated isSome_scheduleRepeated,
    (pending_iff_queued hrun.run).2 hrun⟩

/-- Two threads look for the signal before either has queued it. -/
def scheduleTwice : List (Action ℕ) :=
  [.kill 0 3, .kill 1 3, .alloc 0 true, .alloc 1 true, .insert 0, .insert 1]

theorem exec_scheduleTwice : ((machine betweenThreads).exec (fun _ _ => True) init
    scheduleTwice).map (fun result => (result.1.signos, result.2.map Prod.fst)) =
      some ([3, 3], scheduleTwice) := by
  decide

theorem signal_queued_twice : ∃ trace last, (machine betweenThreads).Run init trace last ∧
    trace.map Prod.fst = scheduleTwice ∧ ¬Consistent last := by
  obtain ⟨⟨last, trace⟩, hexec, hresult⟩ := Option.map_eq_some_iff.1 exec_scheduleTwice
  rw [Prod.mk.injEq] at hresult
  refine ⟨trace, last, Machine.runWith_of_exec scheduleTwice hexec, hresult.2, fun h => ?_⟩
  have hnodup := h.nodup
  rw [hresult.1] at hnodup
  exact absurd hnodup (by decide)

end RtThread.Signal
