import RtThread.Ipc.Event

set_option linter.all false

/-!
# The two paths of a receiver

`rt_event_recv` tests its request against the event set itself when the events are there, and
leaves the test to `rt_event_send` when it has to wait.  The two tests are written separately:
the first on the arguments of the call, the second on what the call has stored in the thread,
which the send overwrites with the bits received.
-/

namespace RtThread.EventSet

open RtThread.Core
open RtThread.Kernel

variable {Tid : Type*}

/-- What a receiver has got: whether its request is satisfied, what `recved` was given, and the
event set that remains. -/
structure Receipt where
  satisfied : Bool
  recved : Option (BitVec 32)
  set : BitVec 32
  deriving DecidableEq

def receipt : State Tid × Event Tid → Receipt
  | (st, .returned _ .eok recved) => ⟨true, recved, st.event.set⟩
  | (st, _) => ⟨false, none, st.event.set⟩

variable [DecidableEq Tid]

/-- The thread calls `rt_event_recv` after the bits were sent. -/
def recvAfterSend (st : State Tid) (tid : Tid) (request : BitVec 32) (option : BitVec 8)
    (timeout : ℤ) (bits : BitVec 32) : Option Receipt :=
  (rtEventRecv (rtEventSend st bits).1 tid request option timeout).map receipt

/-- The thread waits inside `rt_event_recv` when the bits are sent.  It returns if the send has
resumed it. -/
def recvBeforeSend (st : State Tid) (tid : Tid) (bits : BitVec 32) : Receipt :=
  let sent := (rtEventSend st bits).1
  if (sent.threads tid).stat = .suspend then receipt (sent, .suspended tid)
  else receipt (finishRecv sent tid)

/-- Each waiter has asked for something, with one of the two flags. -/
def Asked (st : State Tid) : Prop :=
  ∀ tid ∈ st.event.suspendThread, (st.threads tid).eventSet ≠ 0 ∧
    ¬((st.threads tid).eventInfo &&& rtEventFlagAnd = 0 ∧
      (st.threads tid).eventInfo &&& rtEventFlagOr = 0)

variable {st next : State Tid}

omit [DecidableEq Tid] in
theorem Asked.of_same (hasked : Asked st)
    (hsame : ∀ tid ∈ next.event.suspendThread, tid ∈ st.event.suspendThread ∧
      next.threads tid = st.threads tid) :
    Asked next := by
  intro tid hmem
  obtain ⟨hold, hthread⟩ := hsame tid hmem
  rw [hthread]
  exact hasked tid hold

theorem asked_rtEventSend (hinv : Inv st) (hasked : Asked st) (bits : BitVec 32) :
    Asked (rtEventSend st bits).1 := by
  by_cases hbits : bits = 0
  · rw [rtEventSend, if_pos hbits]
    exact hasked
  · obtain ⟨-, -, hevent, hdelivers⟩ := rtEventSend_eq_scan hinv hbits
    refine hasked.of_same fun tid hmem => ?_
    rw [hevent] at hmem
    obtain ⟨hold, hpassed⟩ := List.mem_filter.1 hmem
    exact ⟨hold, hdelivers.others tid (of_decide_eq_true hpassed)⟩

theorem asked_rtEventRecv {tid : Tid} {request : BitVec 32} {option : BitVec 8} {timeout : ℤ}
    {event : Event Tid} (hinv : Inv st) (hasked : Asked st) (hcall : st.canCall tid)
    (hstep : rtEventRecv st tid request option timeout = some (next, event)) : Asked next := by
  have hout := hinv.not_mem_of_out hcall.1
  have hother : ∀ operation, ∀ other ∈ st.event.suspendThread,
      other ∈ st.event.suspendThread ∧
        modify st.threads tid operation other = st.threads other := by
    intro operation other hmem
    exact ⟨hmem, modify_of_ne _ _ (ne_of_mem_of_not_mem hmem hout)⟩
  unfold rtEventRecv at hstep
  split_ifs at hstep with hrequest hflags hsatisfied htimeout <;>
    cases hstep
  · exact hasked
  · exact hasked.of_same (hother _)
  · exact hasked.of_same (hother _)
  · intro other hmem
    obtain ⟨-, -, hset, hoption⟩ :=
      suspendSelf_self request option timeout (hcall.2 : (st.threads tid).runnable)
    by_cases hne : other = tid
    · subst hne
      rw [hset, hoption]
      exact ⟨hrequest, hflags⟩
    · rw [(suspendSelf_of_ne st request option timeout hne).2]
      exact hasked other ((mem_suspendSelf.1 hmem).resolve_left hne)

theorem asked_step {act : Action Tid} {event : Event Tid} (hinv : Inv st) (hasked : Asked st)
    (hstep : step st act = some (next, event)) : Asked next := by
  cases act with
  | send bits =>
    obtain rfl := congrArg Prod.fst (Option.some.inj hstep)
    exact asked_rtEventSend hinv hasked bits
  | recv tid request option timeout =>
    simp only [step] at hstep
    split at hstep
    · next hcall => exact asked_rtEventRecv hinv hasked hcall hstep
    · contradiction
  | control cmd =>
    obtain rfl := congrArg Prod.fst (Option.some.inj hstep)
    rw [rtEventControl]
    split
    · intro tid hmem
      contradiction
    · exact hasked
  | timeout tid =>
    simp only [step] at hstep
    split at hstep
    · obtain ⟨rfl, -⟩ := Prod.mk.inj (Option.some.inj hstep)
      refine hasked.of_same fun other hmem => ?_
      have hold := (hinv.nodup.mem_erase_iff.1 hmem)
      exact ⟨hold.2, modify_of_ne _ _ hold.1⟩
    · contradiction
  | resume tid =>
    simp only [step] at hstep
    split at hstep
    · obtain rfl := congrArg Prod.fst (Option.some.inj hstep)
      exact hasked.of_same fun other hmem => ⟨hmem, rfl⟩
    · contradiction

/-! ## The two paths -/

/-- Clearing the request or clearing the bits of it that were set leaves the same set. -/
theorem consume_and (option : BitVec 8) (request set : BitVec 32) :
    consume option (request &&& set) set = consume option request set := by
  have hclear : set &&& ~~~(request &&& set) = set &&& ~~~request := by
    ext index hindex
    simp only [BitVec.getElem_and, BitVec.getElem_not]
    cases request[index] <;> cases set[index] <;> rfl
  rw [consume, consume, hclear]

theorem set_rtEventSend_of_alone (hlist : st.event.suspendThread = []) (bits : BitVec 32) :
    (rtEventSend st bits).1.event.set = st.event.set ||| bits := by
  by_cases hbits : bits = 0
  · have hsame : st.event.set ||| bits = st.event.set := by simp [hbits]
    rw [rtEventSend, if_pos hbits, hsame]
  · rw [rtEventSend, if_neg hbits]
    dsimp only
    rw [hlist]
    rfl

theorem recvAfterSend_eq (hlist : st.event.suspendThread = []) (tid : Tid) {request : BitVec 32}
    {option : BitVec 8} (timeout : ℤ) (bits : BitVec 32) (hrequest : request ≠ 0)
    (hflags : ¬(option &&& rtEventFlagAnd = 0 ∧ option &&& rtEventFlagOr = 0)) :
    recvAfterSend st tid request option timeout bits =
      some (if satisfied option request (st.event.set ||| bits) = true then
        ⟨true, some ((st.event.set ||| bits) &&& request),
          consume option request (st.event.set ||| bits)⟩
      else ⟨false, none, st.event.set ||| bits⟩) := by
  have hset := set_rtEventSend_of_alone hlist bits
  rw [recvAfterSend, rtEventRecv, if_neg hrequest, if_neg hflags, hset]
  by_cases hsatisfied : satisfied option request (st.event.set ||| bits) = true
  · rw [if_pos hsatisfied, if_pos hsatisfied]
    rfl
  · rw [if_neg hsatisfied, if_neg hsatisfied]
    split
    · rw [Option.map_some, receipt, hset]
      simp
    · rw [Option.map_some, receipt, suspendSelf, hset]
      simp

theorem recvBeforeSend_eq (hinv : Inv st) {tid : Tid} (hlist : st.event.suspendThread = [tid])
    (bits : BitVec 32) : let request := (st.threads tid).eventSet
    let option := (st.threads tid).eventInfo
    recvBeforeSend st tid bits =
      if satisfied option request (st.event.set ||| bits) = true then
        ⟨true, some ((st.event.set ||| bits) &&& request),
          consume option request (st.event.set ||| bits)⟩
      else ⟨false, none, st.event.set ||| bits⟩ := by
  intro request option
  have hmem : tid ∈ st.event.suspendThread := hlist ▸ List.mem_singleton_self tid
  have hstat := ((hinv.mem_iff tid).1 hmem).2
  have hclean := hinv.clean tid hmem
  have hwaits := hinv.unsatisfied tid hmem
  rw [recvBeforeSend]
  by_cases hbits : bits = 0
  · have hsame : st.event.set ||| bits = st.event.set := by simp [hbits]
    rw [rtEventSend, if_pos hbits, if_pos hstat, hsame,
      if_neg (show ¬satisfied option request _ = true from hwaits)]
    rfl
  obtain ⟨-, -, hevent, hdelivers⟩ := rtEventSend_eq_scan hinv hbits
  rw [hlist] at hevent hdelivers
  by_cases hsatisfied : satisfied option request (st.event.set ||| bits) = true
  · have hselected : scan st.threads (st.event.set ||| bits) [tid] =
        ([(tid, request &&& (st.event.set ||| bits))],
          consume option request (st.event.set ||| bits)) := by
      have htail := consume_and option request (st.event.set ||| bits)
      rw [scan_cons, if_pos (show Satisfied (st.threads tid) _ from hsatisfied), ← htail]
      rfl
    rw [hselected] at hevent hdelivers
    have hthread := hdelivers.woken _ (List.mem_singleton_self _)
    have hready : ((rtEventSend st bits).1.threads tid).stat = .ready := by
      rw [hthread]
      exact stat_rtThreadResume hstat
    rw [if_pos hsatisfied, if_neg (by simp [hready]), finishRecv, hthread]
    simp [receipt, hclean, hevent, BitVec.and_comm]
  · have hnobody : scan st.threads (st.event.set ||| bits) [tid] =
        ([], st.event.set ||| bits) := by
      rw [scan_cons, if_neg (show ¬Satisfied (st.threads tid) _ from hsatisfied)]
      rfl
    rw [hnobody] at hevent hdelivers
    rw [if_neg hsatisfied, hdelivers.others tid (by simp), if_pos hstat, receipt, hevent]
    simp

/-- A thread that waits alone for events gets from a send what a thread gets that calls after it
with the same request and option, on an event set that was the same. -/
theorem event_paths_agree {threads : Tid → Thread} {flag : IpcFlag} {waiting : State Tid}
    {past : List (Action Tid × Event Tid)}
    (hpast : machine.Run (rtEventInit threads flag) past waiting) {tid : Tid}
    (hwaits : waiting.event.suspendThread = [tid]) {st : State Tid}
    (hnobody : st.event.suspendThread = []) (hset : st.event.set = waiting.event.set)
    (caller : Tid) (timeout : ℤ) (bits : BitVec 32) :
    recvAfterSend st caller (waiting.threads tid).eventSet (waiting.threads tid).eventInfo
      timeout bits = some (recvBeforeSend waiting tid bits) := by
  obtain ⟨hinv, hasked⟩ := hpast.invariant (fun st => Inv st ∧ Asked st)
    (fun _ _ _ _ hinv _ hstep => ⟨inv_step hinv.1 hstep, asked_step hinv.1 hinv.2 hstep⟩)
    ⟨inv_rtEventInit threads flag, fun tid hmem => by simp [rtEventInit] at hmem⟩
  obtain ⟨hrequest, hflags⟩ := hasked tid (hwaits ▸ List.mem_singleton_self tid)
  rw [recvAfterSend_eq hnobody caller timeout bits hrequest hflags,
    recvBeforeSend_eq hinv hwaits, hset]

/-- One bit of an AND request is set, and a send brings the other. -/
theorem event_paths_agree_and_clear :
    ∃ past waiting, machine.Run
        (rtEventInit (fun _ : Unit => Thread.started 10) .fifo) past waiting ∧
      recvBeforeSend waiting () 6 = ⟨true, some 3, 4⟩ ∧
      ∃ earlier st, machine.Run
          (rtEventInit (fun _ : Unit => Thread.started 10) .fifo) earlier st ∧
        recvAfterSend st () 3 (rtEventFlagAnd ||| rtEventFlagClear) 0 6 =
          some (recvBeforeSend waiting () 6) := by
  have hpast : machine.Run (rtEventInit (fun _ : Unit => Thread.started 10) .fifo) _ _ :=
    Machine.runWith_of_exec
      [.send 1, .recv () 3 (rtEventFlagAnd ||| rtEventFlagClear) (-1)] rfl
  have hearlier : machine.Run (rtEventInit (fun _ : Unit => Thread.started 10) .fifo) _ _ :=
    Machine.runWith_of_exec [.send 1] rfl
  refine ⟨_, _, hpast, by decide, _, _, hearlier, ?_⟩
  refine event_paths_agree hpast rfl ?_ ?_ () 0 6 <;> rfl

end RtThread.EventSet
