import RtThread.Core.Machine
import RtThread.Kernel.Thread

set_option linter.all false

/-!
# Event sets

`rt_event_send`, `rt_event_recv` and `rt_event_control` of `ipc.c`, run by any
number of threads.  A send walks over the suspend list with a cursor while it
takes the threads it wakes out of that list, and what one of them consumes is
missing for the next.  What the walk amounts to is `scan`, a recursion over the
list as it was.
-/

namespace RtThread.EventSet

open RtThread.Core
open RtThread.Kernel

variable {Tid : Type*}

/-- `RT_EVENT_FLAG_AND`, `RT_EVENT_FLAG_OR` and `RT_EVENT_FLAG_CLEAR`. -/
def rtEventFlagAnd : BitVec 8 := 0x01
def rtEventFlagOr : BitVec 8 := 0x02
def rtEventFlagClear : BitVec 8 := 0x04

/-- `struct rt_event`. -/
structure RtEvent (Tid : Type*) where
  set : BitVec 32
  suspendThread : List Tid
  flag : IpcFlag

/-- `inRecv` marks the threads that are inside the `rt_schedule` call of
`rt_event_recv`. -/
structure State (Tid : Type*) where
  threads : Tid → Thread
  event : RtEvent Tid
  inRecv : Tid → Bool

/-- `rt_event_init`; the object is new, so no thread is inside one of its calls. -/
def rtEventInit (threads : Tid → Thread) (flag : IpcFlag) : State Tid where
  threads := threads
  event := { set := 0, suspendThread := [], flag := flag }
  inRecv := fun _ => false

inductive Action (Tid : Type*)
  | send (set : BitVec 32)
  | recv (tid : Tid) (set : BitVec 32) (option : BitVec 8) (timeout : ℤ)
  | control (cmd : ℕ)
  /-- The thread timer of a waiter fires. -/
  | timeout (tid : Tid)
  /-- The scheduler lets a waiter return from `rt_schedule`. -/
  | resume (tid : Tid)

inductive Event (Tid : Type*)
  /-- `rt_event_send` has resumed these threads, in this order. -/
  | sent (err : Err) (woken : List Tid)
  /-- `rt_event_recv` returns; the last component is what it writes to `recved`. -/
  | returned (tid : Tid) (err : Err) (recved : Option (BitVec 32))
  | suspended (tid : Tid)
  | controlled (err : Err)
  | timedOut (tid : Tid)

/-- The test both functions make of a request against the event set. -/
def satisfied (option : BitVec 8) (request set : BitVec 32) : Bool :=
  if option &&& rtEventFlagAnd ≠ 0 then request &&& set = request
  else if option &&& rtEventFlagOr ≠ 0 then request &&& set ≠ 0
  else false

def Satisfied (thread : Thread) (set : BitVec 32) : Prop :=
  satisfied thread.eventInfo thread.eventSet set = true

instance (thread : Thread) (set : BitVec 32) : Decidable (Satisfied thread set) :=
  inferInstanceAs (Decidable (_ = true))

/-- `event->set &= ~bits`, if the option says so. -/
def consume (option : BitVec 8) (bits set : BitVec 32) : BitVec 32 :=
  if option &&& rtEventFlagClear ≠ 0 then set &&& ~~~bits else set

/-! ## The selection a send makes -/

variable {set : BitVec 32}

theorem satisfied_mono {option : BitVec 8} {request mask : BitVec 32}
    (hsatisfied : satisfied option request (set &&& mask) = true) :
    satisfied option request set = true := by
  unfold satisfied at hsatisfied ⊢
  split at hsatisfied
  · next hand =>
      simp only [hand, ne_eq, not_false_eq_true, if_true, decide_eq_true_eq] at hsatisfied ⊢
      calc
        request &&& set = request &&& (set &&& mask) &&& set := by rw [hsatisfied]
        _ = request &&& (set &&& mask) := by
          rw [BitVec.and_assoc, BitVec.and_assoc, BitVec.and_comm mask set, ← BitVec.and_assoc set,
            BitVec.and_self]
        _ = request := hsatisfied
  · next hand =>
      split at hsatisfied
      · next hor =>
          simp only [hand, hor, ne_eq, not_false_eq_true, if_true, if_false,
            decide_eq_true_eq] at hsatisfied ⊢
          intro hzero
          rw [← BitVec.and_assoc, hzero] at hsatisfied
          exact hsatisfied (by simp)
      · contradiction

/-- The waiters a send selects: in list order, each against what the `CLEAR`
waiters before it have left, with the bits of its request that were set then. -/
def scan (threads : Tid → Thread) : BitVec 32 → List Tid → List (Tid × BitVec 32) × BitVec 32
  | set, [] => ([], set)
  | set, tid :: rest =>
    if Satisfied (threads tid) set then
      let bits := (threads tid).eventSet &&& set
      let tail := scan threads (consume (threads tid).eventInfo bits set) rest
      ((tid, bits) :: tail.1, tail.2)
    else scan threads set rest

theorem scan_nil (threads : Tid → Thread) (set : BitVec 32) : scan threads set [] = ([], set) := rfl

theorem scan_cons (threads : Tid → Thread) (set : BitVec 32) (tid : Tid) (rest : List Tid) :
    scan threads set (tid :: rest) =
      if Satisfied (threads tid) set then
        ((tid, (threads tid).eventSet &&& set) ::
            (scan threads (consume (threads tid).eventInfo ((threads tid).eventSet &&& set) set)
              rest).1,
          (scan threads (consume (threads tid).eventInfo ((threads tid).eventSet &&& set) set)
            rest).2)
      else scan threads set rest := rfl

theorem consume_subset (option : BitVec 8) (bits set : BitVec 32) :
    ∃ mask, consume option bits set = set &&& mask := by
  rw [consume]
  split
  · exact ⟨~~~bits, rfl⟩
  · exact ⟨BitVec.allOnes 32, BitVec.and_allOnes.symm⟩

theorem scan_subset (threads : Tid → Thread) (set : BitVec 32) (list : List Tid) :
    ∃ mask, (scan threads set list).2 = set &&& mask := by
  induction list generalizing set with
  | nil => exact ⟨BitVec.allOnes 32, BitVec.and_allOnes.symm⟩
  | cons tid rest ih =>
    simp only [scan_cons]
    split
    · obtain ⟨mask, hmask⟩ := consume_subset (threads tid).eventInfo
        ((threads tid).eventSet &&& set) set
      obtain ⟨mask', htail⟩ := ih (consume (threads tid).eventInfo
        ((threads tid).eventSet &&& set) set)
      exact ⟨mask &&& mask', by rw [htail, hmask, BitVec.and_assoc]⟩
    · exact ih set

variable {threads : Tid → Thread} {list : List Tid}

/-- Nobody the scan passes over is satisfied by what it leaves. -/
theorem scan_unsatisfied {tid : Tid} (hmem : tid ∈ list)
    (hpassed : tid ∉ (scan threads set list).1.map Prod.fst) :
    ¬ Satisfied (threads tid) (scan threads set list).2 := by
  induction list generalizing set with
  | nil => contradiction
  | cons head rest ih =>
    simp only [scan_cons] at hpassed ⊢
    split at hpassed
    · next hsatisfied =>
        simp only [hsatisfied, if_true]
        simp only [List.map_cons, List.mem_cons, not_or] at hpassed
        exact ih ((List.mem_cons.1 hmem).resolve_left hpassed.1) hpassed.2
    · next hunsatisfied =>
        simp only [hunsatisfied, if_false]
        rcases List.mem_cons.1 hmem with rfl | hrest
        · intro hsatisfied
          obtain ⟨mask, hmask⟩ := scan_subset threads set rest
          rw [Satisfied, hmask] at hsatisfied
          exact hunsatisfied (satisfied_mono hsatisfied)
        · exact ih hrest hpassed

/-- A scan over waiters that are not satisfied selects nobody. -/
theorem scan_eq_nil (hunsatisfied : ∀ tid ∈ list, ¬ Satisfied (threads tid) set) :
    scan threads set list = ([], set) := by
  induction list with
  | nil => rfl
  | cons tid rest ih =>
    simp only [scan_cons, hunsatisfied tid List.mem_cons_self, if_false]
    exact ih fun other hother => hunsatisfied other (List.mem_cons_of_mem _ hother)

theorem scan_congr {threads' : Tid → Thread} (hsame : ∀ tid ∈ list, threads' tid = threads tid)
    (set : BitVec 32) : scan threads' set list = scan threads set list := by
  induction list generalizing set with
  | nil => rfl
  | cons tid rest ih =>
    have hrest := ih fun other hother => hsame other (List.mem_cons_of_mem _ hother)
    simp only [scan_cons, hsame tid List.mem_cons_self, hrest]

theorem scan_mem {tid : Tid} (hmem : tid ∈ (scan threads set list).1.map Prod.fst) :
    tid ∈ list := by
  induction list generalizing set with
  | nil => simp [scan_nil] at hmem
  | cons head rest ih =>
    simp only [scan_cons] at hmem
    split at hmem
    · simp only [List.map_cons, List.mem_cons] at hmem
      rcases hmem with rfl | hmem
      · exact List.mem_cons_self
      · exact List.mem_cons_of_mem _ (ih hmem)
    · exact List.mem_cons_of_mem _ (ih hmem)

/-! ## The calls -/

variable [DecidableEq Tid]

/-- `n->next` for a node of the list; `none` is the list head. -/
def nextNode (list : List Tid) (node : Tid) : Option Tid :=
  (list.dropWhile fun tid => tid ≠ node).tail.head?

/-- What the loop of `rt_event_send` works on.  `woken` records the resumed
threads, in place of `need_schedule`. -/
structure SendState (Tid : Type*) where
  threads : Tid → Thread
  event : RtEvent Tid
  woken : List Tid

/-- The satisfied branch of the loop body. -/
def sendWake (st : SendState Tid) (tid : Tid) : SendState Tid :=
  let thread := st.threads tid
  -- an OR waiter keeps what it receives; an AND waiter receives all it asked for
  let bits :=
    if thread.eventInfo &&& rtEventFlagAnd ≠ 0 then thread.eventSet
    else thread.eventSet &&& st.event.set
  let threads := modify st.threads tid fun thread => { thread with eventSet := bits }
  let resumed := rtThreadResumeFrom threads st.event.suspendThread tid
  { threads := resumed.1
    event := { st.event with
      set := consume thread.eventInfo bits st.event.set
      suspendThread := resumed.2 }
    woken := st.woken ++ [tid] }

/-- The `while` loop of `rt_event_send`.  The cursor moves on before the thread it
stands on leaves the list. -/
def sendLoop : ℕ → SendState Tid → Option Tid → SendState Tid
  | 0, st, _ => st
  | _ + 1, st, none => st
  | fuel + 1, st, some tid =>
    let next := nextNode st.event.suspendThread tid
    if Satisfied (st.threads tid) st.event.set then
      sendLoop fuel (sendWake st tid) next
    else
      sendLoop fuel st next

def rtEventSend (st : State Tid) (set : BitVec 32) : State Tid × Event Tid :=
  if set = 0 then (st, .sent .error [])
  else
    let event := { st.event with set := st.event.set ||| set }
    let done := sendLoop event.suspendThread.length
      { threads := st.threads, event := event, woken := [] } event.suspendThread.head?
    ({ st with threads := done.threads, event := done.event }, .sent .eok done.woken)

/-- The blocking branch of `rt_event_recv`. -/
def suspendSelf (st : State Tid) (tid : Tid) (set : BitVec 32) (option : BitVec 8)
    (timeout : ℤ) : State Tid :=
  let threads := modify st.threads tid fun thread =>
    rtThreadSuspend { thread with error := .eok, eventSet := set, eventInfo := option }
  { threads := modify threads tid (startThreadTimer timeout)
    event := { st.event with
      suspendThread :=
        rtIpcListInsert threads st.event.suspendThread tid st.event.flag }
    inRecv := Function.update st.inRecv tid true }

/-- `rt_event_recv` up to its return or its call of `rt_schedule`; `none` is the
failed assertion that one of the two flags is set. -/
def rtEventRecv (st : State Tid) (tid : Tid) (set : BitVec 32) (option : BitVec 8)
    (timeout : ℤ) : Option (State Tid × Event Tid) :=
  if set = 0 then some (st, .returned tid .error none)
  else if option &&& rtEventFlagAnd = 0 ∧ option &&& rtEventFlagOr = 0 then none
  else if satisfied option set st.event.set = true then
    some ({ st with
      threads := modify st.threads tid (setError .eok)
      event := { st.event with set := consume option set st.event.set } },
      .returned tid .eok (some (st.event.set &&& set)))
  else if timeout = 0 then
    some ({ st with threads := modify st.threads tid (setError .etimeout) },
      .returned tid .etimeout none)
  else some (suspendSelf st tid set option timeout, .suspended tid)

/-- `rt_event_control`. -/
def rtEventControl (st : State Tid) (cmd : ℕ) : State Tid × Event Tid :=
  if cmd = rtIpcCmdReset then
    ({ st with
       threads := rtIpcListResumeAll st.threads st.event.suspendThread
       event := { st.event with suspendThread := [], set := 0 } },
      .controlled .eok)
  else (st, .controlled .error)

/-- Take a waiter out of the suspend list with one of the waking operations. -/
def wake (st : State Tid) (tid : Tid) (operation : Thread → Thread) : State Tid :=
  { st with
    threads := modify st.threads tid operation
    event := { st.event with
      suspendThread := st.event.suspendThread.erase tid } }

/-- The end of `rt_event_recv`, after `rt_schedule`. -/
def finishRecv (st : State Tid) (tid : Tid) : State Tid × Event Tid :=
  let thread := st.threads tid
  ({ st with inRecv := Function.update st.inRecv tid false },
    if thread.error = .eok then .returned tid .eok (some thread.eventSet)
    else .returned tid thread.error none)

/-- A thread can call in when it runs and is not inside a call already. -/
def State.canCall (st : State Tid) (tid : Tid) : Prop :=
  st.inRecv tid = false ∧ (st.threads tid).runnable

instance (st : State Tid) (tid : Tid) : Decidable (st.canCall tid) :=
  inferInstanceAs (Decidable (_ ∧ _))

def step (st : State Tid) : Action Tid → Option (State Tid × Event Tid)
  | .send set => some (rtEventSend st set)
  | .recv tid set option timeout =>
    if st.canCall tid then rtEventRecv st tid set option timeout else none
  | .control cmd => some (rtEventControl st cmd)
  | .timeout tid =>
    if st.inRecv tid = true ∧ (st.threads tid).stat = .suspend ∧
        (st.threads tid).timerActivated = true then
      some (wake st tid rtThreadTimeout, .timedOut tid)
    else none
  | .resume tid =>
    if st.inRecv tid = true ∧ (st.threads tid).stat ≠ .suspend then
      some (finishRecv st tid)
    else none

def machine : Machine (State Tid) (Action Tid) (Event Tid) where
  step := step

/-! ## The loop of a send is a scan of the list as it was -/

variable {tid : Tid}

theorem nextNode_append {kept rest : List Tid} (hnot : tid ∉ kept) :
    nextNode (kept ++ tid :: rest) tid = rest.head? := by
  have hkept : ∀ other ∈ kept, decide (other ≠ tid) = true := by
    intro other hother
    exact decide_eq_true (ne_of_mem_of_not_mem hother hnot)
  rw [nextNode, List.dropWhile_append_of_pos hkept]
  simp

variable {set : BitVec 32}

/-- What an AND waiter keeps is what an OR waiter would. -/
theorem sendWake_bits {thread : Thread} (hsatisfied : Satisfied thread set) :
    (if thread.eventInfo &&& rtEventFlagAnd ≠ 0 then thread.eventSet
      else thread.eventSet &&& set) = thread.eventSet &&& set := by
  split
  · next hand =>
      simp only [Satisfied, satisfied, hand, ne_eq, not_false_eq_true, if_true,
        decide_eq_true_eq] at hsatisfied
      exact hsatisfied.symm
  · rfl

theorem sendWake_eq {st : SendState Tid} {kept rest : List Tid}
    (hlist : st.event.suspendThread = kept ++ tid :: rest) (hnot : tid ∉ kept)
    (hstat : (st.threads tid).stat = .suspend)
    (hsatisfied : Satisfied (st.threads tid) st.event.set) :
    let bits := (st.threads tid).eventSet &&& st.event.set
    sendWake st tid =
      { threads := modify st.threads tid fun thread =>
          rtThreadResume { thread with eventSet := bits }
        event := { st.event with
          set := consume (st.threads tid).eventInfo bits st.event.set
          suspendThread := kept ++ rest }
        woken := st.woken ++ [tid] } := by
  simp only [sendWake, sendWake_bits hsatisfied, hlist]
  simp [rtThreadResumeFrom, hstat, List.erase_append_right _ hnot]

/-- The waiters of a selection, and no other thread, are resumed with the bits
they receive. -/
structure Delivers (threads : Tid → Thread) (selected : List (Tid × BitVec 32))
    (next : Tid → Thread) : Prop where
  woken : ∀ entry ∈ selected,
    next entry.1 = rtThreadResume { threads entry.1 with eventSet := entry.2 }
  others : ∀ tid, tid ∉ selected.map Prod.fst → next tid = threads tid

/-- The loop with the cursor at the head of `rest`, everything before it passed
over. -/
theorem sendLoop_eq_scan (rest : List Tid) (fuel : ℕ) (st : SendState Tid) (kept : List Tid)
    (hlist : st.event.suspendThread = kept ++ rest) (hnodup : (kept ++ rest).Nodup)
    (hasleep : ∀ tid ∈ rest, (st.threads tid).stat = .suspend) (hfuel : rest.length ≤ fuel) :
    (sendLoop fuel st rest.head?).woken =
      st.woken ++ (scan st.threads st.event.set rest).1.map Prod.fst ∧
    (sendLoop fuel st rest.head?).event = { st.event with
      set := (scan st.threads st.event.set rest).2
      suspendThread := kept ++ rest.filter fun tid =>
        tid ∉ (scan st.threads st.event.set rest).1.map Prod.fst } ∧
    Delivers st.threads (scan st.threads st.event.set rest).1
      (sendLoop fuel st rest.head?).threads := by
  -- induction on what the cursor has still to visit; `kept` collects those passed over
  induction rest generalizing fuel st kept with
  | nil =>
    have hdone : sendLoop fuel st none = st := by
      cases fuel <;> rfl
    simp only [List.head?_nil, hdone, scan_nil]
    refine ⟨by simp, ?_, by simp, fun _ _ => rfl⟩
    simp [← hlist]
  | cons tid rest ih =>
    obtain ⟨fuel, rfl⟩ : ∃ n, fuel = n + 1 := ⟨fuel - 1, by simp at hfuel; omega⟩
    obtain ⟨-, htail, hdisjoint⟩ := List.nodup_append.1 hnodup
    have hnotKept : tid ∉ kept := fun hkept => hdisjoint tid hkept tid (by simp) rfl
    have hnotRest : tid ∉ rest := (List.nodup_cons.1 htail).1
    have hnext : nextNode st.event.suspendThread tid = rest.head? := by
      rw [hlist, nextNode_append hnotKept]
    simp only [List.head?_cons, sendLoop, hnext, scan_cons]
    split
    · next hsatisfied =>
        have hstat := hasleep tid (by simp)
        have hwake := sendWake_eq hlist hnotKept hstat hsatisfied
        have hsame : ∀ other ∈ rest,
            (sendWake st tid).threads other = st.threads other := by
          intro other hother
          simp [hwake, ne_of_mem_of_not_mem hother hnotRest]
        obtain ⟨hwoken, hevent, hdelivers⟩ := ih fuel (sendWake st tid) kept (by simp [hwake])
          (hnodup.sublist (by simp)) (fun other hother => by
            rw [hsame other hother]
            exact hasleep other (by simp [hother])) (by simpa using hfuel)
        rw [scan_congr hsame] at hwoken hevent hdelivers
        have hnotSelected : ∀ set, tid ∉ (scan st.threads set rest).1.map Prod.fst :=
          fun _ hmem => hnotRest (scan_mem hmem)
        simp only [hwake] at hwoken hevent hdelivers ⊢
        refine ⟨by simp [hwoken], ?_, fun entry hentry => ?_, fun other hother => ?_⟩
        · rw [hevent, List.filter_cons_of_neg (by simp)]
          congr 2
          apply List.filter_congr
          intro other hother
          simp [ne_of_mem_of_not_mem hother hnotRest]
        · rcases List.mem_cons.1 hentry with rfl | hentry
          · rw [hdelivers.others tid (hnotSelected _), modify_self]
          · have hne : entry.1 ≠ tid := by
              rintro rfl
              exact hnotSelected _ (List.mem_map_of_mem hentry)
            rw [hdelivers.woken entry hentry, modify_of_ne _ _ hne]
        · simp only [List.map_cons, List.mem_cons, not_or] at hother
          rw [hdelivers.others other hother.2, modify_of_ne _ _ hother.1]
    · next hunsatisfied =>
        have hagain := ih fuel st (kept ++ [tid]) (by simpa using hlist)
          (by simpa using hnodup) (fun other hother => hasleep other (by simp [hother]))
          (by simpa using hfuel)
        have hpassed : tid ∉ (scan st.threads st.event.set rest).1.map Prod.fst :=
          fun hmem => hnotRest (scan_mem hmem)
        rw [List.filter_cons_of_pos (by simpa using hpassed)]
        simpa only [List.append_assoc, List.singleton_append] using hagain

/-! ## The invariant -/

/-- The suspend list holds exactly the blocked receivers, each with a clean error
code and a request that the event set does not satisfy. -/
structure Inv (st : State Tid) : Prop where
  nodup : st.event.suspendThread.Nodup
  mem_iff : ∀ tid, tid ∈ st.event.suspendThread ↔
    st.inRecv tid = true ∧ (st.threads tid).stat = .suspend
  clean : ∀ tid ∈ st.event.suspendThread, (st.threads tid).error = .eok
  unsatisfied : ∀ tid ∈ st.event.suspendThread,
    ¬ Satisfied (st.threads tid) st.event.set

omit [DecidableEq Tid] in
theorem inv_rtEventInit (threads : Tid → Thread) (flag : IpcFlag) :
    Inv (rtEventInit threads flag) where
  nodup := List.nodup_nil
  mem_iff := by simp [rtEventInit]
  clean := by simp [rtEventInit]
  unsatisfied := by simp [rtEventInit]

variable {st : State Tid}

omit [DecidableEq Tid] in
theorem Inv.not_mem_of_out (hinv : Inv st) (hout : st.inRecv tid = false) :
    tid ∉ st.event.suspendThread := by
  simp [hinv.mem_iff, hout]

theorem rtEventSend_eq_scan (hinv : Inv st) (hset : set ≠ 0) : (rtEventSend st set).2 = .sent .eok
      ((scan st.threads (st.event.set ||| set) st.event.suspendThread).1.map Prod.fst) ∧
    (rtEventSend st set).1.inRecv = st.inRecv ∧
    (rtEventSend st set).1.event = { st.event with
      set := (scan st.threads (st.event.set ||| set) st.event.suspendThread).2
      suspendThread := st.event.suspendThread.filter fun tid => tid ∉
        (scan st.threads (st.event.set ||| set) st.event.suspendThread).1.map Prod.fst } ∧
    Delivers st.threads
      (scan st.threads (st.event.set ||| set) st.event.suspendThread).1
      (rtEventSend st set).1.threads := by
  have hasleep : ∀ tid ∈ st.event.suspendThread, (st.threads tid).stat = .suspend :=
    fun tid hmem => ((hinv.mem_iff tid).1 hmem).2
  obtain ⟨hwoken, hevent, hdelivers⟩ := sendLoop_eq_scan st.event.suspendThread
    st.event.suspendThread.length
    { threads := st.threads
      event := { st.event with set := st.event.set ||| set }
      woken := [] } [] rfl hinv.nodup hasleep le_rfl
  simp only [rtEventSend, hset, if_false]
  exact ⟨by simpa using hwoken, trivial, by simpa using hevent, hdelivers⟩

omit [DecidableEq Tid] in
theorem Delivers.of_mem {threads next : Tid → Thread} {selected : List (Tid × BitVec 32)}
    (hdelivers : Delivers threads selected next) (hmem : tid ∈ selected.map Prod.fst) :
    ∃ bits, (tid, bits) ∈ selected ∧
      next tid = rtThreadResume { threads tid with eventSet := bits } := by
  obtain ⟨⟨_, bits⟩, hentry, rfl⟩ := List.mem_map.1 hmem
  exact ⟨bits, hentry, hdelivers.woken _ hentry⟩

theorem inv_rtEventSend (hinv : Inv st) (set : BitVec 32) : Inv (rtEventSend st set).1 := by
  by_cases hset : set = 0
  · simpa [rtEventSend, hset] using hinv
  obtain ⟨-, hinRecv, hevent, hdelivers⟩ := rtEventSend_eq_scan hinv hset
  refine ⟨?_, fun tid => ?_, fun tid hmem => ?_, fun tid hmem => ?_⟩
  · rw [hevent]
    exact hinv.nodup.filter _
  · rw [hevent, hinRecv, List.mem_filter, decide_eq_true_eq]
    by_cases hselected : tid ∈ (scan st.threads (st.event.set ||| set)
        st.event.suspendThread).1.map Prod.fst
    · obtain ⟨bits, -, hthread⟩ := hdelivers.of_mem hselected
      have hstat := ((hinv.mem_iff tid).1 (scan_mem hselected)).2
      have hready : (rtThreadResume { st.threads tid with eventSet := bits }).stat = .ready :=
        stat_rtThreadResume hstat
      rw [hthread, hready]
      simp [hselected]
    · rw [hdelivers.others tid hselected, ← hinv.mem_iff]
      simp [hselected]
  · rw [hevent, List.mem_filter, decide_eq_true_eq] at hmem
    rw [hdelivers.others tid hmem.2]
    exact hinv.clean tid hmem.1
  · rw [hevent] at hmem ⊢
    rw [List.mem_filter, decide_eq_true_eq] at hmem
    rw [hdelivers.others tid hmem.2]
    exact scan_unsatisfied hmem.1 hmem.2

variable {other : Tid}

theorem wake_of_ne {operation : Thread → Thread} (hne : other ≠ tid) :
    (wake st tid operation).threads other = st.threads other := by
  simp [wake, hne]

theorem inv_timeout (hinv : Inv st) : Inv (wake st tid rtThreadTimeout) := by
  have hmem : ∀ {other}, other ∈ (wake st tid rtThreadTimeout).event.suspendThread ↔
      other ≠ tid ∧ other ∈ st.event.suspendThread := hinv.nodup.mem_erase_iff
  refine ⟨hinv.nodup.erase tid, fun other => ?_, fun other hother => ?_, fun other hother => ?_⟩
  · rw [hmem]
    by_cases hne : other = tid
    · subst hne
      simp [wake]
    · rw [wake_of_ne hne, hinv.mem_iff]
      simp [hne, wake]
  · obtain ⟨hne, hother⟩ := hmem.1 hother
    rw [wake_of_ne hne]
    exact hinv.clean other hother
  · obtain ⟨hne, hother⟩ := hmem.1 hother
    rw [wake_of_ne hne]
    exact hinv.unsatisfied other hother

/-- A thread outside the list changes, and the event set loses bits. -/
theorem inv_other {operation : Thread → Thread} (hinv : Inv st) (hout : st.inRecv tid = false)
    (hshrinks : ∃ mask, set = st.event.set &&& mask) : Inv { st with
      threads := modify st.threads tid operation
      event := { st.event with set := set } } := by
  have hnotMem := hinv.not_mem_of_out hout
  refine ⟨hinv.nodup, fun other => ?_, fun other hother => ?_, fun other hother => ?_⟩
  · by_cases hne : other = tid
    · subst hne
      simp [hnotMem, hout]
    · simpa [hne] using hinv.mem_iff other
  · have hne : other ≠ tid := ne_of_mem_of_not_mem hother hnotMem
    simpa [hne] using hinv.clean other hother
  · have hne : other ≠ tid := ne_of_mem_of_not_mem hother hnotMem
    obtain ⟨mask, rfl⟩ := hshrinks
    intro hsatisfied
    dsimp only at hsatisfied
    rw [modify_of_ne _ _ hne] at hsatisfied
    exact hinv.unsatisfied other hother (satisfied_mono hsatisfied)

theorem suspendSelf_self (set : BitVec 32) (option : BitVec 8) (timeout : ℤ)
    (hrunnable : (st.threads tid).runnable) : let next := suspendSelf st tid set option timeout
    (next.inRecv tid = true ∧ (next.threads tid).stat = .suspend) ∧
      (next.threads tid).error = .eok ∧ (next.threads tid).eventSet = set ∧
      (next.threads tid).eventInfo = option := by
  have hready : Thread.runnable
      { st.threads tid with error := .eok, eventSet := set, eventInfo := option } := hrunnable
  simp [suspendSelf, stat_rtThreadSuspend hready]

theorem suspendSelf_of_ne (st : State Tid) (set : BitVec 32) (option : BitVec 8) (timeout : ℤ)
    (hne : other ≠ tid) : (suspendSelf st tid set option timeout).inRecv other = st.inRecv other ∧
      (suspendSelf st tid set option timeout).threads other = st.threads other := by
  simp [suspendSelf, hne]

variable {option : BitVec 8} {timeout : ℤ}

theorem mem_suspendSelf : other ∈ (suspendSelf st tid set option timeout).event.suspendThread ↔
      other = tid ∨ other ∈ st.event.suspendThread :=
  mem_rtIpcListInsert

theorem inv_suspendSelf (hinv : Inv st) (hcall : st.canCall tid)
    (hunsatisfied : satisfied option set st.event.set ≠ true) :
    Inv (suspendSelf st tid set option timeout) := by
  obtain ⟨hout, hrunnable⟩ := hcall
  have hnotMem := hinv.not_mem_of_out hout
  obtain ⟨hself, herror, hset, hoption⟩ := suspendSelf_self set option timeout hrunnable
  refine ⟨nodup_rtIpcListInsert.2 ⟨hnotMem, hinv.nodup⟩, fun other => ?_,
    fun other hother => ?_, fun other hother => ?_⟩
  · rw [mem_suspendSelf]
    by_cases hne : other = tid
    · subst hne
      exact iff_of_true (.inl rfl) hself
    · obtain ⟨hin, hthread⟩ := suspendSelf_of_ne st set option timeout hne
      rw [hin, hthread, ← hinv.mem_iff]
      simp [hne]
  · by_cases hne : other = tid
    · exact hne ▸ herror
    · rw [(suspendSelf_of_ne st set option timeout hne).2]
      exact hinv.clean other ((mem_suspendSelf.1 hother).resolve_left hne)
  · by_cases hne : other = tid
    · subst hne
      rw [Satisfied, hset, hoption]
      exact hunsatisfied
    · rw [(suspendSelf_of_ne st set option timeout hne).2]
      exact hinv.unsatisfied other ((mem_suspendSelf.1 hother).resolve_left hne)

variable {next : State Tid} {event : Event Tid}

theorem inv_rtEventRecv (hinv : Inv st) (hcall : st.canCall tid)
    (hstep : rtEventRecv st tid set option timeout = some (next, event)) : Inv next := by
  have hkept : ∃ mask, st.event.set = st.event.set &&& mask :=
    ⟨BitVec.allOnes 32, BitVec.and_allOnes.symm⟩
  unfold rtEventRecv at hstep
  split_ifs at hstep with hset hflags hsatisfied htimeout <;>
    cases hstep
  · exact hinv
  · exact inv_other hinv hcall.1 (consume_subset _ _ _)
  · exact inv_other hinv hcall.1 hkept
  · exact inv_suspendSelf hinv hcall hsatisfied

theorem inv_rtEventControl (hinv : Inv st) (cmd : ℕ) : Inv (rtEventControl st cmd).1 := by
  rw [rtEventControl]
  split
  · refine ⟨List.nodup_nil, fun tid => ?_, by simp, by simp⟩
    by_cases hmem : tid ∈ st.event.suspendThread
    · have hstat : Stat.suspend = (st.threads tid).stat := ((hinv.mem_iff tid).1 hmem).2.symm
      simp [rtIpcListResumeAll_of_mem hinv.nodup hmem, rtThreadResume, ← hstat,
        rtScheduleInsertThread]
    · simpa [rtIpcListResumeAll_of_not_mem hmem] using fun hin hstat =>
        hmem ((hinv.mem_iff tid).2 ⟨hin, hstat⟩)
  · exact hinv

theorem inv_finishRecv (hinv : Inv st) (hstat : (st.threads tid).stat ≠ .suspend) :
    Inv (finishRecv st tid).1 := by
  refine ⟨hinv.nodup, fun other => ?_, hinv.clean, hinv.unsatisfied⟩
  by_cases hne : other = tid
  · subst hne
    simp [finishRecv, hinv.mem_iff, hstat]
  · simpa [finishRecv, hne] using hinv.mem_iff other

theorem inv_step {act : Action Tid} (hinv : Inv st) (hstep : step st act = some (next, event)) :
    Inv next := by
  cases act with
  | send set =>
    obtain rfl := congrArg Prod.fst (Option.some.inj hstep)
    exact inv_rtEventSend hinv set
  | recv tid set option timeout =>
    simp only [step] at hstep
    split at hstep
    · next hcall => exact inv_rtEventRecv hinv hcall hstep
    · contradiction
  | control cmd =>
    obtain rfl := congrArg Prod.fst (Option.some.inj hstep)
    exact inv_rtEventControl hinv cmd
  | timeout tid =>
    simp only [step] at hstep
    split at hstep
    · obtain ⟨rfl, -⟩ := Prod.mk.inj (Option.some.inj hstep)
      exact inv_timeout hinv
    · contradiction
  | resume tid =>
    simp only [step] at hstep
    split at hstep
    · next henabled =>
        obtain rfl := congrArg Prod.fst (Option.some.inj hstep)
        exact inv_finishRecv hinv henabled.2
    · contradiction

/-! ## What a woken receiver gets -/

/-- A send has resumed the receiver with these bits, and it has not run yet. -/
def Delivered (st : State Tid) (tid : Tid) (bits : BitVec 32) : Prop :=
  st.inRecv tid = true ∧ (st.threads tid).stat ≠ .suspend ∧
    (st.threads tid).error = .eok ∧ (st.threads tid).eventSet = bits

variable {bits : BitVec 32}

omit [DecidableEq Tid] in
theorem Delivered.of_same (hdelivered : Delivered st tid bits)
    (hin : next.inRecv tid = st.inRecv tid) (hthread : next.threads tid = st.threads tid) :
    Delivered next tid bits := by
  rw [Delivered, hin, hthread]
  exact hdelivered

/-- The call of the thread returns or suspends it. -/
def Event.isOutcome (tid : Tid) : Event Tid → Bool
  | .returned tid' _ _ | .suspended tid' => tid' = tid
  | _ => false

theorem rtEventRecv_other (hne : other ≠ tid)
    (hstep : rtEventRecv st tid set option timeout = some (next, event)) :
    next.inRecv other = st.inRecv other ∧ next.threads other = st.threads other ∧
      event.isOutcome other = false := by
  unfold rtEventRecv at hstep
  split_ifs at hstep <;> cases hstep
  · exact ⟨rfl, rfl, by simpa [Event.isOutcome] using hne.symm⟩
  · exact ⟨rfl, modify_of_ne _ _ hne, by simpa [Event.isOutcome] using hne.symm⟩
  · exact ⟨rfl, modify_of_ne _ _ hne, by simpa [Event.isOutcome] using hne.symm⟩
  · obtain ⟨hin, hthread⟩ := suspendSelf_of_ne st set option timeout hne
    exact ⟨hin, hthread, by simpa [Event.isOutcome] using hne.symm⟩

theorem rtEventSend_other (hinv : Inv st) (hnotMem : tid ∉ st.event.suspendThread)
    (set : BitVec 32) :
    (rtEventSend st set).1.inRecv tid = st.inRecv tid ∧
      (rtEventSend st set).1.threads tid = st.threads tid ∧
      (rtEventSend st set).2.isOutcome tid = false := by
  by_cases hset : set = 0
  · simp [rtEventSend, hset, Event.isOutcome]
  obtain ⟨hevent, hin, -, hdelivers⟩ := rtEventSend_eq_scan hinv hset
  exact ⟨congrFun hin tid, hdelivers.others tid fun hmem => hnotMem (scan_mem hmem),
    by rw [hevent]; rfl⟩

/-- Delivered bits stay until the receiver returns them. -/
theorem delivered_step {act : Action Tid} (hinv : Inv st) (hdelivered : Delivered st tid bits)
    (hstep : step st act = some (next, event)) :
    Delivered next tid bits ∧ event.isOutcome tid = false ∨
      event = .returned tid .eok (some bits) := by
  obtain ⟨hin, hstat, herror, hbits⟩ := id hdelivered
  have hnotMem : tid ∉ st.event.suspendThread := by simp [hinv.mem_iff, hstat]
  cases act with
  | send set =>
    obtain ⟨rfl, rfl⟩ := Prod.mk.inj (Option.some.inj hstep)
    obtain ⟨hin', hthread, houtcome⟩ := rtEventSend_other hinv hnotMem set
    exact .inl ⟨hdelivered.of_same hin' hthread, houtcome⟩
  | recv other set option timeout =>
    simp only [step] at hstep
    split at hstep
    · next hcall =>
        have hne : tid ≠ other := by
          rintro rfl
          exact absurd (hcall.1.symm.trans hin) (by decide)
        obtain ⟨hin', hthread, houtcome⟩ := rtEventRecv_other hne hstep
        exact .inl ⟨hdelivered.of_same hin' hthread, houtcome⟩
    · contradiction
  | control cmd =>
    simp only [step, rtEventControl] at hstep
    split at hstep <;> obtain ⟨rfl, rfl⟩ := Prod.mk.inj (Option.some.inj hstep)
    · exact .inl ⟨hdelivered.of_same rfl (rtIpcListResumeAll_of_not_mem hnotMem), rfl⟩
    · exact .inl ⟨hdelivered, rfl⟩
  | timeout other =>
    simp only [step] at hstep
    split at hstep
    · next hfires =>
        have hne : tid ≠ other := by
          rintro rfl
          exact hstat hfires.2.1
        obtain ⟨rfl, rfl⟩ := Prod.mk.inj (Option.some.inj hstep)
        exact .inl ⟨hdelivered.of_same rfl (wake_of_ne hne), rfl⟩
    · contradiction
  | resume other =>
    simp only [step] at hstep
    split at hstep
    · obtain ⟨rfl, rfl⟩ := Prod.mk.inj (Option.some.inj hstep)
      by_cases hne : tid = other
      · subst hne
        simp [herror, hbits]
      · refine .inl ⟨hdelivered.of_same (by simp [hne]) rfl, ?_⟩
        split <;> simpa [Event.isOutcome] using fun heq => hne heq.symm
    · contradiction

/-- How the pending call of a thread goes on in a trace: the first event in which
it returns or suspends the thread. -/
def outcome (tid : Tid) (trace : List (Action Tid × Event Tid)) : Option (Event Tid) :=
  (trace.map Prod.snd).find? (Event.isOutcome tid)

theorem delivered_run {first last : State Tid} {trace : List (Action Tid × Event Tid)}
    (hinv : Inv first) (hdelivered : Delivered first tid bits)
    (hrun : machine.Run first trace last) :
    outcome tid trace = some (.returned tid .eok (some bits)) ∨
      outcome tid trace = none ∧
        ∃ final, step last (.resume tid) = some (final, .returned tid .eok (some bits)) := by
  induction hrun with
  | nil st =>
    obtain ⟨hin, hstat, herror, hbits⟩ := hdelivered
    refine .inr ⟨rfl, (finishRecv st tid).1, ?_⟩
    simp [step, finishRecv, hin, hstat, herror, hbits]
  | @cons first next last act event trace _ hstep hrest ih =>
    rcases delivered_step hinv hdelivered hstep with ⟨hdelivered', houtcome⟩ | rfl
    · simpa [outcome, houtcome] using ih (inv_step hinv hstep) hdelivered'
    · left
      simp [outcome, Event.isOutcome]

/-- Event sets.  In every reachable state no suspended waiter is satisfied; a send
wakes exactly the waiters the scan selects and leaves every other thread alone;
and each of them then returns `RT_EOK` with the bits of its request that were set
when the scan came to it. -/
theorem event_scan {threads : Tid → Thread} {flag : IpcFlag} {st : State Tid}
    {past : List (Action Tid × Event Tid)}
    (hpast : machine.Run (rtEventInit threads flag) past st) :
    (∀ tid, st.inRecv tid = true → (st.threads tid).stat = .suspend →
      ¬ Satisfied (st.threads tid) st.event.set) ∧
    ∀ set, ∃ next err,
      step st (.send set) = some (next, .sent err
        ((scan st.threads (st.event.set ||| set) st.event.suspendThread).1.map
          Prod.fst)) ∧
      next.event.set =
        (scan st.threads (st.event.set ||| set) st.event.suspendThread).2 ∧
      (∀ tid, tid ∉ (scan st.threads (st.event.set ||| set)
          st.event.suspendThread).1.map Prod.fst →
        next.threads tid = st.threads tid ∧ next.inRecv tid = st.inRecv tid) ∧
      ∀ entry ∈ (scan st.threads (st.event.set ||| set) st.event.suspendThread).1,
        (next.threads entry.1).stat ≠ .suspend ∧
        ∀ {trace last}, machine.Run next trace last →
          outcome entry.1 trace = some (.returned entry.1 .eok (some entry.2)) ∨
            outcome entry.1 trace = none ∧ ∃ final,
              step last (.resume entry.1) =
                some (final, .returned entry.1 .eok (some entry.2)) := by
  have hinv : Inv st :=
    hpast.invariant Inv (fun _ _ _ _ hinv _ hstep => inv_step hinv hstep)
      (inv_rtEventInit threads flag)
  refine ⟨fun tid hin hstat => hinv.unsatisfied tid ((hinv.mem_iff tid).2 ⟨hin, hstat⟩),
    fun set => ?_⟩
  by_cases hset : set = 0
  · -- nothing is sent, and nobody was satisfied before
    subst hset
    have hnobody : scan st.threads (st.event.set ||| 0) st.event.suspendThread =
        ([], st.event.set) := by
      simpa using scan_eq_nil hinv.unsatisfied
    rw [hnobody]
    exact ⟨st, .error, by simp [step, rtEventSend], rfl, fun _ _ => ⟨rfl, rfl⟩, by simp⟩
  obtain ⟨hsent, hin, hevent, hdelivers⟩ := rtEventSend_eq_scan hinv hset
  refine ⟨(rtEventSend st set).1, .eok, ?_, by rw [hevent], fun tid hnot => ?_,
    fun entry hentry => ?_⟩
  · rw [← hsent]
    rfl
  · exact ⟨hdelivers.others tid hnot, congrFun hin tid⟩
  · have hmem : entry.1 ∈ st.event.suspendThread := scan_mem (List.mem_map_of_mem hentry)
    obtain ⟨hinRecv, hstat⟩ := (hinv.mem_iff entry.1).1 hmem
    have hthread := hdelivers.woken entry hentry
    have hready : (rtThreadResume { st.threads entry.1 with eventSet := entry.2 }).stat =
        .ready := stat_rtThreadResume hstat
    have hdelivered : Delivered (rtEventSend st set).1 entry.1 entry.2 := by
      refine ⟨by rw [hin, hinRecv], ?_, ?_, ?_⟩ <;> rw [hthread]
      · simp [hready]
      · simpa using hinv.clean entry.1 hmem
      · simp
    exact ⟨hdelivered.2.1, delivered_run (inv_rtEventSend hinv set) hdelivered⟩

/-- Two waiters want the same bit: the first consumes it, the second goes on
waiting. -/
theorem event_scan_consumed :
    ∃ past st next, machine.Run
        (rtEventInit (fun _ : Fin 2 => Thread.started 10) .fifo) past st ∧
      st.event.suspendThread = [0, 1] ∧
      step st (.send 1) = some (next, .sent .eok [0]) ∧
      ¬ Satisfied (next.threads 1) next.event.set := by
  have hpast : machine.Run (rtEventInit (fun _ : Fin 2 => Thread.started 10) .fifo) _ _ :=
    Machine.runWith_of_exec
      [.recv 0 3 (rtEventFlagOr ||| rtEventFlagClear) (-1), .recv 1 1 rtEventFlagAnd (-1)] rfl
  have hsent : machine.Run _ _ _ := hpast.snoc trivial (rfl : machine.step _ (.send 1) = _)
  exact ⟨_, _, _, hpast, rfl, rfl, (event_scan hsent).1 1 rfl rfl⟩

end RtThread.EventSet
