import RtThread.Core.Recorder
import RtThread.Drivers.WaitQueue

set_option linter.all false

/-!
# Polling

`poll.c`: a thread scans its descriptors, registers a node in the wait queue of each in the first
scan, and suspends itself when none is ready.  A wake-up unlinks a node, marks the table of the
thread and resumes the thread, which scans again.

The mark of the table is never taken back.  A scan that comes after a wake-up and finds nothing,
because another thread was faster, is followed by the next scan at once: the thread does not
suspend itself any more, and no timer runs for it.
-/

namespace RtThread.Poll

open RtThread.Core
open RtThread.WaitQueue (rtTickFromMillisecond)

/-! ## Descriptors -/

def pollin : BitVec 16 := 0x01
def pollout : BitVec 16 := 0x02
def pollerr : BitVec 16 := 0x04
def pollhup : BitVec 16 := 0x08
def pollnval : BitVec 16 := 0x10

/-- `POLLMASK_DEFAULT`, with `POLLRDNORM` and `POLLWRNORM`. -/
def pollmaskDefault : BitVec 16 := pollin ||| pollout

/-- `struct pollfd`. -/
structure Pollfd where
  fd : ℤ
  events : BitVec 16
  revents : BitVec 16
  deriving DecidableEq

/-- What is behind a descriptor that is not negative: nothing, a file without a `poll` operation,
or a file whose `poll` operation returns a mask and calls `rt_poll_add` so often that this many
nodes can be allocated. -/
inductive FdAnswer
  | closed
  | plain
  | driver (mask : BitVec 32) (adds : ℕ)
  deriving DecidableEq

/-- `pollfd->events | POLLERR | POLLHUP`, as an `int`. -/
def requested (pollfd : Pollfd) : BitVec 32 :=
  (pollfd.events ||| pollerr ||| pollhup).signExtend 32

/-- `do_pollfd`, with the mask that it returns. -/
def doPollfd (pollfd : Pollfd) (answer : FdAnswer) : Pollfd × BitVec 32 :=
  let mask :=
    if pollfd.fd < 0 then 0
    else
      match answer with
      | .closed => pollnval.signExtend 32
      | .plain => pollmaskDefault.signExtend 32 &&& requested pollfd
      | .driver mask _ => mask &&& requested pollfd
  ({ pollfd with revents := mask.setWidth 16 }, mask)

/-! ## The loop -/

/-- `struct rt_poll_node`: the key, and whether the node is in a wait queue. -/
structure PollNode where
  key : BitVec 32
  linked : Bool
  deriving DecidableEq

/-- `struct rt_poll_table`; `proc` says that `req._proc` is set. -/
structure PollTable where
  proc : Bool
  triggered : Bool
  nodes : List PollNode
  deriving DecidableEq

/-- Where the polling thread is: in front of a descriptor, with what was found so far; suspended,
with what is left of its time; resumed and in front of the rest of `poll_wait_timeout`; at the
end. -/
inductive Pc
  | checking (index num : ℕ)
  | waiting (timer : Option ℕ)
  | resumed
  | done (num : ℕ)
  deriving DecidableEq

structure State where
  fds : List Pollfd
  table : PollTable
  isTimeout : Bool
  pc : Pc
  deriving DecidableEq

/-- `poll_table_init` and the start of `poll_do`. -/
def pollDo (fds : List Pollfd) (msec : ℤ) : State where
  fds := fds
  table := { proc := msec ≠ 0, triggered := false, nodes := [] }
  isTimeout := msec = 0
  pc := .checking 0 0

inductive Action
  /-- The next descriptor is polled. -/
  | check (answer : FdAnswer)
  /-- The end of a scan, up to the next one or to `rt_schedule`. -/
  | endScan
  /-- The rest of `poll_wait_timeout`. -/
  | resume
  /-- `rt_wqueue_wakeup` of the queue in which this node comes first. -/
  | wake (index : ℕ) (key : BitVec 32)
  | tick
  deriving DecidableEq

/-- The nodes that `_poll_add` adds; a new one comes first. -/
def pollAdd (proc : Bool) (pollfd : Pollfd) : FdAnswer → List PollNode
  | .driver _ adds =>
    if proc = true ∧ 0 ≤ pollfd.fd then List.replicate adds ⟨requested pollfd, true⟩ else []
  | _ => []

def checkNext (st : State) (index num : ℕ) (pollfd : Pollfd) (answer : FdAnswer) : State :=
  let (polled, mask) := doPollfd pollfd answer
  { st with
    fds := st.fds.set index polled
    table := { st.table with
      proc := if mask ≠ 0 then false else st.table.proc
      nodes := pollAdd st.table.proc pollfd answer ++ st.table.nodes }
    pc := .checking (index + 1) (if mask ≠ 0 then num + 1 else num) }

/-- The thread comes out of `poll_wait_timeout`. -/
def afterWait (st : State) : State :=
  { st with
    isTimeout := st.isTimeout || !st.table.triggered
    pc := .checking 0 0 }

/-- The end of a scan; `timeout` is in ticks. -/
def endScan (timeout : ℤ) (st : State) (num : ℕ) : State :=
  let scanned := { st with table := { st.table with proc := false } }
  if num ≠ 0 ∨ st.isTimeout = true then { scanned with pc := .done num }
  else if timeout ≠ 0 ∧ st.table.triggered = false then
    { scanned with pc := .waiting (if 0 < timeout then some timeout.toNat else none) }
  else afterWait scanned

/-- `__wqueue_pollwake` of a linked node whose key matches, and what `rt_wqueue_wakeup` does after
it. -/
def pollwake (st : State) (index : ℕ) (node : PollNode) : State :=
  { st with
    table := { st.table with
      triggered := true
      nodes := st.table.nodes.set index { node with linked := false } }
    pc :=
      match st.pc with
      | .waiting _ => .resumed
      | pc => pc }

/-- The timer of the thread, if it runs. -/
def tick (st : State) : State :=
  match st.pc with
  | .waiting (some (remaining + 2)) => { st with pc := .waiting (some (remaining + 1)) }
  | .waiting (some _) => { st with pc := .resumed }
  | _ => st

def step (timeout : ℤ) (st : State) : Action → Option (State × Unit)
  | .check answer =>
    match st.pc with
    | .checking index num =>
      match st.fds[index]? with
      | some pollfd => some (checkNext st index num pollfd answer, ())
      | none => none
    | _ => none
  | .endScan =>
    match st.pc with
    | .checking index num =>
      if index = st.fds.length then some (endScan timeout st num, ()) else none
    | _ => none
  | .resume => if st.pc = .resumed then some (afterWait st, ()) else none
  | .wake index key =>
    match st.table.nodes[index]? with
    | some node =>
      if node.linked = true ∧ (key = 0 ∨ key &&& node.key ≠ 0) then
        some (pollwake st index node, ())
      else none
    | none => none
  | .tick => some (tick st, ())

/-- One call of `poll`, among wake-ups by others. -/
def machine (timeout : ℤ) : Machine State Action Unit where
  step := step timeout

/-! ## What a call reports -/

/-- What is not changed by polling. -/
def Pollfd.request (pollfd : Pollfd) : ℤ × BitVec 16 :=
  (pollfd.fd, pollfd.events)

/-- Polled once: each descriptor has what its file answers, and if none was counted, there was no
answer. -/
def Reported (fds polled : List Pollfd) (count num : ℕ) : Prop :=
  ∀ index < count, ∀ pollfd, fds[index]? = some pollfd → ∃ answer,
    polled[index]? = some (doPollfd pollfd answer).1 ∧
      (num = 0 → (doPollfd pollfd answer).2 = 0)

/-- The scan so far. -/
structure Scanned (fds : List Pollfd) (st : State) : Prop where
  same : st.fds.map Pollfd.request = fds.map Pollfd.request
  before : ∀ index num, st.pc = .checking index num → Reported fds st.fds index num
  finished : ∀ num, st.pc = .done num → Reported fds st.fds fds.length num

theorem doPollfd_congr {pollfd other : Pollfd} (hsame : pollfd.request = other.request)
    (answer : FdAnswer) : doPollfd pollfd answer = doPollfd other answer := by
  obtain ⟨fd, events, revents⟩ := pollfd
  obtain ⟨fd', events', revents'⟩ := other
  cases hsame
  rfl

variable {timeout : ℤ} {fds : List Pollfd} {st next : State}

theorem scanned_pollDo (fds : List Pollfd) (msec : ℤ) : Scanned fds (pollDo fds msec) where
  same := rfl
  before index num hpc := by
    cases hpc
    exact fun _ hindex => absurd hindex (Nat.not_lt_zero _)
  finished num hpc := by cases hpc

theorem Scanned.checkNext (hscanned : Scanned fds st) {index num : ℕ}
    (hpc : st.pc = .checking index num) {pollfd : Pollfd}
    (hpollfd : st.fds[index]? = some pollfd) (answer : FdAnswer) :
    Scanned fds (checkNext st index num pollfd answer) := by
  obtain ⟨hindex, heq⟩ := List.getElem?_eq_some_iff.1 hpollfd
  have hrequest : (doPollfd pollfd answer).1.request = pollfd.request := rfl
  refine ⟨?_, fun index' num' hpc' => ?_, fun num' hpc' => by cases hpc'⟩
  · rw [← hscanned.same, Poll.checkNext]
    rw [List.map_set, hrequest, ← heq, ← List.getElem_map (f := Pollfd.request)]
    · exact List.set_getElem_self _
    · rwa [List.length_map]
  · obtain ⟨rfl, hcount⟩ := Pc.checking.inj hpc'
    have hnum : (if (doPollfd pollfd answer).2 ≠ 0 then num + 1 else num) = num' := hcount
    intro position hposition other hother
    rcases Nat.lt_succ_iff_lt_or_eq.1 hposition with hbefore | rfl
    · obtain ⟨answer', hpolled, hzero⟩ := hscanned.before index num hpc position hbefore other
        hother
      refine ⟨answer', ?_, fun hnone => hzero ?_⟩
      · rw [Poll.checkNext, List.getElem?_set_ne (Nat.ne_of_gt hbefore)]
        exact hpolled
      · split at hnum <;> omega
    · have hsame : pollfd.request = other.request := by
        have hmap := congrArg (fun list => list[position]?) hscanned.same
        rw [List.getElem?_map, List.getElem?_map, hpollfd, hother] at hmap
        exact Option.some.inj hmap
      refine ⟨answer, ?_, fun hnone => ?_⟩
      · rw [← doPollfd_congr hsame, Poll.checkNext, List.getElem?_set_self hindex]
      · rw [← doPollfd_congr hsame]
        by_contra hmask
        rw [if_pos hmask] at hnum
        omega

theorem Scanned.endScan (hscanned : Scanned fds st) {num : ℕ}
    (hpc : st.pc = .checking st.fds.length num) :
    Scanned fds (endScan timeout st num) := by
  have hlength : st.fds.length = fds.length := by
    simpa using congrArg List.length hscanned.same
  have hall := hscanned.before _ _ hpc
  rw [hlength] at hall
  rw [Poll.endScan]
  split
  · refine ⟨hscanned.same, fun _ _ hpc' => (by cases hpc'), fun num' hpc' => ?_⟩
    cases hpc'
    exact hall
  · split
    · exact ⟨hscanned.same, fun _ _ hpc' => (by cases hpc'), fun _ hpc' => by cases hpc'⟩
    · refine ⟨hscanned.same, fun _ _ hpc' => ?_, fun _ hpc' => by cases hpc'⟩
      cases hpc'
      exact fun _ hindex => absurd hindex (Nat.not_lt_zero _)

theorem Scanned.step {act : Action} {event : Unit} (hscanned : Scanned fds st)
    (hstep : step timeout st act = some (next, event)) : Scanned fds next := by
  cases act with
  | check answer =>
    rw [Poll.step] at hstep
    split at hstep
    · next index num hpc =>
      split at hstep
      · next pollfd hpollfd =>
        cases hstep
        exact hscanned.checkNext hpc hpollfd answer
      · contradiction
    · contradiction
  | endScan =>
    rw [Poll.step] at hstep
    split at hstep
    · next index num hpc =>
      split at hstep
      · next hindex =>
        cases hstep
        exact hscanned.endScan (hindex ▸ hpc)
      · contradiction
    · contradiction
  | resume =>
    rw [Poll.step] at hstep
    split at hstep
    · cases hstep
      refine ⟨hscanned.same, fun _ _ hpc => ?_, fun _ hpc => by cases hpc⟩
      cases hpc
      exact fun _ hindex => absurd hindex (Nat.not_lt_zero _)
    · contradiction
  | wake index key =>
    rw [Poll.step] at hstep
    split at hstep
    · split at hstep
      · cases hstep
        refine ⟨hscanned.same, fun index num hpc => ?_, fun num hpc => ?_⟩ <;>
          dsimp only [pollwake] at hpc <;> split at hpc
        · contradiction
        · exact hscanned.before index num hpc
        · contradiction
        · exact hscanned.finished num hpc
      · contradiction
    · contradiction
  | tick =>
    cases hstep
    rw [tick]
    split
    · exact ⟨hscanned.same, fun _ _ hpc => (by cases hpc), fun _ hpc => by cases hpc⟩
    · exact ⟨hscanned.same, fun _ _ hpc => (by cases hpc), fun _ hpc => by cases hpc⟩
    · exact hscanned

/-- What a call leaves in the descriptors is what the files have answered in one scan. -/
theorem reported_of_done {msec : ℤ} {trace : List (Action × Unit)} {last : State} {num : ℕ}
    (hrun : (machine timeout).Run (pollDo fds msec) trace last) (hdone : last.pc = .done num) :
    last.fds.map Pollfd.request = fds.map Pollfd.request ∧
      Reported fds last.fds fds.length num := by
  have hscanned : Scanned fds last := hrun.invariant (Scanned fds)
    (fun _ _ _ _ hscanned _ hstep => hscanned.step hstep) (scanned_pollDo fds msec)
  exact ⟨hscanned.same, hscanned.finished num hdone⟩

/-! ## Spinning -/

/-- The scans that were begun; whether a wake-up has come since the last one began; and whether a
scan that found nothing was followed by another one, without a wake-up in between and before the
time was over. -/
structure Notes where
  scans : ℕ
  woken : Bool
  spun : Bool
  deriving DecidableEq

def record (notes : Notes) (_ : State) (act : Action) (next : State) (_ : Unit) : Notes :=
  match act with
  | .endScan =>
    if next.pc = .checking 0 0 then
      { scans := notes.scans + 1
        woken := false
        spun := notes.spun || (!notes.woken && !next.isTimeout) }
    else notes
  | .resume => { notes with scans := notes.scans + 1, woken := false }
  | .wake _ _ => { notes with woken := true }
  | .check _ | .tick => notes

def recorder (timeout : ℤ) : Machine (State × Notes) Action Unit :=
  (machine timeout).recorded record

/-- At the start of the first scan. -/
def firstScan (fds : List Pollfd) (msec : ℤ) : State × Notes :=
  (pollDo fds msec, { scans := 1, woken := false, spun := false })

/-- The thread has not spun, and it has not made more scans than there were nodes to wake it, with
the first scan and the one after the time is over. -/
def Settles (st : State × Notes) : Prop :=
  st.2.spun = false ∧ st.2.scans ≤ st.1.table.nodes.length + 2

/-- A scan that begins when the table was marked finds a descriptor ready, or a wake-up comes
while it goes on. -/
def FindsReady (st : State × Notes) : Action → Prop
  | .endScan => ∀ index, st.1.pc = .checking index 0 → st.1.isTimeout = false →
      st.1.table.triggered = true → st.2.woken = true
  | _ => True

/-- The nodes that a wake-up has unlinked. -/
def unlinked (nodes : List PollNode) : ℕ :=
  nodes.countP fun node => !node.linked

/-- Every scan but the first and the last was caused by a wake-up of its own. -/
structure Inv (st : State) (notes : Notes) : Prop where
  spun : notes.spun = false
  counted : notes.scans + notes.woken.toNat ≤
    1 + unlinked st.table.nodes + st.isTimeout.toNat
  asleep : ∀ timer, st.pc = .waiting timer →
    st.isTimeout = false ∧ st.table.triggered = false
  resumed : st.pc = .resumed →
    st.isTimeout = false ∧ (st.table.triggered = true → notes.woken = true)

variable {notes : Notes}

theorem inv_firstScan (fds : List Pollfd) (msec : ℤ) :
    Inv (firstScan fds msec).1 (firstScan fds msec).2 where
  spun := rfl
  counted := by simp [firstScan, pollDo, unlinked]
  asleep := by simp [firstScan, pollDo]
  resumed := by simp [firstScan, pollDo]

theorem Inv.settles (hinv : Inv st notes) : Settles (st, notes) := by
  refine ⟨hinv.spun, ?_⟩
  have hcounted := hinv.counted
  have hall : unlinked st.table.nodes ≤ st.table.nodes.length := List.countP_le_length
  have hlast : st.isTimeout.toNat ≤ 1 := Bool.toNat_le st.isTimeout
  dsimp only
  omega

theorem unlinked_pollAdd (proc : Bool) (pollfd : Pollfd) (answer : FdAnswer)
    (nodes : List PollNode) :
    unlinked (pollAdd proc pollfd answer ++ nodes) = unlinked nodes := by
  have hadded : unlinked (pollAdd proc pollfd answer) = 0 := by
    rw [unlinked, List.countP_eq_zero]
    intro node hnode
    unfold pollAdd at hnode
    split at hnode
    · split at hnode
      · rw [List.eq_of_mem_replicate hnode]
        simp
      · contradiction
    · contradiction
  rw [unlinked] at hadded ⊢
  rw [List.countP_append, hadded, Nat.zero_add]
  rfl

theorem unlinked_set {nodes : List PollNode} {index : ℕ} {node : PollNode}
    (hnode : nodes[index]? = some node) (hlinked : node.linked = true) :
    unlinked (nodes.set index { node with linked := false }) = unlinked nodes + 1 := by
  obtain ⟨hindex, heq⟩ := List.getElem?_eq_some_iff.1 hnode
  rw [unlinked, List.countP_set hindex, heq, hlinked]
  simp [unlinked]

theorem Inv.check (hinv : Inv st notes) (index num : ℕ) (pollfd : Pollfd)
    (answer : FdAnswer) : Inv (checkNext st index num pollfd answer) notes where
  spun := hinv.spun
  counted := by
    have hsame := unlinked_pollAdd st.table.proc pollfd answer st.table.nodes
    have hcounted := hinv.counted
    rw [← hsame] at hcounted
    exact hcounted
  asleep := by simp [checkNext]
  resumed := by simp [checkNext]

/-- The next scan begins because of a wake-up, or because the time is over. -/
theorem Inv.afterWait (hinv : Inv st notes) (hwaited : st.isTimeout = false)
    (hwoken : st.table.triggered = true → notes.woken = true) {spun : Bool}
    (hspun : spun = false) :
    Inv (afterWait st) { scans := notes.scans + 1, woken := false, spun := spun } where
  spun := hspun
  counted := by
    have hcounted := hinv.counted
    rw [hwaited] at hcounted
    dsimp only [Poll.afterWait]
    rw [hwaited]
    cases htriggered : st.table.triggered with
    | true =>
      rw [hwoken htriggered] at hcounted
      simpa using hcounted
    | false =>
      simp only [Bool.toNat_false, Bool.not_false, Bool.false_or, Bool.toNat_true] at hcounted ⊢
      omega
  asleep := by simp [Poll.afterWait]
  resumed := by simp [Poll.afterWait]

theorem Inv.endScan (hinv : Inv st notes) {index num : ℕ}
    (hpc : st.pc = .checking index num)
    (hgood : FindsReady (st, notes) .endScan) :
    Inv (endScan timeout st num)
      (record notes st .endScan (endScan timeout st num) ()) := by
  have hscanned : Inv { st with table := { st.table with proc := false } } notes :=
    ⟨hinv.spun, hinv.counted, hinv.asleep, hinv.resumed⟩
  rw [Poll.endScan]
  dsimp only
  split
  · exact ⟨hinv.spun, hinv.counted, by simp, by simp⟩
  · next hgoesOn =>
    rw [not_or, not_not, Bool.not_eq_true] at hgoesOn
    obtain ⟨rfl, hwaited⟩ := hgoesOn
    split
    · next hblocks =>
      exact ⟨hinv.spun, hinv.counted, fun _ _ => ⟨hwaited, hblocks.2⟩, by simp⟩
    · have hwoken : st.table.triggered = true → notes.woken = true := hgood index hpc hwaited
      refine hscanned.afterWait hwaited hwoken ?_
      rw [hinv.spun]
      cases htriggered : st.table.triggered with
      | true => simp [hwoken htriggered]
      | false => simp [Poll.afterWait]

theorem Inv.pollwake (hinv : Inv st notes) {index : ℕ} {node : PollNode}
    (hnode : st.table.nodes[index]? = some node) (hlinked : node.linked = true) :
    Inv (pollwake st index node) { notes with woken := true } where
  spun := hinv.spun
  counted := by
    have hcounted := hinv.counted
    dsimp only [Poll.pollwake]
    rw [unlinked_set hnode hlinked, Bool.toNat_true]
    omega
  asleep timer hpc := by
    dsimp only [Poll.pollwake] at hpc
    split at hpc
    · contradiction
    · next hnot => exact absurd hpc (hnot timer)
  resumed hpc := by
    refine ⟨?_, fun _ => rfl⟩
    dsimp only [Poll.pollwake] at hpc ⊢
    split at hpc
    · next timer hwaiting => exact (hinv.asleep timer hwaiting).1
    · exact (hinv.resumed hpc).1

theorem Inv.tick (hinv : Inv st notes) : Inv (tick st) notes := by
  rw [Poll.tick]
  split
  · next remaining hpc =>
    exact ⟨hinv.spun, hinv.counted, fun _ _ => hinv.asleep _ hpc, by simp⟩
  · next remaining _ hpc =>
    obtain ⟨hwaited, hunmarked⟩ := hinv.asleep _ hpc
    refine ⟨hinv.spun, hinv.counted, by simp, fun _ => ⟨hwaited, fun hmarked => ?_⟩⟩
    rw [hunmarked] at hmarked
    contradiction
  · exact hinv

theorem Inv.step {act : Action} {event : Unit} (hinv : Inv st notes)
    (hgood : FindsReady (st, notes) act)
    (hstep : step timeout st act = some (next, event)) :
    Inv next (record notes st act next event) := by
  cases act with
  | check answer =>
    rw [Poll.step] at hstep
    split at hstep
    · split at hstep
      · cases hstep
        exact hinv.check _ _ _ _
      · contradiction
    · contradiction
  | endScan =>
    rw [Poll.step] at hstep
    split at hstep
    · next index num hpc =>
      split at hstep
      · cases hstep
        exact hinv.endScan hpc hgood
      · contradiction
    · contradiction
  | resume =>
    rw [Poll.step] at hstep
    split at hstep
    · next hpc =>
      cases hstep
      obtain ⟨hwaited, hwoken⟩ := hinv.resumed hpc
      exact hinv.afterWait hwaited hwoken hinv.spun
    · contradiction
  | wake index key =>
    rw [Poll.step] at hstep
    split at hstep
    · next node hnode =>
      split at hstep
      · next hwakes =>
        cases hstep
        exact hinv.pollwake hnode hwakes.1
      · contradiction
    · contradiction
  | tick =>
    cases hstep
    exact hinv.tick

/-- A scan that finds nothing although the table was marked before goes over into the next one. -/
theorem not_settles_of_step {act : Action} {event : Unit}
    (hbad : ¬FindsReady (st, notes) act)
    (hstep : step timeout st act = some (next, event)) :
    ¬Settles (next, record notes st act next event) := by
  cases act with
  | endScan =>
    simp only [FindsReady, Classical.not_forall] at hbad
    obtain ⟨index, hpc, hwaited, hmarked, hnotWoken⟩ := hbad
    rw [step, hpc] at hstep
    dsimp only at hstep
    split at hstep
    · cases hstep
      have hagain : endScan timeout st 0 =
          afterWait { st with table := { st.table with proc := false } } := by
        rw [endScan]
        simp [hwaited, hmarked]
      rintro ⟨hspun, -⟩
      rw [hagain] at hspun
      simp [record, afterWait, hwaited, hmarked, hnotWoken] at hspun
    · contradiction
  | _ => exact absurd trivial hbad

/-- The thread never spins and makes only so many scans as there are wake-ups for it, in every
state of a run, exactly when every scan that begins with a marked table finds a descriptor ready
or is overtaken by a wake-up. -/
theorem poll_settles_iff {tickPerSecond : ℕ} {fds : List Pollfd} {msec : ℤ}
    {trace : List (Action × Unit)} {last : State}
    (hrun : (machine (rtTickFromMillisecond tickPerSecond msec)).Run (pollDo fds msec) trace
      last) :
    (∃ notes, (recorder (rtTickFromMillisecond tickPerSecond msec)).Run (firstScan fds msec) trace
      (last, notes)) ∧
    ∀ notes, (recorder (rtTickFromMillisecond tickPerSecond msec)).Run (firstScan fds msec) trace
        (last, notes) →
      (((recorder (rtTickFromMillisecond tickPerSecond msec)).RunWith
          (fun st _ => Settles st) (firstScan fds msec) trace (last, notes) ∧
        Settles (last, notes)) ↔
      (recorder (rtTickFromMillisecond tickPerSecond msec)).RunWith FindsReady
        (firstScan fds msec) trace (last, notes)) := by
  refine ⟨hrun.recorded record _, fun notes hrecorded => ?_⟩
  refine hrecorded.always_iff (fun st => Inv st.1 st.2) Settles
    (fun _ hinv => hinv.settles) ?_ ?_ (inv_firstScan fds msec)
  · rintro ⟨st, notes⟩ action ⟨next, after⟩ event hinv hgood hstep
    obtain ⟨hstep, hnotes⟩ := Machine.recorded_step.1 hstep
    rw [show after = _ from hnotes]
    exact hinv.step hgood hstep
  · rintro ⟨st, notes⟩ action ⟨next, after⟩ event _ hbad hstep
    obtain ⟨hstep, hnotes⟩ := Machine.recorded_step.1 hstep
    rw [show after = _ from hnotes]
    exact not_settles_of_step hbad hstep

instance (st : State × Notes) : (act : Action) → Decidable (FindsReady st act)
  | .endScan =>
    match hpc : st.1.pc with
    | .checking _ 0 =>
      decidable_of_iff (st.1.isTimeout = false → st.1.table.triggered = true →
        st.2.woken = true) (by simp [FindsReady, hpc])
    | .checking _ (_ + 1) => isTrue (by simp [FindsReady, hpc])
    | .waiting _ | .resumed | .done _ => isTrue (by simp [FindsReady, hpc])
  | .check _ | .resume | .wake _ _ | .tick => isTrue trivial

/-- One descriptor, for reading. -/
def oneFd : List Pollfd :=
  [⟨3, pollin, 0⟩]

/-- Nothing is ready, the thread is woken, and then there is something to read. -/
def scheduleReady : List Action :=
  [.check (.driver 0 1), .endScan, .wake 0 0, .resume, .check (.driver 1 0), .endScan]

theorem isSome_scheduleReady : ((recorder (rtTickFromMillisecond 1000 10)).exec FindsReady
    (firstScan oneFd 10) scheduleReady).isSome = true := by
  decide

theorem poll_settles_scheduleReady : ∃ trace, ∃ last : State × Notes,
    (recorder (rtTickFromMillisecond 1000 10)).RunWith (fun st _ => Settles st)
      (firstScan oneFd 10) trace last ∧ last.1.pc = .done 1 := by
  have hrun := Machine.runWith_of_isSome _ isSome_scheduleReady
  exact ⟨_, _, (((poll_settles_iff hrun.of_recorded).2 _ hrun.run).2 hrun).1, by decide⟩

/-- The thread is woken, its time goes by, and another thread was faster. -/
def scheduleOvertaken : List Action :=
  ([.check (.driver 0 1), .endScan, .wake 0 0, .resume] : List Action) ++ List.replicate 10 .tick

/-- A scan that finds nothing. -/
def emptyScan : List Action :=
  [.check (.driver 0 0), .endScan]

/-- The state after the time has gone by. -/
def overtaken : State where
  fds := oneFd
  table := { proc := false, triggered := true, nodes := [⟨requested ⟨3, pollin, 0⟩, false⟩] }
  isTimeout := false
  pc := .checking 0 0

theorem exec_scheduleOvertaken : (machine (rtTickFromMillisecond 1000 10)).exec
    (fun _ _ => True) (pollDo oneFd 10) scheduleOvertaken =
      some (overtaken, scheduleOvertaken.map fun act => (act, ())) := by
  decide

theorem exec_emptyScan : (machine (rtTickFromMillisecond 1000 10)).exec (fun _ _ => True)
    overtaken emptyScan = some (overtaken, emptyScan.map fun act => (act, ())) := by
  decide

/-- Ten ticks after a call with a timeout of ten, the thread scans as often as one likes, and is
where it was. -/
theorem poll_spins :
    (machine (rtTickFromMillisecond 1000 10)).Run (pollDo oneFd 10)
      (scheduleOvertaken.map fun action => (action, ())) overtaken ∧
    10 ≤ scheduleOvertaken.count .tick ∧
    ∀ rounds, (machine (rtTickFromMillisecond 1000 10)).Run overtaken
      ((List.replicate rounds emptyScan).flatten.map fun action => (action, ())) overtaken := by
  refine ⟨Machine.runWith_of_exec _ exec_scheduleOvertaken, by decide, fun rounds => ?_⟩
  induction rounds with
  | zero => exact .nil _
  | succ rounds ih =>
    rw [List.replicate_succ, List.flatten_cons, List.map_append]
    exact (Machine.runWith_of_exec _ exec_emptyScan).append ih

end RtThread.Poll
