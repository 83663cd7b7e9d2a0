import RtThread.Core.Recorder
import RtThread.Vbus.BusRing
import RtThread.Vbus.Post

set_option linter.all false

/-!
# Wake-ups of the flow control

Two places where one side waits for the other.  A post that finds its channel
suspended waits in the list of the channel until the in thread takes it from there;
it does not look at the status again when it enters the list.  An out thread that finds
no space in a ring sets `blocked` and waits for a tick of the reader; the reader looks
at `blocked` only behind a package that it has delivered.
-/

namespace RtThread.Vbus

open Function
open RtThread.Core
open RtThread.Kernel (Err)
open RtThread.SmallMem (HeapConfig)

/-! ## Posts that wait for their channel -/

section Posts

variable {Tid : Type*} {cfg : HeapConfig} {st next : VbusState Tid} {event : VbusEvent}

/-- The in thread has written the status of the channel, and is going to wake its threads. -/
def Waking (inPc : InPc) (chnr : ℕ) : Prop :=
  match inPc with
  | .waking other _ => other = chnr
  | .idle => False

instance (inPc : InPc) (chnr : ℕ) : Decidable (Waking inPc chnr) :=
  match inPc with
  | .waking other _ => inferInstanceAs (Decidable (other = chnr))
  | .idle => inferInstanceAs (Decidable False)

/-- Every thread in the list of a channel waits for a resumption that is still to come, or
that is under way. -/
def NoPostForgotten (st : VbusState Tid) : Prop :=
  ∀ tid call, st.pc tid = .parked call →
    st.status call.id = .suspend ∨ Waking st.inPc call.id

def PostsListed (st : VbusState Tid) : Prop :=
  ∀ tid call, st.pc tid = .parked call → tid ∈ st.suspendedThreads call.id

/-- What a thread goes into the list with, or is there with. -/
def PostPc.parkingCall : PostPc → Option PostCall
  | .parking call => some call
  | _ => none

def PostPc.parkedCall : PostPc → Option PostCall
  | .parked call => some call
  | _ => none

/-- A thread goes into the list of a channel that is suspended or about to be woken; no other
code than the in thread ends the suspension of a channel that threads wait for. -/
def ParksSuspended (st : VbusState Tid) : VbusAction Tid → Prop
  | .park tid => ∀ call ∈ (st.pc tid).parkingCall,
      st.status call.id = .suspend ∨ Waking st.inPc call.id
  | .setStatus chnr status => status = .suspend ∨ Waking st.inPc chnr ∨
      ∀ tid, ∀ call ∈ (st.pc tid).parkedCall, call.id ≠ chnr
  | _ => True

/-- What the posts that wait depend on. -/
structure PostsInv (st : VbusState Tid) : Prop where
  kept : NoPostForgotten st
  listed : PostsListed st

theorem PostsInv.congr (hinv : PostsInv st)
    (hpc : ∀ tid call, next.pc tid = .parked call → st.pc tid = .parked call)
    (hstatus : next.status = st.status) (hinPc : next.inPc = st.inPc)
    (hlists : next.suspendedThreads = st.suspendedThreads) : PostsInv next where
  kept := by
    intro tid call hparked
    rw [hstatus, hinPc]
    exact hinv.kept tid call (hpc tid call hparked)
  listed := by
    intro tid call hparked
    rw [hlists]
    exact hinv.listed tid call (hpc tid call hparked)

variable [DecidableEq Tid]

variable {tid : Tid} {call : PostCall}

theorem parked_update {pc : Tid → PostPc} {other : Tid} {after : PostPc}
    (hafter : ∀ call, after ≠ .parked call) (hparked : update pc tid after other = .parked call) :
    other ≠ tid ∧ pc other = .parked call := by
  by_cases heq : other = tid
  · subst heq
    rw [update_self] at hparked
    exact absurd hparked (hafter call)
  · rw [update_of_ne heq] at hparked
    exact ⟨heq, hparked⟩

theorem PostsInv.setPc (hinv : PostsInv st) {pc : PostPc} (hpc : ∀ call, pc ≠ .parked call) :
    PostsInv (st.setPc tid pc) :=
  hinv.congr (fun _ _ hparked => (parked_update hpc hparked).2) rfl rfl rfl

theorem PostsInv.chunk (hinv : PostsInv st) (tid : Tid) (call : PostCall) :
    PostsInv (st.chunk tid call).1 := by
  rw [VbusState.chunk]
  split <;> exact hinv.setPc (by simp)

omit [DecidableEq Tid] in
theorem PostsInv.setWm (hinv : PostsInv st) (chnr : ℕ) (wg : RtWatermarkQueue Tid) :
    PostsInv (st.setWm chnr wg) :=
  hinv.congr (fun _ _ hparked => hparked) rfl rfl rfl

theorem PostsInv.incTurn (hinv : PostsInv st) (hturn : st.incTurn tid call = (next, event)) :
    PostsInv next := by
  rw [VbusState.incTurn] at hturn
  split at hturn <;> cases hturn <;> exact (hinv.setWm _ _).setPc (by simp)

theorem PostsInv.pushStep (hinv : PostsInv st) {act : PqAction (Option Tid) VbusPkg}
    (hstep : st.pushStep cfg tid call act = some (next, event)) : PostsInv next := by
  have hque : ∀ que, PostsInv { st with outQue := que } := fun que =>
    hinv.congr (fun _ _ hparked => hparked) rfl rfl rfl
  rw [VbusState.pushStep] at hstep
  split at hstep
  · cases hstep
  · rename_i que prio pkg _
    have hchunk := (hque que).chunk tid call.rest
    rw [Option.some.inj hstep] at hchunk
    exact hchunk
  · cases hstep
    exact (hque _).setPc (by simp)
  · cases hstep
    exact hque _

omit [DecidableEq Tid] in
theorem PostsInv.outStep (hinv : PostsInv st) (que : PqState (Option Tid) VbusPkg)
    (outPc : OutPc) : PostsInv { st with outQue := que, outPc := outPc } :=
  hinv.congr (fun _ _ hparked => hparked) rfl rfl rfl

theorem PostsInv.popStep (hinv : PostsInv st) {act : PqAction (Option Tid) VbusPkg}
    (hstep : st.popStep cfg act = some (next, event)) : PostsInv next := by
  rw [VbusState.popStep] at hstep
  split at hstep
  · split at hstep
    · cases hstep
    all_goals
      cases hstep
      exact hinv.outStep _ _
  · cases hstep

theorem PostsInv.step (hinv : PostsInv st) {act : VbusAction Tid}
    (hgood : ParksSuspended st act) (hstep : vbusStep cfg st act =
      some (next, event)) :
    PostsInv next := by
  cases act with
  | post tid call =>
    simp only [vbusStep] at hstep
    split at hstep
    · split at hstep <;> cases hstep
      · exact hinv
      · exact hinv.setPc (by simp)
    · cases hstep
  | test tid =>
    simp only [vbusStep, VbusState.testStatus] at hstep
    split at hstep
    · split at hstep
      · split at hstep <;> cases hstep <;> exact hinv.setPc (by simp)
      · cases hstep
        exact hinv.setPc (by simp)
    · cases hstep
  | park tid =>
    simp only [vbusStep] at hstep
    split at hstep
    · rename_i call hpc
      cases hstep
      have hsuspended := hgood call (by rw [hpc]; rfl)
      constructor
      · intro other found hparked
        change update st.pc tid (.parked call) other = .parked found at hparked
        by_cases heq : other = tid
        · subst heq
          rw [update_self] at hparked
          cases hparked
          exact hsuspended
        · rw [update_of_ne heq] at hparked
          exact hinv.kept other found hparked
      · intro other found hparked
        change update st.pc tid (.parked call) other = .parked found at hparked
        change other ∈ update st.suspendedThreads call.id
          (tid :: st.suspendedThreads call.id) found.id
        by_cases heq : other = tid
        · subst heq
          rw [update_self] at hparked
          cases hparked
          rw [update_self]
          exact List.mem_cons_self
        · rw [update_of_ne heq] at hparked
          have hmem := hinv.listed other found hparked
          by_cases hid : found.id = call.id
          · rw [hid, update_self]
            rw [hid] at hmem
            exact List.mem_cons_of_mem tid hmem
          · rwa [update_of_ne hid]
    · cases hstep
  | unpark tid =>
    simp only [vbusStep] at hstep
    split at hstep
    · cases hstep
      exact hinv.setPc (by simp)
    · cases hstep
      exact hinv.setPc (by simp)
    · cases hstep
  | check tid =>
    simp only [vbusStep] at hstep
    split at hstep
    · rename_i call _
      split at hstep
      · have hchunk := hinv.chunk tid call
        rw [Option.some.inj hstep] at hchunk
        exact hchunk
      · cases hstep
        exact hinv.setPc (by simp)
    · cases hstep
  | inc tid =>
    simp only [vbusStep] at hstep
    split at hstep
    · exact hinv.incTurn (Option.some.inj hstep)
    · cases hstep
  | incResume tid =>
    simp only [vbusStep] at hstep
    split at hstep
    · exact hinv.incTurn (Option.some.inj hstep)
    · cases hstep
      exact hinv.setPc (by simp)
    · cases hstep
  | expire tid =>
    simp only [vbusStep] at hstep
    split at hstep
    · rename_i call hpc
      split at hstep
      · cases hstep
        constructor
        · intro other found hparked
          exact hinv.kept other found (parked_update (by simp) hparked).2
        · intro other found hparked
          obtain ⟨hne, hparked⟩ := parked_update (by simp) hparked
          have hmem := hinv.listed other found hparked
          change other ∈ update st.suspendedThreads call.id
            ((st.suspendedThreads call.id).erase tid) found.id
          by_cases hid : found.id = call.id
          · rw [hid, update_self]
            rw [hid] at hmem
            exact (List.mem_erase_of_ne hne).2 hmem
          · rwa [update_of_ne hid]
      · cases hstep
    · split at hstep
      · cases hstep
        exact (hinv.setWm _ _).setPc (by simp)
      · cases hstep
    · cases hstep
  | push tid | poolResume tid | poolRetry tid | fill tid | link tid =>
    simp only [vbusStep] at hstep
    split at hstep
    · exact hinv.pushStep hstep
    · cases hstep
  | poolTimeout tid | tick =>
    simp only [vbusStep, VbusState.poolStep] at hstep
    split at hstep
    · cases hstep
    · cases hstep
      exact hinv.outStep _ _
  | pop | repop | copy | free => exact hinv.popStep hstep
  | dec =>
    simp only [vbusStep] at hstep
    split at hstep
    · split at hstep <;> cases hstep <;> exact hinv.outStep _ _
    · cases hstep
  | lower =>
    simp only [vbusStep] at hstep
    split at hstep
    · cases hstep
      refine hinv.congr (fun tid call hparked => ?_) rfl rfl rfl
      dsimp only at hparked
      split at hparked
      · cases hpc : st.pc tid <;> rw [hpc] at hparked <;> cases hparked
        rfl
      · exact hparked
    · cases hstep
  | suspend chnr =>
    simp only [vbusStep] at hstep
    split at hstep
    · split at hstep <;> cases hstep
      · refine ⟨fun tid call hparked => ?_, hinv.listed⟩
        change update st.status chnr .suspend call.id = .suspend ∨ _
        by_cases hid : call.id = chnr
        · rw [hid, update_self]
          exact Or.inl rfl
        · rw [update_of_ne hid]
          exact hinv.kept tid call hparked
      · exact hinv
    · cases hstep
  | resume chnr =>
    simp only [vbusStep] at hstep
    split at hstep
    · rename_i hidle
      split at hstep <;> cases hstep
      · refine ⟨fun tid call hparked => ?_, hinv.listed⟩
        change update st.status chnr .established call.id = .suspend ∨ chnr = call.id
        by_cases hid : call.id = chnr
        · exact Or.inr hid.symm
        · rw [update_of_ne hid]
          have hkept := hinv.kept tid call hparked
          rw [hidle.1] at hkept
          exact Or.inl (hkept.resolve_right id)
      · exact hinv
    · cases hstep
  | disable chnr =>
    simp only [vbusStep] at hstep
    split at hstep
    · rename_i hidle
      cases hstep
      refine ⟨fun tid call hparked => ?_, hinv.listed⟩
      change update st.status chnr .closing call.id = .suspend ∨ chnr = call.id
      by_cases hid : call.id = chnr
      · exact Or.inr hid.symm
      · rw [update_of_ne hid]
        have hkept := hinv.kept tid call hparked
        rw [hidle.1] at hkept
        exact Or.inl (hkept.resolve_right id)
    · cases hstep
  | wake =>
    simp only [vbusStep] at hstep
    split at hstep
    · rename_i chnr err hwaking
      cases hstep
      -- a thread that still waits afterwards was not in the list of the channel
      have hbefore : ∀ tid call, (if tid ∈ st.suspendedThreads chnr then
          (st.pc tid).unpark (err.getD .eok) else st.pc tid) = .parked call →
            st.pc tid = .parked call ∧ call.id ≠ chnr := by
        intro tid call hparked
        split at hparked
        · cases hpc : st.pc tid <;> rw [hpc] at hparked <;> cases hparked
        · rename_i hnotMem
          refine ⟨hparked, ?_⟩
          rintro rfl
          exact hnotMem (hinv.listed tid call hparked)
      constructor
      · intro tid call hparked
        obtain ⟨hold, hid⟩ := hbefore tid call hparked
        have hkept := hinv.kept tid call hold
        rw [hwaking] at hkept
        exact Or.inl (hkept.resolve_right fun heq => hid heq.symm)
      · intro tid call hparked
        obtain ⟨hold, hid⟩ := hbefore tid call hparked
        change tid ∈ update st.suspendedThreads chnr [] call.id
        rw [update_of_ne hid]
        exact hinv.listed tid call hold
    · cases hstep
  | setStatus chnr status =>
    cases hstep
    refine ⟨fun tid call hparked => ?_, hinv.listed⟩
    change update st.status chnr status call.id = .suspend ∨ Waking st.inPc call.id
    by_cases hid : call.id = chnr
    · rw [hid, update_self]
      rcases hgood with hsuspend | hwaking | hnone
      · exact Or.inl hsuspend
      · exact Or.inr hwaking
      · refine absurd hid (hnone tid call ?_)
        rw [show st.pc tid = .parked call from hparked]
        rfl
    · rw [update_of_ne hid]
      exact hinv.kept tid call hparked

/-- A thread goes into the list of a channel that has been resumed, or somebody else resumes
a channel. -/
theorem forgotten_of_not_parksSuspended {act : VbusAction Tid}
    (hbad : ¬ParksSuspended st act)
    (hstep : vbusStep cfg st act = some (next, event)) : ¬NoPostForgotten next := by
  intro hkept
  cases act with
  | park tid =>
    simp only [vbusStep] at hstep
    split at hstep
    · rename_i call hpc
      cases hstep
      refine hbad fun found hfound => ?_
      rw [hpc] at hfound
      cases hfound
      exact hkept tid call (update_self ..)
    · cases hstep
  | setStatus chnr status =>
    cases hstep
    simp only [ParksSuspended, not_or, not_forall, not_not] at hbad
    obtain ⟨hstatus, hwaking, tid, call, hcall, hid⟩ := hbad
    have hparked : st.pc tid = .parked call := by
      cases hpc : st.pc tid <;> rw [hpc] at hcall <;> cases hcall
      rfl
    have hafter := hkept tid call hparked
    change update st.status chnr status call.id = .suspend ∨
      Waking st.inPc call.id at hafter
    rw [hid, update_self] at hafter
    exact hafter.elim hstatus hwaking
  | _ => exact hbad trivial

end Posts

/-! ## The writer of a ring that waits for space -/

section Ring

/-- Since the out thread has set `blocked`: whether the in thread has emptied the ring, and
whether it has ticked. -/
structure SinceBlocked where
  emptied : Bool
  ticked : Bool
  deriving DecidableEq

def sinceBlocked (notes : SinceBlocked) (_ : RingState) (act : RingAction) (next : RingState)
    (event : RingEvent) : SinceBlocked :=
  match act, event with
  | .test, _ => if next.ring.blocked then ⟨false, false⟩ else notes
  | .get, _ | _, .dropped | _, .control _ =>
    { notes with emptied := notes.emptied || decide (next.ring.getIdx = next.ring.putIdx) }
  | _, .ticked => { notes with ticked := true }
  | _, _ => notes

/-- An in thread that finds the ring empty, and has emptied it while the writer was blocked,
has ticked the writer. -/
def WriterTicked (st : RingState × SinceBlocked) : Prop :=
  st.1.ring.blocked = true → st.1.reader = .idle →
    st.1.ring.getIdx = st.1.ring.putIdx → st.2.emptied = true → st.2.ticked = true

/-- The size of a package that the in thread takes from the ring and does not deliver. -/
def skippedSize : ReaderPc → RingAction → Option ℕ
  | .checking id size, .check connected =>
    if rtVbusChannelNr < id ∨ connected = false then some size else none
  | .controlling size, .control => some size
  | .allocating _ size, .alloc success => if success then none else some size
  | _, _ => none

/-- A package that is not delivered is not the last one in the ring of a blocked writer that
has not been ticked. -/
def SkipsNotLast (blkNr : ℕ) (st : RingState × SinceBlocked) (act : RingAction) : Prop :=
  ∀ size ∈ skippedSize st.1.reader act, st.1.ring.blocked = true →
    st.2.ticked = true ∨ wrapIdx blkNr st.1.ring.getIdx (len2bnr size) ≠ st.1.ring.putIdx

/-- The ring with its record. -/
def tickMachine (blkNr : ℕ) : Machine (RingState × SinceBlocked) RingAction RingEvent :=
  (ringMachine blkNr).recorded sinceBlocked

/-- The in thread is behind a package that it delivers, and going to look at `blocked`. -/
def BeforeTick : ReaderPc → Prop
  | .pushing _ _ | .testing => True
  | _ => False

def TickInv (st : RingState × SinceBlocked) : Prop :=
  st.1.ring.blocked = true → st.2.emptied = true →
    BeforeTick st.1.reader ∨ st.2.ticked = true

variable {blkNr : ℕ} {st next : RingState} {notes : SinceBlocked} {event : RingEvent}

variable {act : RingAction}

/-- The three ways in which a package is not delivered. -/
theorem ringStep_skipped {size : ℕ} (hskipped : skippedSize st.reader act = some size)
    (hstep : ringStep blkNr st act = some (next, event)) :
    next = (dropPkg blkNr st size).1 ∧ ∀ notes, sinceBlocked notes st act next event =
      { notes with emptied := notes.emptied || decide (next.ring.getIdx = next.ring.putIdx) } := by
  cases hpc : st.reader with
  | checking id found =>
    rw [hpc] at hskipped
    cases act <;> simp only [skippedSize, Option.ite_none_right_eq_some, Option.some.injEq,
      reduceCtorEq] at hskipped
    obtain ⟨hinvalid, rfl⟩ := hskipped
    simp only [ringStep, hpc, if_pos hinvalid] at hstep
    cases hstep
    exact ⟨rfl, fun _ => rfl⟩
  | controlling found =>
    rw [hpc] at hskipped
    cases act <;> simp only [skippedSize, Option.some.injEq, reduceCtorEq] at hskipped
    subst hskipped
    simp only [ringStep, hpc] at hstep
    split at hstep <;> cases hstep <;> exact ⟨rfl, fun _ => rfl⟩
  | allocating id found =>
    rw [hpc] at hskipped
    cases act <;> simp only [skippedSize, reduceCtorEq] at hskipped
    rename_i success
    cases success with
    | true => cases hskipped
    | false =>
      cases hskipped
      simp only [ringStep, hpc] at hstep
      cases hstep
      exact ⟨rfl, fun _ => rfl⟩
  | _ =>
    rw [hpc] at hskipped
    cases act <;> cases hskipped

theorem TickInv.skip (hinv : TickInv (st, notes)) {size : ℕ}
    (hgood : SkipsNotLast blkNr (st, notes) act) (hskipped : skippedSize st.reader act = some size)
    (hstep : ringStep blkNr st act = some (next, event)) :
    TickInv (next, sinceBlocked notes st act next event) := by
  obtain ⟨rfl, hnotes⟩ := ringStep_skipped hskipped hstep
  rw [hnotes]
  intro hblocked hemptied
  dsimp only at hemptied
  rw [Bool.or_eq_true, decide_eq_true_eq] at hemptied
  refine Or.inr (hemptied.elim (fun hold => (hinv hblocked hold).resolve_left ?_) fun hempty => ?_)
  · intro hbefore
    cases hpc : st.reader <;> rw [hpc] at hbefore hskipped
    all_goals first
      | exact hbefore
      | cases act <;> cases hskipped
  · exact (hgood size hskipped hblocked).resolve_right fun hne => hne hempty

theorem TickInv.step (hinv : TickInv (st, notes)) (hgood : SkipsNotLast blkNr (st, notes) act)
    (hstep : ringStep blkNr st act = some (next, event)) :
    TickInv (next, sinceBlocked notes st act next event) := by
  cases hskipped : skippedSize st.reader act with
  | some size => exact hinv.skip hgood hskipped hstep
  | none =>
    -- the in thread goes on, but not to a place in front of the test of `blocked`
    have hreads : ∀ {pc : ReaderPc}, ¬BeforeTick st.reader →
        TickInv ({ st with reader := pc }, notes) :=
      fun hnot hblocked hemptied => Or.inr ((hinv hblocked hemptied).resolve_left hnot)
    cases act with
    | take pkg connected =>
      simp only [ringStep] at hstep
      split at hstep
      · split at hstep <;> cases hstep <;> exact hinv
      · cases hstep
    | test =>
      simp only [ringStep] at hstep
      split at hstep
      · split at hstep <;> cases hstep
        · exact fun _ hemptied => absurd hemptied (by simp [sinceBlocked])
        · intro hblocked hemptied
          change st.ring.blocked = true at hblocked
          simp [sinceBlocked, hblocked] at hemptied
      · cases hstep
    | unblock =>
      simp only [ringStep] at hstep
      split at hstep
      · cases hstep
        exact nofun
      · cases hstep
    | space | kick | resume | store | put =>
      simp only [ringStep] at hstep
      split at hstep
      · cases hstep
        exact hinv
      · cases hstep
    | look =>
      simp only [ringStep] at hstep
      split at hstep
      · rename_i hpc
        split at hstep <;> cases hstep
        · exact hinv
        · exact hreads (by rw [hpc]; exact id)
      · cases hstep
    | readLen | readId | load =>
      simp only [ringStep] at hstep
      split at hstep
      · rename_i hpc
        cases hstep
        exact hreads (by rw [hpc]; exact id)
      · cases hstep
    | check connected =>
      simp only [ringStep] at hstep
      split at hstep
      · rename_i id size hpc
        rw [hpc, skippedSize] at hskipped
        split at hskipped
        · cases hskipped
        · rename_i hvalid
          rw [if_neg hvalid] at hstep
          split at hstep <;> cases hstep <;> exact hreads (by rw [hpc]; exact fun h => h)
      · cases hstep
    | control =>
      simp only [ringStep] at hstep
      split at hstep
      · rename_i hpc
        rw [hpc] at hskipped
        cases hskipped
      · cases hstep
    | alloc success =>
      simp only [ringStep] at hstep
      split at hstep
      · rename_i hpc
        rw [hpc] at hskipped
        cases success with
        | true =>
          cases hstep
          exact hreads (by rw [hpc]; exact id)
        | false => cases hskipped
      · cases hstep
    | get | push =>
      simp only [ringStep] at hstep
      split at hstep
      · cases hstep
        exact fun _ _ => Or.inl trivial
      · cases hstep
    | tick =>
      simp only [ringStep] at hstep
      split at hstep
      · split at hstep <;> cases hstep
        · exact fun _ _ => Or.inr rfl
        · rename_i hfree
          exact fun hblocked => absurd hblocked hfree
      · cases hstep

/-- The writer sleeps, and nobody has told it that the ring is empty. -/
theorem not_writerTicked_of_skip (hbad : ¬SkipsNotLast blkNr (st, notes) act)
    (hstep : ringStep blkNr st act = some (next, event)) :
    ¬WriterTicked (next, sinceBlocked notes st act next event) := by
  simp only [SkipsNotLast, not_forall, not_or, not_not] at hbad
  obtain ⟨size, hskipped, hblocked, hticked, hempty⟩ := hbad
  obtain ⟨rfl, hnotes⟩ := ringStep_skipped hskipped hstep
  rw [hnotes]
  intro hkept
  refine hticked (hkept hblocked rfl hempty ?_)
  dsimp only
  rw [Bool.or_eq_true, decide_eq_true_eq]
  exact Or.inr hempty

end Ring

/-! ## Runs -/

section Runs

variable {Tid : Type*} [DecidableEq Tid] {cfg : HeapConfig}

/-- No post is forgotten in any state of a run exactly when every post goes into the list of a
channel that is suspended or about to be woken; and an in thread that empties the ring of a
blocked writer has ticked it, in every state of a run, exactly when no package that it does
not deliver is the last one. -/
theorem wakeups_kept_iff {status : ℕ → ChnStatus} {low high : ℕ → ℕ}
    {outQue : PqState (Option Tid) VbusPkg} {trace : List (VbusAction Tid × VbusEvent)}
    {last : VbusState Tid} {blkNr : ℕ} {ringTrace : List (RingAction × RingEvent)}
    {ringLast : RingState}
    (hrun : (vbusMachine cfg).Run (vbusInit status low high outQue) trace last)
    (hring : (ringMachine blkNr).Run ringInit ringTrace ringLast) :
    (((vbusMachine cfg).RunWith (fun st _ => NoPostForgotten st)
        (vbusInit status low high outQue) trace last ∧ NoPostForgotten last) ↔
      (vbusMachine cfg).RunWith ParksSuspended (vbusInit status low high outQue) trace last) ∧
    (∃ notes, (tickMachine blkNr).Run (ringInit, ⟨false, false⟩) ringTrace (ringLast, notes)) ∧
    ∀ notes, (tickMachine blkNr).Run (ringInit, ⟨false, false⟩) ringTrace (ringLast, notes) →
      (((tickMachine blkNr).RunWith (fun st _ => WriterTicked st) (ringInit, ⟨false, false⟩)
          ringTrace (ringLast, notes) ∧ WriterTicked (ringLast, notes)) ↔
        (tickMachine blkNr).RunWith (SkipsNotLast blkNr) (ringInit, ⟨false, false⟩) ringTrace
          (ringLast, notes)) := by
  refine ⟨?_, hring.recorded sinceBlocked ⟨false, false⟩, ?_⟩
  · refine hrun.always_iff PostsInv NoPostForgotten (fun _ hinv => hinv.kept)
      (fun _ _ _ _ hinv hgood hstep => hinv.step hgood hstep)
      (fun _ _ _ _ _ hbad hstep => forgotten_of_not_parksSuspended hbad hstep) ⟨?_, ?_⟩
    · exact fun _ _ hparked => by cases hparked
    · exact fun _ _ hparked => by cases hparked
  · intro notes hrecorded
    refine hrecorded.always_iff TickInv WriterTicked ?_ ?_ ?_ nofun
    · rintro ⟨st, notes⟩ hinv hblocked hidle - hemptied
      refine (hinv hblocked hemptied).resolve_left ?_
      rw [show st.reader = .idle from hidle]
      exact id
    · rintro ⟨st, notes⟩ action ⟨next, after⟩ event hinv hgood hstep
      obtain ⟨hstep, hnotes⟩ := Machine.recorded_step.1 hstep
      rw [show after = _ from hnotes]
      exact hinv.step hgood hstep
    · rintro ⟨st, notes⟩ action ⟨next, after⟩ event - hbad hstep
      obtain ⟨hstep, hnotes⟩ := Machine.recorded_step.1 hstep
      rw [show after = _ from hnotes]
      exact not_writerTicked_of_skip hbad hstep

instance [Fintype Tid] (st : VbusState Tid) :
    (act : VbusAction Tid) → Decidable (ParksSuspended st act)
  | .park tid => inferInstanceAs (Decidable (∀ call ∈ (st.pc tid).parkingCall, _))
  | .setStatus chnr status => inferInstanceAs (Decidable (status = .suspend ∨ _ ∨
      ∀ tid, ∀ call ∈ (st.pc tid).parkedCall, call.id ≠ chnr))
  | .post _ _ | .test _ | .unpark _ | .check _ | .inc _ | .incResume _ | .expire _ | .push _
  | .poolResume _ | .poolRetry _ | .fill _ | .link _ | .poolTimeout _ | .tick | .pop | .repop
  | .copy | .free | .dec | .lower | .suspend _ | .resume _ | .disable _ | .wake =>
    inferInstanceAs (Decidable True)

instance (blkNr : ℕ) (st : RingState × SinceBlocked) (act : RingAction) :
    Decidable (SkipsNotLast blkNr st act) :=
  inferInstanceAs (Decidable (∀ size ∈ skippedSize st.1.reader act, _ → _))

/-- An empty out queue, and channels that are all suspended. -/
def suspendedBus : VbusState Bool :=
  vbusInit (fun _ => .suspend) (fun _ => 0) (fun _ => 1)
    ⟨⟨0, fun _ => none, fun _ => none, [], fun _ => none, fun _ => ⟨0, 0, false, 0, 0⟩⟩,
      (MemPool.rtMpInit MemPool.poolConfig (fun _ => Kernel.Thread.started 10) 0 64 (fun _ => 0)
        100 16 12).get rfl, fun _ => .out⟩

/-- One byte for channel 1. -/
def oneByte : PostCall :=
  { id := 1, prio := 5, data := 64, size := 1, timeout := -1 }

/-- A post waits until its channel is resumed. -/
def scheduleResumed (poster : Tid) : List (VbusAction Tid) :=
  [.post poster oneByte, .test poster, .park poster, .resume 1, .wake, .unpark poster, .test poster,
    .check poster]

/-- The channel is resumed before the post is in the list. -/
def scheduleResumedEarly (poster : Tid) : List (VbusAction Tid) :=
  [.post poster oneByte, .test poster, .resume 1, .wake, .park poster]

/-- The out thread puts a package of one block. -/
def schedulePut (pkg : OutPkg) : List RingAction :=
  List.flatten [[.take pkg true, .space, .test], List.replicate (pkg.len + 3) .store, [.put]]

/-- Four packages fill a ring of five blocks; the out thread waits with the next one, while
the in thread takes the four as `reads` says. -/
def scheduleFull (pkg : OutPkg) (reads : List RingAction) : List RingAction :=
  List.flatten [List.flatten (List.replicate 4 (schedulePut pkg)),
    [.take pkg true, .space, .test, .kick], List.flatten (List.replicate 4 reads)]

def scheduleDelivered : List RingAction :=
  scheduleFull ⟨1, 0, true, [10]⟩
    [.look, .readLen, .readId, .check true, .alloc true, .load, .get, .push, .tick]

/-- Four commands on channel 0. -/
def scheduleCommands : List RingAction :=
  scheduleFull ⟨0, 0, true, [10]⟩ [.look, .readLen, .readId, .check true, .control]

theorem isSome_scheduleResumed : ((vbusMachine MemPool.poolConfig).exec ParksSuspended suspendedBus
    (scheduleResumed false)).isSome = true := by
  decide

theorem isSome_scheduleDelivered : ((tickMachine 5).exec (SkipsNotLast 5)
    (ringInit, ⟨false, false⟩) scheduleDelivered).isSome = true := by
  decide

theorem wakeups_kept_scheduleResumed : (∃ trace, ∃ last : VbusState Bool,
    (vbusMachine MemPool.poolConfig).RunWith (fun st _ => NoPostForgotten st) suspendedBus
      trace last ∧ last.pc false = .raising oneByte) ∧
    ∃ trace last, (tickMachine 5).RunWith (fun st _ => WriterTicked st)
      (ringInit, ⟨false, false⟩) trace last ∧ trace.map Prod.fst = scheduleDelivered ∧
        last.2 = ⟨true, true⟩ := by
  have hrun := Machine.runWith_of_isSome _ isSome_scheduleResumed
  have hring := Machine.runWith_of_isSome _ isSome_scheduleDelivered
  obtain ⟨hposts, -, hticks⟩ := wakeups_kept_iff hrun.run hring.of_recorded
  exact ⟨⟨_, _, (hposts.2 hrun).1, by decide⟩,
    ⟨_, _, ((hticks _ hring.run).2 hring).1, by decide, by decide⟩⟩

theorem isSome_scheduleResumedEarly : ((vbusMachine MemPool.poolConfig).exec (fun _ _ => True)
    suspendedBus (scheduleResumedEarly false)).isSome = true := by
  decide

theorem isSome_scheduleCommands : ((tickMachine 5).exec (fun _ _ => True)
    (ringInit, ⟨false, false⟩) scheduleCommands).isSome = true := by
  decide

/-- A post waits for ever for a resumption that has been handled, and a writer is not told that
the ring is empty. -/
theorem wakeups_lost : (∃ trace, ∃ last : VbusState Bool,
    (vbusMachine MemPool.poolConfig).Run suspendedBus trace last ∧
      last.pc false = .parked oneByte ∧ last.status 1 = .established ∧ last.inPc = .idle ∧
        ¬NoPostForgotten last) ∧
    ∃ trace last, (tickMachine 5).Run (ringInit, ⟨false, false⟩) trace last ∧
      trace.map Prod.fst = scheduleCommands ∧ last.1.ring.blocked = true ∧
        last.1.ring.getIdx = last.1.ring.putIdx ∧ ¬WriterTicked last := by
  constructor
  · refine ⟨_, _, Machine.runWith_of_isSome _ isSome_scheduleResumedEarly, by decide,
      by decide, by decide, fun hkept => ?_⟩
    exact absurd (hkept false oneByte (by decide)) (by decide)
  · refine ⟨_, _, Machine.runWith_of_isSome _ isSome_scheduleCommands,
      Machine.actions_of_isSome _ isSome_scheduleCommands, by decide, by decide, fun hkept => ?_⟩
    exact absurd (hkept (by decide) (by decide) (by decide)
      (by decide)) (by decide)

end Runs

end RtThread.Vbus
