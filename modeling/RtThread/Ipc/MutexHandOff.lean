import RtThread.Ipc.Mutex

set_option linter.all false

/-!
# Handing a mutex over while signals arrive

`rt_mutex_release` makes the first waiter the owner before that waiter runs.
The waiter learns of it by finding its error code clean when it comes back from
`rt_schedule`.  A wait that a signal has interrupted starts again at `__again`
with `-RT_EINTR` still in the error code and with interrupts enabled, so a later
hand-over to it goes unnoticed.  The invariant below is about the threads whose
error code is clean, and holds for every interleaving of the unprotected path.
-/

namespace RtThread.Mutex

open RtThread.Core
open RtThread.Kernel

variable {Tid Mid : Type*}

/-- The places after `__again` at which the thread has not made itself the owner. -/
def Place.Retrying : Place → Prop
  | .again | .valueRead | .valueWrite _ | .setOwner | .boost | .suspend | .insert
  | .startTimer => True
  | .schedule | .setPriority | .holdRead | .holdWrite _ | .fault => False

/-- The thread has been resumed inside `rt_schedule` with a clean error code: its
`rt_mutex_take` is about to return `RT_EOK`. -/
def Granted (st : State Tid Mid) (tid : Tid) : Prop :=
  (∃ mid time, st.pc tid = .inTake mid time .schedule) ∧
    (st.threads tid).stat ≠ .suspend ∧ (st.threads tid).error = .eok ∧
    (st.threads tid).signal = false

/-- What is known about one thread. -/
structure ThreadOk (st : State Tid Mid) (tid : Tid) : Prop where
  listed : ∀ mid, tid ∈ (st.mutexes mid).suspendThread →
    (st.threads tid).stat = .suspend ∧ ∃ time,
      st.pc tid = .inTake mid time .schedule ∨ st.pc tid = .inTake mid time .startTimer
  retrying : ∀ mid time place, st.pc tid = .inTake mid time place → place.Retrying →
    (st.threads tid).error ≠ .eok
  asleep : (st.threads tid).stat = .suspend → (st.threads tid).signal = false
  granted : Granted st tid → (st.threads tid).timerActivated = false
  owned : ∀ mid time place, (st.mutexes mid).owner = some tid →
    st.pc tid = .inTake mid time place → place = .schedule ∨ place.Retrying →
      Granted st tid

/-- What every step preserves, signals included. -/
structure HandOffInv (st : State Tid Mid) : Prop where
  nodup : ∀ mid, (st.mutexes mid).suspendThread.Nodup
  threadOk : ∀ tid, ThreadOk st tid

theorem handOffInv_initial (priority : Tid → ℕ) (flag : Mid → IpcFlag) :
    HandOffInv (initial priority flag) where
  nodup := fun _ => List.nodup_nil
  threadOk := fun tid =>
    { listed := by simp [initial, rtMutexInit]
      retrying := by simp [initial]
      asleep := by simp [initial, Thread.started]
      granted := by simp [initial, Thread.started]
      owned := by simp [initial, rtMutexInit] }

/-- The fields the invariant looks at. -/
def SameWait (thread thread' : Thread) : Prop :=
  thread'.stat = thread.stat ∧ thread'.error = thread.error ∧
    thread'.signal = thread.signal ∧ thread'.timerActivated = thread.timerActivated

/-- A change that concerns no thread but `tid`: it makes no other one a waiter or
an owner. -/
structure Frame (st next : State Tid Mid) (tid : Tid) : Prop where
  thread : ∀ other, other ≠ tid → SameWait (st.threads other) (next.threads other)
  pc : ∀ other, other ≠ tid → next.pc other = st.pc other
  list : ∀ other mid, other ≠ tid → other ∈ (next.mutexes mid).suspendThread →
    other ∈ (st.mutexes mid).suspendThread
  owner : ∀ other mid, other ≠ tid → (next.mutexes mid).owner = some other →
    (st.mutexes mid).owner = some other

theorem Frame.trans {st middle next : State Tid Mid} {tid : Tid}
    (hleft : Frame st middle tid) (hright : Frame middle next tid) : Frame st next tid := by
  refine ⟨fun other hne => ?_, fun other hne => ?_, fun other mid hne hmem => ?_,
    fun other mid hne howner => ?_⟩
  · obtain ⟨hstat, herror, hsignal, htimer⟩ := hleft.thread other hne
    obtain ⟨hstat', herror', hsignal', htimer'⟩ := hright.thread other hne
    exact ⟨hstat'.trans hstat, herror'.trans herror, hsignal'.trans hsignal,
      htimer'.trans htimer⟩
  · exact (hright.pc other hne).trans (hleft.pc other hne)
  · exact hleft.list other mid hne (hright.list other mid hne hmem)
  · exact hleft.owner other mid hne (hright.owner other mid hne howner)

theorem ThreadOk.frame {st next : State Tid Mid} {tid other : Tid}
    (hok : ThreadOk st other) (hframe : Frame st next tid) (hne : other ≠ tid) :
    ThreadOk next other := by
  obtain ⟨hstat, herror, hsignal, htimer⟩ := hframe.thread other hne
  have hpc := hframe.pc other hne
  have hgranted : Granted next other ↔ Granted st other := by
    simp [Granted, hpc, hstat, herror, hsignal]
  refine ⟨fun mid hmem => ?_, fun mid time place hplace => ?_, ?_, ?_,
    fun mid time place howned hplace => ?_⟩
  · rw [hstat, hpc]
    exact hok.listed mid (hframe.list other mid hne hmem)
  · rw [herror]
    exact hok.retrying mid time place (hpc ▸ hplace)
  · rw [hstat, hsignal]
    exact hok.asleep
  · rw [hgranted, htimer]
    exact hok.granted
  · rw [hgranted]
    exact hok.owned mid time place (hframe.owner other mid hne howned) (hpc ▸ hplace)

section Frames

variable [DecidableEq Tid] {st : State Tid Mid} {tid : Tid}

theorem frame_setThread (operation : Thread → Thread) :
    Frame st (setThread st tid operation) tid := by
  refine ⟨fun other hne => ?_, fun _ _ => rfl, fun _ _ _ => id, fun _ _ _ => id⟩
  simp [SameWait, hne]

theorem frame_setPc (pc : Pc Mid) : Frame st (setPc st tid pc) tid := by
  refine ⟨fun _ _ => ⟨rfl, rfl, rfl, rfl⟩, fun other hne => ?_, fun _ _ _ => id,
    fun _ _ _ => id⟩
  simp [hne]

theorem frame_wake (operation : Thread → Thread) :
    Frame st (wake st tid operation) tid := by
  refine ⟨fun other hne => ?_, fun _ _ => rfl, fun _ _ _ => List.mem_of_mem_erase,
    fun _ _ _ => id⟩
  simp [SameWait, hne]

theorem frame_boostOwner (owner : Tid) : Frame st (boostOwner st tid owner) tid := by
  rw [boostOwner_eq]
  refine ⟨fun other _ => ?_, fun _ _ => rfl, fun _ _ _ => id, fun _ _ _ => id⟩
  by_cases howner : other = owner
  · subst howner
    simp [SameWait, changePriority]
  · simp [SameWait, howner]

variable [DecidableEq Mid]

omit [DecidableEq Tid] in
theorem frame_setMutex {mid : Mid} {update : RtMutex Tid → RtMutex Tid}
    (hlist : ∀ other, other ≠ tid → other ∈ (update (st.mutexes mid)).suspendThread →
      other ∈ (st.mutexes mid).suspendThread)
    (howner : ∀ other, other ≠ tid → (update (st.mutexes mid)).owner = some other →
      (st.mutexes mid).owner = some other) :
    Frame st (setMutex st mid update) tid := by
  refine ⟨fun _ _ => ⟨rfl, rfl, rfl, rfl⟩, fun _ _ => rfl, fun other mid' hne hmem => ?_,
    fun other mid' hne howned => ?_⟩
  · by_cases hmid : mid' = mid
    · subst hmid
      exact hlist other hne (by simpa using hmem)
    · simpa [hmid] using hmem
  · by_cases hmid : mid' = mid
    · subst hmid
      exact howner other hne (by simpa using howned)
    · simpa [hmid] using howned

omit [DecidableEq Tid] in
theorem frame_setOwner {mid : Mid} {update : RtMutex Tid → RtMutex Tid}
    (hlist : (update (st.mutexes mid)).suspendThread = (st.mutexes mid).suspendThread)
    (howner : (update (st.mutexes mid)).owner = (st.mutexes mid).owner ∨
      (update (st.mutexes mid)).owner = some tid) :
    Frame st (setMutex st mid update) tid := by
  apply frame_setMutex (fun other _ hmem => hlist ▸ hmem)
  intro other hne howned
  rcases howner with hsame | hown
  · exact hsame ▸ howned
  · exact absurd (Option.some.inj (hown.symm.trans howned)).symm hne

omit [DecidableEq Tid] in
theorem frame_insertWaiter (mid : Mid) : Frame st (insertWaiter st tid mid) tid := by
  refine frame_setMutex (fun other hne hmem => ?_) fun _ _ => id
  simpa [hne] using hmem

end Frames

variable {st : State Tid Mid} {tid : Tid}

/-- A thread that is neither waiting nor about to become an owner. -/
theorem threadOk_elsewhere (hlist : ∀ mid, tid ∉ (st.mutexes mid).suspendThread)
    (hasleep : (st.threads tid).stat = .suspend → (st.threads tid).signal = false)
    (hpc : ∀ mid time place, st.pc tid = .inTake mid time place →
      place ≠ .schedule ∧ ¬ place.Retrying) :
    ThreadOk st tid := by
  refine ⟨fun mid hmem => absurd hmem (hlist mid), ?_, hasleep, ?_, ?_⟩
  · intro mid time place hplace hretrying
    exact absurd hretrying (hpc mid time place hplace).2
  · rintro ⟨⟨mid, time, hplace⟩, -⟩
    exact absurd rfl (hpc mid time _ hplace).1
  · intro mid time place _ hplace hwhere
    rcases hwhere with hschedule | hretrying
    · exact absurd hschedule (hpc mid time place hplace).1
    · exact absurd hretrying (hpc mid time place hplace).2

variable {place : Place}

/-- A thread on the unprotected path, in no list and not the owner. -/
theorem threadOk_retrying {mid : Mid} {time : ℤ} (hpc : st.pc tid = .inTake mid time place)
    (hlist : ∀ mid', tid ∉ (st.mutexes mid').suspendThread) (herror : (st.threads tid).error ≠ .eok)
    (hasleep : (st.threads tid).stat = .suspend → (st.threads tid).signal = false)
    (howner : (st.mutexes mid).owner ≠ some tid) : ThreadOk st tid := by
  refine ⟨fun mid' hmem => absurd hmem (hlist mid'), fun _ _ _ _ _ => herror, hasleep, ?_, ?_⟩
  · rintro ⟨-, -, hclean, -⟩
    exact absurd hclean herror
  · intro mid' time' place' howned hplace _
    rw [hpc] at hplace
    injection hplace with hmid
    exact absurd (hmid ▸ howned) howner

theorem handOffInv_of_frame {next : State Tid Mid} (hinv : HandOffInv st)
    (hframe : Frame st next tid) (hnodup : ∀ mid, (next.mutexes mid).suspendThread.Nodup)
    (hself : ThreadOk next tid) : HandOffInv next := by
  refine ⟨hnodup, fun other => ?_⟩
  by_cases hne : other = tid
  · exact hne ▸ hself
  · exact (hinv.threadOk other).frame hframe hne

/-- A thread waits only in `rt_schedule` or just before it. -/
theorem ThreadOk.not_mem (hok : ThreadOk st tid)
    (hpc : ∀ mid time place, st.pc tid = .inTake mid time place →
      place ≠ .schedule ∧ place ≠ .startTimer)
    (mid : Mid) : tid ∉ (st.mutexes mid).suspendThread := by
  intro hmem
  obtain ⟨-, time, hschedule | htimer⟩ := hok.listed mid hmem
  · exact (hpc mid time _ hschedule).1 rfl
  · exact (hpc mid time _ htimer).2 rfl

theorem ThreadOk.not_mem_of_place {mid : Mid} {time : ℤ} (hok : ThreadOk st tid)
    (hpc : st.pc tid = .inTake mid time place) (hschedule : place ≠ .schedule)
    (htimer : place ≠ .startTimer) (mid' : Mid) : tid ∉ (st.mutexes mid').suspendThread := by
  refine hok.not_mem (fun mid'' time' place' hpc' => ?_) mid'
  rw [hpc] at hpc'
  injection hpc' with _ _ hplace
  subst hplace
  exact ⟨hschedule, htimer⟩

theorem ThreadOk.not_owner {mid : Mid} {time : ℤ} (hok : ThreadOk st tid)
    (hpc : st.pc tid = .inTake mid time place) (hretrying : place.Retrying) :
    (st.mutexes mid).owner ≠ some tid := by
  intro howner
  obtain ⟨-, -, hclean, -⟩ := hok.owned mid time place howner hpc (.inr hretrying)
  exact hok.retrying mid time place hpc hretrying hclean

variable [DecidableEq Tid] [DecidableEq Mid]

variable {st : State Tid Mid} {mid : Mid} {update : RtMutex Tid → RtMutex Tid}

omit [DecidableEq Tid] in
theorem suspendThread_setMutex
    (hlist : (update (st.mutexes mid)).suspendThread = (st.mutexes mid).suspendThread)
    (mid' : Mid) :
    ((setMutex st mid update).mutexes mid').suspendThread =
      (st.mutexes mid').suspendThread := by
  by_cases hmid : mid' = mid
  · subst hmid
    simpa using hlist
  · simp [hmid]

variable {tid : Tid} {time : ℤ} {place : Place}

omit [DecidableEq Mid] in
/-- A move on the unprotected path that touches neither the thread nor the
mutexes. -/
theorem handOffInv_move {place' : Place} (hinv : HandOffInv st)
    (hpc : st.pc tid = .inTake mid time place) (hretrying : place.Retrying)
    (hschedule : place ≠ .schedule) (htimer : place ≠ .startTimer) :
    HandOffInv (setPc st tid (.inTake mid time place')) := by
  have hok := hinv.threadOk tid
  exact handOffInv_of_frame hinv (frame_setPc _) hinv.nodup
    (threadOk_retrying (setPc_self _ _) (hok.not_mem_of_place hpc hschedule htimer)
      (hok.retrying mid time place hpc hretrying) hok.asleep (hok.not_owner hpc hretrying))

/-- A write to a field of the mutex that is neither its list nor, for a thread
that retries, its owner. -/
theorem handOffInv_write {pc : Pc Mid} (hinv : HandOffInv st)
    (hlist : (update (st.mutexes mid)).suspendThread = (st.mutexes mid).suspendThread)
    (howner : (update (st.mutexes mid)).owner = (st.mutexes mid).owner ∨
      (update (st.mutexes mid)).owner = some tid)
    (hself : ThreadOk (setPc (setMutex st mid update) tid pc) tid) :
    HandOffInv (setPc (setMutex st mid update) tid pc) := by
  refine handOffInv_of_frame hinv ((frame_setOwner hlist howner).trans (frame_setPc pc))
    (fun mid' => ?_) hself
  rw [setPc_mutexes, suspendThread_setMutex hlist]
  exact hinv.nodup mid'

/-- The thread is past the point where it makes itself the owner. -/
theorem handOffInv_own {pc : Pc Mid} (hinv : HandOffInv st)
    (hpc : st.pc tid = .inTake mid time place) (hschedule : place ≠ .schedule)
    (htimer : place ≠ .startTimer)
    (hlist : (update (st.mutexes mid)).suspendThread = (st.mutexes mid).suspendThread)
    (howner : (update (st.mutexes mid)).owner = (st.mutexes mid).owner ∨
      (update (st.mutexes mid)).owner = some tid)
    (hnext : ∀ mid' time' place', pc = .inTake mid' time' place' →
      place' ≠ .schedule ∧ ¬ place'.Retrying) :
    HandOffInv (setPc (setMutex st mid update) tid pc) := by
  have hok := hinv.threadOk tid
  refine handOffInv_write hinv hlist howner
    (threadOk_elsewhere (fun mid' => ?_) hok.asleep ?_)
  · rw [setPc_mutexes, suspendThread_setMutex hlist]
    exact hok.not_mem_of_place hpc hschedule htimer mid'
  · rw [setPc_self]
    exact hnext

variable {next : State Tid Mid}

omit [DecidableEq Tid] [DecidableEq Mid] in
/-- The thread leaves `rt_mutex_take` or gets stuck, in no list. -/
theorem handOffInv_leave (tid : Tid) (hinv : HandOffInv st) (hframe : Frame st next tid)
    (hlist : ∀ mid, (next.mutexes mid).suspendThread = (st.mutexes mid).suspendThread)
    (hnotMem : ∀ mid, tid ∉ (st.mutexes mid).suspendThread)
    (hasleep : (next.threads tid).stat = .suspend → (next.threads tid).signal = false)
    (hpc : ∀ mid time place, next.pc tid = .inTake mid time place →
      place ≠ .schedule ∧ ¬ place.Retrying) :
    HandOffInv next := by
  refine handOffInv_of_frame hinv hframe (fun mid => ?_)
    (threadOk_elsewhere (fun mid => ?_) hasleep hpc)
  · rw [hlist]
    exact hinv.nodup mid
  · rw [hlist]
    exact hnotMem mid

variable {event : Event Tid Mid}

theorem handOffInv_schedule (hinv : HandOffInv st) (hpc : st.pc tid = .inTake mid time .schedule)
    (hstep : runTake st tid mid time .schedule = some (next, event)) : HandOffInv next := by
  have hok := hinv.threadOk tid
  simp only [runTake] at hstep
  split at hstep
  · contradiction
  · next hstat =>
      have hnotMem : ∀ mid', tid ∉ (st.mutexes mid').suspendThread := fun mid' hmem =>
        hstat (hok.listed mid' hmem).1
      have hout : HandOffInv (setPc st tid .out) :=
        handOffInv_leave tid hinv (frame_setPc _) (fun _ => rfl) hnotMem hok.asleep (by simp)
      split at hstep
      · cases hstep
        exact hout
      · next herror =>
          split at hstep
          · cases hstep
            refine handOffInv_of_frame hinv (frame_setPc _) hinv.nodup
              (threadOk_retrying (setPc_self _ _) hnotMem herror hok.asleep fun howner => ?_)
            exact herror (hok.owned mid time _ howner hpc (.inl rfl)).2.2.1
          · cases hstep
            exact hout

theorem handOffInv_insert (hinv : HandOffInv st) (hpc : st.pc tid = .inTake mid time .insert)
    (hstat : (st.threads tid).stat = .suspend) :
    HandOffInv (setPc (insertWaiter st tid mid) tid (.inTake mid time .startTimer)) := by
  have hok := hinv.threadOk tid
  have hnotMem := hok.not_mem_of_place hpc (by simp) (by simp)
  have herror := hok.retrying mid time _ hpc trivial
  refine handOffInv_of_frame hinv ((frame_insertWaiter mid).trans (frame_setPc _)) (fun mid' => ?_)
    ⟨fun mid' hmem => ?_, fun _ _ _ _ _ => herror, hok.asleep, ?_, ?_⟩
  · by_cases hmid : mid' = mid
    · subst hmid
      simpa [insertWaiter, nodup_rtIpcListInsert] using ⟨hnotMem mid', hinv.nodup mid'⟩
    · simpa [insertWaiter, hmid] using hinv.nodup mid'
  · by_cases hmid : mid' = mid
    · subst hmid
      exact ⟨hstat, time, .inr (setPc_self _ _)⟩
    · exact absurd (by simpa [insertWaiter, hmid] using hmem) (hnotMem mid')
  · rintro ⟨-, -, hclean, -⟩
    exact absurd hclean herror
  · intro mid' time' place' howner hplace _
    rw [setPc_self] at hplace
    injection hplace with hmid
    subst hmid
    exact absurd (by simpa [insertWaiter] using howner) (hok.not_owner hpc trivial)

omit [DecidableEq Mid] in
theorem handOffInv_startTimer (hinv : HandOffInv st)
    (hpc : st.pc tid = .inTake mid time .startTimer) :
    HandOffInv (setPc (setThread st tid (startThreadTimer time)) tid
      (.inTake mid time .schedule)) := by
  have hok := hinv.threadOk tid
  have herror := hok.retrying mid time _ hpc trivial
  refine handOffInv_of_frame hinv ((frame_setThread _).trans (frame_setPc _)) hinv.nodup
    ⟨fun mid' hmem => ?_, fun mid' time' place' hplace hretrying => ?_, ?_, ?_, ?_⟩
  · obtain ⟨hstat, time', hplace⟩ := hok.listed mid' hmem
    simp only [hpc, Pc.inTake.injEq, reduceCtorEq, and_false, false_or, and_true] at hplace
    exact ⟨by simpa using hstat, time, .inl (by simp [hplace.1])⟩
  · simpa using herror
  · simpa using hok.asleep
  · rintro ⟨-, -, hclean, -⟩
    exact absurd (by simpa using hclean) herror
  · intro mid' time' place' howner hplace _
    rw [setPc_self] at hplace
    injection hplace with hmid
    subst hmid
    exact absurd howner (hok.not_owner hpc trivial)

theorem handOffInv_runTake (hinv : HandOffInv st) (hsignal : (st.threads tid).signal = false)
    (hpc : st.pc tid = .inTake mid time place)
    (hstep : runTake st tid mid time place = some (next, event)) : HandOffInv next := by
  have hok := hinv.threadOk tid
  cases place with
  | schedule => exact handOffInv_schedule hinv hpc hstep
  | again =>
    simp only [runTake] at hstep
    split at hstep
    · cases hstep
      exact handOffInv_move hinv hpc trivial (by simp) (by simp)
    · split at hstep
      · cases hstep
        exact handOffInv_leave tid hinv ((frame_setThread _).trans (frame_setPc _)) (fun _ => rfl)
          (hok.not_mem_of_place hpc (by simp) (by simp)) (by simp [setError, hsignal]) (by simp)
      · cases hstep
        exact handOffInv_move hinv hpc trivial (by simp) (by simp)
  | valueRead =>
    cases hstep
    exact handOffInv_move hinv hpc trivial (by simp) (by simp)
  | valueWrite value =>
    cases hstep
    refine handOffInv_write hinv rfl (.inl rfl) (threadOk_retrying (setPc_self _ _) ?_
      (hok.retrying mid time _ hpc trivial) hok.asleep ?_)
    · intro mid'
      rw [setPc_mutexes, suspendThread_setMutex rfl]
      exact hok.not_mem_of_place hpc (by simp) (by simp) mid'
    · simpa using hok.not_owner hpc trivial
  | setOwner =>
    cases hstep
    exact handOffInv_own hinv hpc (by simp) (by simp) rfl (.inr rfl)
      (by simp [Place.Retrying])
  | setPriority =>
    cases hstep
    exact handOffInv_own hinv hpc (by simp) (by simp) rfl (.inl rfl)
      (by simp [Place.Retrying])
  | holdRead =>
    cases hstep
    exact handOffInv_leave tid hinv (frame_setPc _) (fun _ => rfl)
      (hok.not_mem_of_place hpc (by simp) (by simp)) hok.asleep (by simp [Place.Retrying])
  | holdWrite hold =>
    cases hstep
    exact handOffInv_own hinv hpc (by simp) (by simp) rfl (.inl rfl) (by simp)
  | boost =>
    simp only [runTake] at hstep
    split at hstep
    · cases hstep
      exact handOffInv_move hinv hpc trivial (by simp) (by simp)
    · next owner howner =>
        cases hstep
        have hnotOwner := hok.not_owner hpc trivial
        have hne : tid ≠ owner := by
          rintro rfl
          exact hnotOwner howner
        apply handOffInv_of_frame hinv ((frame_boostOwner owner).trans (frame_setPc _))
        · simpa [boostOwner_eq] using hinv.nodup
        · rw [boostOwner_eq]
          exact threadOk_retrying (setPc_self _ _) (hok.not_mem_of_place hpc (by simp) (by simp))
            (by simpa [hne] using hok.retrying mid time _ hpc trivial)
            (by simpa [hne] using hok.asleep) hnotOwner
  | suspend =>
    cases hstep
    exact handOffInv_of_frame hinv ((frame_setThread _).trans (frame_setPc _)) hinv.nodup
      (threadOk_retrying (setPc_self _ _) (hok.not_mem_of_place hpc (by simp) (by simp))
        (by simpa using hok.retrying mid time _ hpc trivial) (by simp [hsignal])
        (hok.not_owner hpc trivial))
  | insert =>
    simp only [runTake] at hstep
    split at hstep
    · next hstat =>
        cases hstep
        exact handOffInv_insert hinv hpc hstat
    · cases hstep
      exact handOffInv_move hinv hpc trivial (by simp) (by simp)
  | startTimer =>
    cases hstep
    exact handOffInv_startTimer hinv hpc
  | fault => contradiction

theorem frame_suspendSelf (mid : Mid) (time : ℤ) (owner : Tid) :
    Frame st (suspendSelf st tid mid time owner) tid :=
  (frame_boostOwner owner).trans <| (frame_setThread _).trans <|
    (frame_insertWaiter mid).trans <| (frame_setThread _).trans (frame_setPc _)

theorem handOffInv_suspendSelf {owner : Tid} (hinv : HandOffInv st) (hcall : st.canCall tid)
    (howner : (st.mutexes mid).owner = some owner) (hne : tid ≠ owner) :
    HandOffInv (suspendSelf (setThread st tid (setError .eok)) tid mid time owner) := by
  obtain ⟨hpc, hrunnable, hsignal⟩ := hcall
  have hnotMem := (hinv.threadOk tid).not_mem (by simp [hpc])
  have hcleared : ((setThread st tid (setError .eok)).threads tid).runnable := by
    simpa [setError, Thread.runnable] using hrunnable
  obtain ⟨hstat, -, hsignal', hpc'⟩ := suspendSelf_self mid time hcleared hne
  refine handOffInv_of_frame hinv ((frame_setThread _).trans (frame_suspendSelf mid time owner))
    (fun mid' => ?_) ⟨fun mid' hmem => ?_, ?_, ?_, ?_, ?_⟩
  · obtain ⟨list, hsame, -, hnodup⟩ :=
      suspendSelf_mutexes (setThread st tid (setError .eok)) time owner mid'
    rw [hsame]
    exact hnodup (hnotMem mid') (hinv.nodup mid')
  · simp only [mem_suspendSelf, setThread_mutexes, hnotMem, or_false, true_and] at hmem
    subst hmem
    exact ⟨hstat, time, .inl hpc'⟩
  · intro mid' time' place hplace hretrying
    rw [hpc'] at hplace
    injection hplace with _ _ hplace
    subst hplace
    exact hretrying.elim
  · intro _
    rw [hsignal']
    simpa [setError] using hsignal
  · rintro ⟨-, hready, -⟩
    exact absurd hstat hready
  · intro mid' time' place howned hplace _
    rw [hpc'] at hplace
    injection hplace with hmid
    subst hmid
    rw [suspendSelf_owner, setThread_mutexes, howner] at howned
    exact absurd (Option.some.inj howned).symm hne

theorem handOffInv_rtMutexTake (hinv : HandOffInv st) (hcall : st.canCall tid)
    (hstep : rtMutexTake st tid mid time = (next, event)) : HandOffInv next := by
  obtain ⟨hpc, hrunnable, hsignal⟩ := hcall
  have hok := hinv.threadOk tid
  have hnotMem := hok.not_mem (by simp [hpc])
  have hframe : Frame st (setThread st tid (setError .eok)) tid := frame_setThread _
  dsimp only [rtMutexTake] at hstep
  split at hstep
  · cases hstep
    refine handOffInv_leave tid hinv (hframe.trans (frame_setMutex (fun _ _ => id) fun _ _ => id))
      (suspendThread_setMutex rfl) hnotMem ?_ ?_
    · simp [setError, hsignal]
    · simp [hpc]
  · next hnotOwner =>
      split at hstep
      · cases hstep
        refine handOffInv_leave tid hinv (hframe.trans (frame_setMutex (fun _ _ => id) ?_))
          (suspendThread_setMutex rfl) hnotMem ?_ ?_
        · intro other hne howner
          exact absurd (Option.some.inj howner).symm hne
        · simp [setError, hsignal]
        · simp [hpc]
      · split at hstep
        · cases hstep
          exact handOffInv_leave tid hinv (hframe.trans (frame_setThread _)) (fun _ => rfl) hnotMem
            (by simp [setError, hsignal]) (by simp [hpc])
        · split at hstep
          · cases hstep
            exact handOffInv_leave tid hinv (hframe.trans (frame_setPc _)) (fun _ => rfl) hnotMem
              (by simp [setError, hsignal]) (by simp [Place.Retrying])
          · next owner howner =>
              cases hstep
              apply handOffInv_suspendSelf hinv ⟨hpc, hrunnable, hsignal⟩ howner
              rintro rfl
              exact hnotOwner howner

/-- The steps at which a hand-over is honoured: the mutex goes to a waiter with a
clean error code, and no signal is sent to a thread that has been handed one and
has not come back from `rt_mutex_take`. -/
def Honours (st : State Tid Mid) : Action Tid Mid → Prop
  | .release tid mid =>
    (st.mutexes mid).owner = some tid → decHold (st.mutexes mid).hold = 0 →
      ∀ waiter rest, (st.mutexes mid).suspendThread = waiter :: rest →
        (st.threads waiter).error = .eok
  | .kill tid => ¬ Granted st tid
  | _ => True

variable {waiter : Tid}

omit [DecidableEq Tid] [DecidableEq Mid] in
/-- A waiter with a clean error code sleeps in `rt_schedule`. -/
theorem ThreadOk.clean_waiter (hok : ThreadOk st waiter)
    (hmem : waiter ∈ (st.mutexes mid).suspendThread) (hclean : (st.threads waiter).error = .eok) :
    (st.threads waiter).stat = .suspend ∧
      ∃ time, st.pc waiter = .inTake mid time .schedule := by
  obtain ⟨hstat, time, hschedule | htimer⟩ := hok.listed mid hmem
  · exact ⟨hstat, time, hschedule⟩
  · exact absurd hclean (hok.retrying mid time _ htimer trivial)

/-- The hand-over to a waiter with a clean error code wakes it. -/
theorem passOn_clean_waiter {rest : List Tid} (hinv : HandOffInv st)
    (hlist : (st.mutexes mid).suspendThread = waiter :: rest)
    (hclean : (st.threads waiter).error = .eok) : passOn st tid mid =
      (setMutex (wake st waiter rtThreadResume) mid fun mutex =>
        { mutex with
          owner := some waiter
          originalPriority := (st.threads waiter).currentPriority
          hold := incHold mutex.hold },
        .released tid mid (some waiter)) := by
  have hok := hinv.threadOk waiter
  have hmem : waiter ∈ (st.mutexes mid).suspendThread := by simp [hlist]
  obtain ⟨hstat, time, hpc⟩ := hok.clean_waiter hmem hclean
  apply passOn_waiter hlist hstat
  intro mid' hne hmem'
  obtain ⟨-, time', hpc'⟩ := hok.clean_waiter hmem' hclean
  rw [hpc] at hpc'
  injection hpc' with hmid
  exact hne hmid.symm

theorem passOn_granted {rest : List Tid} (hinv : HandOffInv st)
    (hlist : (st.mutexes mid).suspendThread = waiter :: rest)
    (hclean : (st.threads waiter).error = .eok) (hstep : passOn st tid mid = (next, event)) :
    HandOffInv next ∧ event = .released tid mid (some waiter) ∧ Granted next waiter ∧
      ∃ time, next.pc waiter = .inTake mid time .schedule := by
  have hok := hinv.threadOk waiter
  have hmem : waiter ∈ (st.mutexes mid).suspendThread := by simp [hlist]
  obtain ⟨hstat, time, hpc⟩ := hok.clean_waiter hmem hclean
  rw [passOn_clean_waiter hinv hlist hclean] at hstep
  cases hstep
  have hgranted : Granted (setMutex (wake st waiter rtThreadResume) mid fun mutex =>
      { mutex with
        owner := some waiter
        originalPriority := (st.threads waiter).currentPriority
        hold := incHold mutex.hold }) waiter := by
    refine ⟨⟨mid, time, hpc⟩, ?_⟩
    simp [stat_rtThreadResume hstat, hclean, hok.asleep hstat]
  refine ⟨handOffInv_of_frame hinv ((frame_wake _).trans (frame_setMutex (fun _ _ => id) ?_))
    (fun mid' => ?_) ⟨fun mid' hmem => ?_, ?_, ?_, ?_, fun _ _ _ _ _ _ => hgranted⟩,
    rfl, hgranted, time, hpc⟩
  · intro other hne howner
    exact absurd (Option.some.inj howner).symm hne
  · rw [suspendThread_setMutex rfl]
    exact (hinv.nodup mid').erase waiter
  · rw [suspendThread_setMutex rfl] at hmem
    exact absurd hmem (hinv.nodup mid').not_mem_erase
  · intro mid' time' place hplace hretrying
    rw [setMutex_pc, wake_pc, hpc] at hplace
    injection hplace with _ _ hplace
    subst hplace
    exact hretrying.elim
  · simp [stat_rtThreadResume hstat]
  · simp [timerActivated_rtThreadResume hstat]

/-- The call of the thread returns or suspends it. -/
def Event.isOutcome (tid : Tid) : Event Tid Mid → Bool
  | .returned tid' _ _ | .suspended tid' _ => tid' = tid
  | _ => false

/-- The state in which a release hands the mutex over. -/
def restored (st : State Tid Mid) (tid : Tid) (mid : Mid) : State Tid Mid :=
  setThread (setMutex st mid fun mutex => { mutex with hold := decHold mutex.hold }) tid
    (changePriority (st.mutexes mid).originalPriority)

theorem frame_restored (mid : Mid) : Frame st (restored st tid mid) tid :=
  (frame_setOwner rfl (.inl rfl)).trans (frame_setThread _)

theorem suspendThread_restored (st : State Tid Mid) (tid : Tid) (mid mid' : Mid) :
    ((restored st tid mid).mutexes mid').suspendThread =
      (st.mutexes mid').suspendThread := by
  rw [restored, setThread_mutexes, suspendThread_setMutex rfl]

/-- Everything a release can do when the hand-over is honoured. -/
theorem release_cases (hinv : HandOffInv st) (hcall : st.canCall tid)
    (hhonours : Honours st (.release tid mid)) (hstep : rtMutexRelease st tid mid = (next, event)) :
    ((HandOffInv next ∧ Frame st next tid) ∧
      (∀ other, event.isOutcome other = false) ∧
      ∀ waiter, event ≠ .released tid mid (some waiter)) ∨
    ∃ waiter rest, (st.mutexes mid).suspendThread = waiter :: rest ∧
      HandOffInv (restored st tid mid) ∧
      ((restored st tid mid).threads waiter).error = .eok ∧
      passOn (restored st tid mid) tid mid = (next, event) := by
  obtain ⟨hpc, -, hsignal⟩ := hcall
  have hnotMem := (hinv.threadOk tid).not_mem (by simp [hpc])
  have hleave : ∀ {next : State Tid Mid}, Frame st next tid →
      (∀ mid', (next.mutexes mid').suspendThread = (st.mutexes mid').suspendThread) →
      (next.threads tid).signal = false → next.pc tid = .out →
        HandOffInv next ∧ Frame st next tid := by
    intro next hframe hlist hsignal' hpc'
    exact ⟨handOffInv_leave tid hinv hframe hlist hnotMem (fun _ => hsignal') (by simp [hpc']),
      hframe⟩
  simp only [rtMutexRelease, setMutex_self, restorePriority_eq] at hstep
  split at hstep
  · next howner =>
      split at hstep
      · next hhold =>
          have hrestored : HandOffInv (restored st tid mid) :=
            (hleave (frame_restored mid) (suspendThread_restored st tid mid)
              (by simpa [restored, changePriority] using hsignal) hpc).1
          cases hlist : (st.mutexes mid).suspendThread with
          | cons waiter rest =>
            have hne : waiter ≠ tid := by
              rintro rfl
              exact hnotMem mid (by simp [hlist])
            refine .inr ⟨waiter, rest, rfl, hrestored, ?_, hstep⟩
            simpa [restored, hne] using hhonours howner hhold waiter rest hlist
          | nil =>
            simp only [passOn, setThread_mutexes, setMutex_self, hlist] at hstep
            cases hstep
            refine .inl ⟨hleave ((frame_restored mid).trans
              (frame_setMutex (fun _ _ => id) (by simp))) (fun mid' => ?_) ?_ hpc,
              fun _ => rfl, by simp⟩
            · rw [suspendThread_setMutex rfl]
              exact suspendThread_restored st tid mid mid'
            · simpa [changePriority] using hsignal
      · cases hstep
        exact .inl ⟨hleave (frame_setOwner rfl (.inl rfl)) (suspendThread_setMutex rfl) hsignal hpc,
          fun _ => rfl, by simp⟩
  · cases hstep
    exact .inl ⟨hleave (frame_setThread _) (fun _ => rfl) (by simpa [setError] using hsignal) hpc,
      fun _ => rfl, by simp⟩

theorem handOffInv_rtMutexRelease (hinv : HandOffInv st) (hcall : st.canCall tid)
    (hhonours : Honours st (.release tid mid)) (hstep : rtMutexRelease st tid mid = (next, event)) :
    HandOffInv next ∧ ∀ waiter, event = .released tid mid (some waiter) →
      Granted next waiter ∧ ∃ time, next.pc waiter = .inTake mid time .schedule := by
  rcases release_cases hinv hcall hhonours hstep with
    ⟨⟨hnext, -⟩, -, hnone⟩ | ⟨waiter, rest, hlist, hrestored, hclean, hpass⟩
  · exact ⟨hnext, fun waiter hevent => absurd hevent (hnone waiter)⟩
  · rw [← suspendThread_restored st tid mid] at hlist
    obtain ⟨hnext, rfl, hgranted⟩ := passOn_granted hrestored hlist hclean hpass
    refine ⟨hnext, fun waiter' hevent => ?_⟩
    injection hevent with _ _ hsame
    exact Option.some.inj hsame ▸ hgranted

omit [DecidableEq Tid] [DecidableEq Mid] in
/-- A timer or a signal reaches a thread that has not been handed a mutex: the
thread ends up in no list, with a dirty error code or a pending signal. -/
theorem handOffInv_disturb (hinv : HandOffInv st) (hframe : Frame st next tid)
    (hpc : next.pc tid = st.pc tid) (hnodup : ∀ mid, (next.mutexes mid).suspendThread.Nodup)
    (hnotMem : ∀ mid, tid ∉ (next.mutexes mid).suspendThread)
    (howner : ∀ mid, (next.mutexes mid).owner = (st.mutexes mid).owner)
    (hready : (next.threads tid).stat ≠ .suspend)
    (herror : (st.threads tid).error ≠ .eok → (next.threads tid).error ≠ .eok)
    (hdirty : (next.threads tid).error ≠ .eok ∨ (next.threads tid).signal = true)
    (hnotGranted : ¬ Granted st tid) : HandOffInv next := by
  have hok := hinv.threadOk tid
  refine handOffInv_of_frame hinv hframe hnodup
    ⟨fun mid hmem => absurd hmem (hnotMem mid), ?_, fun hstat => absurd hstat hready, ?_, ?_⟩
  · intro mid time place hplace hretrying
    exact herror (hok.retrying mid time place (hpc ▸ hplace) hretrying)
  · rintro ⟨-, -, hclean, hsignal⟩
    rcases hdirty with hdirty | hdirty
    · exact absurd hclean hdirty
    · exact absurd (hsignal.symm.trans hdirty) (by decide)
  · intro mid time place howned hplace hwhere
    rw [howner] at howned
    exact absurd (hok.owned mid time place howned (hpc ▸ hplace) hwhere) hnotGranted

omit [DecidableEq Mid] in
theorem handOffInv_signalDeliver (hinv : HandOffInv st) (hnotGranted : ¬ Granted st tid) :
    HandOffInv (signalDeliver st tid) := by
  rw [signalDeliver]
  split
  · next hstat =>
      refine handOffInv_disturb hinv (frame_wake _) rfl (fun mid => (hinv.nodup mid).erase tid)
        (fun mid => (hinv.nodup mid).not_mem_erase) (fun _ => rfl) ?_ ?_ ?_ hnotGranted
      · simp [stat_rtThreadResume hstat]
      · simp
      · simp
  · next hstat =>
      refine handOffInv_disturb hinv (frame_setThread _) rfl hinv.nodup
        (fun mid hmem => hstat ((hinv.threadOk tid).listed mid hmem).1) (fun _ => rfl)
        ?_ ?_ ?_ hnotGranted
      · simpa using hstat
      · simp
      · simp

variable {act : Action Tid Mid}

theorem handOffInv_step (hinv : HandOffInv st) (hhonours : Honours st act)
    (hstep : step true st act = some (next, event)) : HandOffInv next := by
  cases act with
  | take tid mid time =>
    simp only [step] at hstep
    split at hstep
    · next hcall => exact handOffInv_rtMutexTake hinv hcall (Option.some.inj hstep)
    · contradiction
  | release tid mid =>
    simp only [step] at hstep
    split at hstep
    · next hcall =>
        exact (handOffInv_rtMutexRelease hinv hcall hhonours (Option.some.inj hstep)).1
    · contradiction
  | timeout tid =>
    simp only [step] at hstep
    split at hstep
    · next hactive =>
        cases hstep
        refine handOffInv_disturb hinv (frame_wake _) rfl (fun mid => (hinv.nodup mid).erase tid)
          (fun mid => (hinv.nodup mid).not_mem_erase) (fun _ => rfl) (by simp) (by simp)
          (.inl (by simp)) fun hgranted => ?_
        exact absurd (((hinv.threadOk tid).granted hgranted).symm.trans hactive) (by decide)
    · contradiction
  | run tid =>
    simp only [step] at hstep
    split at hstep
    · contradiction
    · next hsignal =>
        split at hstep
        · contradiction
        · next mid time place hpc =>
            exact handOffInv_runTake hinv (by simpa using hsignal) hpc hstep
  | kill tid =>
    cases hstep
    exact handOffInv_signalDeliver hinv hhonours
  | handleSig tid =>
    simp only [step] at hstep
    split at hstep
    · next hpending =>
        cases hstep
        refine handOffInv_disturb hinv (frame_setThread _) rfl hinv.nodup
          (fun mid hmem => hpending.2 ((hinv.threadOk tid).listed mid hmem).1) (fun _ => rfl)
          ?_ ?_ ?_ fun hgranted => ?_
        · simpa [rtThreadHandleSig] using hpending.2
        · simp [rtThreadHandleSig]
        · simp [rtThreadHandleSig]
        · exact absurd (hgranted.2.2.2.symm.trans hpending.1) (by decide)
    · contradiction

/-! ## From the hand-over to the return -/

/-- A move inside `rt_mutex_take` concerns the moving thread only. -/
theorem frame_runTake (hstep : runTake st tid mid time place = some (next, event)) :
    Frame st next tid ∧ ∀ other, other ≠ tid → event.isOutcome other = false := by
  have hreturned : ∀ err other, other ≠ tid →
      (Event.returned tid mid err).isOutcome other = false := by
    intro err other hne
    simpa [Event.isOutcome] using hne.symm
  have hmoved : ∀ other, other ≠ tid → (Event.moved tid : Event Tid Mid).isOutcome other = false :=
    fun _ _ => rfl
  cases place with
  | schedule =>
    simp only [runTake] at hstep
    split_ifs at hstep <;> cases hstep
    · exact ⟨frame_setPc _, hreturned _⟩
    · exact ⟨frame_setPc _, hmoved⟩
    · exact ⟨frame_setPc _, hreturned _⟩
  | again =>
    simp only [runTake] at hstep
    split_ifs at hstep <;> cases hstep
    · exact ⟨frame_setPc _, hmoved⟩
    · exact ⟨(frame_setThread _).trans (frame_setPc _), hreturned _⟩
    · exact ⟨frame_setPc _, hmoved⟩
  | valueRead =>
    cases hstep
    exact ⟨frame_setPc _, hmoved⟩
  | valueWrite value =>
    cases hstep
    exact ⟨(frame_setOwner rfl (.inl rfl)).trans (frame_setPc _), hmoved⟩
  | setOwner =>
    cases hstep
    exact ⟨(frame_setOwner rfl (.inr rfl)).trans (frame_setPc _), hmoved⟩
  | setPriority =>
    cases hstep
    exact ⟨(frame_setOwner rfl (.inl rfl)).trans (frame_setPc _), hmoved⟩
  | holdRead =>
    cases hstep
    exact ⟨frame_setPc _, hmoved⟩
  | holdWrite hold =>
    cases hstep
    exact ⟨(frame_setOwner rfl (.inl rfl)).trans (frame_setPc _), hreturned _⟩
  | boost =>
    simp only [runTake] at hstep
    split at hstep <;> cases hstep
    · exact ⟨frame_setPc _, hmoved⟩
    · exact ⟨(frame_boostOwner _).trans (frame_setPc _), hmoved⟩
  | suspend =>
    cases hstep
    refine ⟨(frame_setThread _).trans (frame_setPc _), fun other hne => ?_⟩
    simpa [Event.isOutcome] using hne.symm
  | insert =>
    simp only [runTake] at hstep
    split at hstep <;> cases hstep
    · exact ⟨(frame_insertWaiter mid).trans (frame_setPc _), hmoved⟩
    · exact ⟨frame_setPc _, hmoved⟩
  | startTimer =>
    cases hstep
    exact ⟨(frame_setThread _).trans (frame_setPc _), hmoved⟩
  | fault => contradiction

/-- So does a take up to its return or its call of `rt_schedule`. -/
theorem frame_rtMutexTake (hstep : rtMutexTake st tid mid time = (next, event)) :
    Frame st next tid ∧ ∀ other, other ≠ tid → event.isOutcome other = false := by
  have hreturned : ∀ err other, other ≠ tid →
      (Event.returned tid mid err).isOutcome other = false := by
    intro err other hne
    simpa [Event.isOutcome] using hne.symm
  have hframe : Frame st (setThread st tid (setError .eok)) tid := frame_setThread _
  dsimp only [rtMutexTake] at hstep
  split at hstep
  · cases hstep
    exact ⟨hframe.trans (frame_setOwner rfl (.inl rfl)), hreturned _⟩
  · split at hstep
    · cases hstep
      exact ⟨hframe.trans (frame_setOwner rfl (.inr rfl)), hreturned _⟩
    · split at hstep
      · cases hstep
        exact ⟨hframe.trans (frame_setThread _), hreturned _⟩
      · split at hstep <;> cases hstep
        · exact ⟨hframe.trans (frame_setPc _), fun _ _ => rfl⟩
        · refine ⟨hframe.trans (frame_suspendSelf mid time _), fun other hne => ?_⟩
          simpa [Event.isOutcome] using hne.symm

/-- The hand-over to one waiter does not concern another thread that is about to
return. -/
theorem release_other {other : Tid} (hinv : HandOffInv st) (hcall : st.canCall tid)
    (hhonours : Honours st (.release tid mid)) (hne : other ≠ tid)
    (hready : (st.threads other).stat ≠ .suspend)
    (hstep : rtMutexRelease st tid mid = (next, event)) :
    SameWait (st.threads other) (next.threads other) ∧ next.pc other = st.pc other ∧
      event.isOutcome other = false := by
  rcases release_cases hinv hcall hhonours hstep with
    ⟨⟨-, hframe⟩, houtcome, -⟩ | ⟨waiter, rest, hlist, hrestored, hclean, hpass⟩
  · exact ⟨hframe.thread other hne, hframe.pc other hne, houtcome other⟩
  · have hother : other ≠ waiter := by
      rintro rfl
      exact hready ((hinv.threadOk other).listed mid (by simp [hlist])).1
    rw [← suspendThread_restored st tid mid] at hlist
    rw [passOn_clean_waiter hrestored hlist hclean] at hpass
    cases hpass
    obtain ⟨hstat, herror, hsignal, htimer⟩ := (frame_restored mid).thread other hne
    refine ⟨?_, (frame_restored mid).pc other hne, rfl⟩
    simpa [SameWait, hother] using ⟨hstat, herror, hsignal, htimer⟩

/-- A thread that has been handed a mutex stays so until it returns `RT_EOK`. -/
theorem granted_step (hinv : HandOffInv st) (hhonours : Honours st act) (hgranted : Granted st tid)
    (hpc : st.pc tid = .inTake mid time .schedule) (hstep : step true st act = some (next, event)) :
    Granted next tid ∧ next.pc tid = st.pc tid ∧ event.isOutcome tid = false ∨
      event = .returned tid mid .eok := by
  obtain ⟨-, hready, hclean, hsignal⟩ := hgranted
  have hkept : SameWait (st.threads tid) (next.threads tid) → next.pc tid = st.pc tid →
      Granted next tid := by
    rintro ⟨hstat', herror', hsignal', -⟩ hpc'
    exact ⟨⟨mid, time, hpc'.trans hpc⟩, by rwa [hstat'], by rwa [herror'], by rwa [hsignal']⟩
  have hframed : ∀ actor, Frame st next actor → tid ≠ actor →
      (event.isOutcome tid = false) → Granted next tid ∧ next.pc tid = st.pc tid ∧
        event.isOutcome tid = false := fun actor hframe hne houtcome =>
    ⟨hkept (hframe.thread tid hne) (hframe.pc tid hne), hframe.pc tid hne, houtcome⟩
  cases act with
  | take actor mid' time' =>
    simp only [step] at hstep
    split at hstep
    · next hcall =>
        have hne : tid ≠ actor := by
          rintro rfl
          exact absurd (hcall.1.symm.trans hpc) (by simp)
        obtain ⟨hframe, houtcome⟩ := frame_rtMutexTake (Option.some.inj hstep)
        exact .inl (hframed actor hframe hne (houtcome tid hne))
    · contradiction
  | release actor mid' =>
    simp only [step] at hstep
    split at hstep
    · next hcall =>
        have hne : tid ≠ actor := by
          rintro rfl
          exact absurd (hcall.1.symm.trans hpc) (by simp)
        obtain ⟨hthread, hpc', houtcome⟩ :=
          release_other hinv hcall hhonours hne hready (Option.some.inj hstep)
        exact .inl ⟨hkept hthread hpc', hpc', houtcome⟩
    · contradiction
  | timeout actor =>
    simp only [step] at hstep
    split at hstep
    · next hactive =>
        have hne : tid ≠ actor := by
          rintro rfl
          have hstopped := (hinv.threadOk tid).granted ⟨⟨mid, time, hpc⟩, hready, hclean, hsignal⟩
          exact absurd (hstopped.symm.trans hactive) (by decide)
        cases hstep
        exact .inl (hframed actor (frame_wake _) hne rfl)
    · contradiction
  | run actor =>
    simp only [step] at hstep
    split at hstep
    · contradiction
    · by_cases hne : tid = actor
      · subst hne
        simp only [hpc, runTake, hready, hclean, if_false, if_true] at hstep
        cases hstep
        exact .inr rfl
      · split at hstep
        · contradiction
        · obtain ⟨hframe, houtcome⟩ := frame_runTake hstep
          exact .inl (hframed actor hframe hne (houtcome tid hne))
  | kill actor =>
    have hne : tid ≠ actor := by
      rintro rfl
      exact hhonours ⟨⟨mid, time, hpc⟩, hready, hclean, hsignal⟩
    cases hstep
    have hframe : Frame st (signalDeliver st actor) actor := by
      rw [signalDeliver]
      split
      · exact frame_wake _
      · exact frame_setThread _
    exact .inl (hframed actor hframe hne rfl)
  | handleSig actor =>
    simp only [step] at hstep
    split at hstep
    · next hpending =>
        have hne : tid ≠ actor := by
          rintro rfl
          exact absurd (hsignal.symm.trans hpending.1) (by decide)
        cases hstep
        exact .inl (hframed actor (frame_setThread _) hne rfl)
    · contradiction

/-- How the pending call of a thread goes on in a trace: the first event in which
it returns or suspends the thread. -/
def outcome (tid : Tid) (trace : List (Action Tid Mid × Event Tid Mid)) :
    Option (Event Tid Mid) :=
  (trace.map Prod.snd).find? (Event.isOutcome tid)

theorem granted_run {first last : State Tid Mid} {trace : List (Action Tid Mid × Event Tid Mid)}
    (hinv : HandOffInv first) (hgranted : Granted first tid)
    (hpc : first.pc tid = .inTake mid time .schedule)
    (hrun : (machine true).RunWith Honours first trace last) :
    outcome tid trace = some (.returned tid mid .eok) ∨
      outcome tid trace = none ∧
        ∃ final, step true last (.run tid) = some (final, .returned tid mid .eok) := by
  induction hrun with
  | nil st =>
    obtain ⟨-, hready, hclean, hsignal⟩ := hgranted
    refine .inr ⟨rfl, setPc st tid .out, ?_⟩
    simp [step, hsignal, hpc, runTake, hready, hclean]
  | @cons first next last act event trace hhonours hstep hrest ih =>
    rcases granted_step hinv hhonours hgranted hpc hstep with
      ⟨hgranted', hpc', houtcome⟩ | rfl
    · have hnext := ih (handOffInv_step hinv hhonours hstep) hgranted' (hpc'.trans hpc)
      simpa [outcome, houtcome] using hnext
    · left
      simp [outcome, Event.isOutcome]

theorem rtMutexRelease_event (st : State Tid Mid) (tid other : Tid) (mid mid' : Mid)
    (err : Err) : (rtMutexRelease st tid mid).2 ≠ .returned other mid' err := by
  rw [rtMutexRelease]
  split
  · dsimp only
    split
    · rw [passOn]
      split <;> simp
    · simp
  · simp

theorem rtMutexTake_error {tid' : Tid} {mid' : Mid} {err : Err} (herr : err ≠ .eok)
    (hstep : rtMutexTake st tid mid time = (next, .returned tid' mid' err)) :
    (next.mutexes mid').owner ≠ some tid' := by
  dsimp only [rtMutexTake] at hstep
  split at hstep
  · simp only [Prod.mk.injEq, Event.returned.injEq] at hstep
    exact absurd hstep.2.2.2.symm herr
  · next hnotOwner =>
      split at hstep
      · simp only [Prod.mk.injEq, Event.returned.injEq] at hstep
        exact absurd hstep.2.2.2.symm herr
      · split at hstep
        · simp only [Prod.mk.injEq, Event.returned.injEq] at hstep
          obtain ⟨rfl, rfl, rfl, -⟩ := hstep
          exact hnotOwner
        · split at hstep <;> simp at hstep

theorem runTake_error {tid' : Tid} {mid' : Mid} {err : Err} (hok : ThreadOk st tid)
    (hpc : st.pc tid = .inTake mid time place) (herr : err ≠ .eok)
    (hstep : runTake st tid mid time place = some (next, .returned tid' mid' err)) :
    (next.mutexes mid').owner ≠ some tid' := by
  cases place with
  | schedule =>
    simp only [runTake] at hstep
    split_ifs at hstep with hstat hclean hintr <;>
      simp only [Option.some.injEq, Prod.mk.injEq, Event.returned.injEq, reduceCtorEq,
        and_false] at hstep
    · exact absurd hstep.2.2.2.symm herr
    · obtain ⟨rfl, rfl, rfl, -⟩ := hstep
      intro howner
      exact hclean (hok.owned mid time _ howner hpc (.inl rfl)).2.2.1
  | again =>
    simp only [runTake] at hstep
    split_ifs at hstep <;>
      simp only [Option.some.injEq, Prod.mk.injEq, Event.returned.injEq, reduceCtorEq,
        and_false] at hstep
    obtain ⟨rfl, rfl, rfl, -⟩ := hstep
    exact hok.not_owner hpc trivial
  | holdWrite hold =>
    simp only [runTake, Option.some.injEq, Prod.mk.injEq, Event.returned.injEq] at hstep
    exact absurd hstep.2.2.2.symm herr
  | boost =>
    simp only [runTake] at hstep
    split at hstep <;> simp at hstep
  | insert =>
    simp only [runTake] at hstep
    split at hstep <;> simp at hstep
  | _ => simp [runTake] at hstep

/-- A take that returns an error returns it to a thread that is not the owner. -/
theorem returned_error {err : Err} (hinv : HandOffInv st) (herr : err ≠ .eok)
    (hstep : step true st act = some (next, .returned tid mid err)) :
    (next.mutexes mid).owner ≠ some tid := by
  cases act with
  | take tid' mid' time =>
    simp only [step] at hstep
    split at hstep
    · exact rtMutexTake_error herr (Option.some.inj hstep)
    · contradiction
  | release tid' mid' =>
    simp only [step] at hstep
    split at hstep
    · have hevent := congrArg Prod.snd (Option.some.inj hstep)
      exact absurd hevent (rtMutexRelease_event st tid' tid mid' mid err)
    · contradiction
  | timeout tid' =>
    simp only [step] at hstep
    split at hstep <;> simp at hstep
  | run tid' =>
    simp only [step] at hstep
    split at hstep
    · contradiction
    · split at hstep
      · contradiction
      · next mid' time place hpc =>
          exact runTake_error (hinv.threadOk tid') hpc herr hstep
  | kill tid' => simp [step] at hstep
  | handleSig tid' =>
    simp only [step] at hstep
    split at hstep <;> simp at hstep

/-- A hand-over is honoured.  In every run whose releases hand a mutex to waiters
with a clean error code, and in which no signal reaches a thread that has been
handed a mutex before its take has returned: the pending take of the new owner
returns `RT_EOK` without suspending again, and a take that returns an error
leaves its caller without the mutex. -/
theorem handOff_honoured {priority : Tid → ℕ} {flag : Mid → IpcFlag} {state : State Tid Mid}
    {past : List (Action Tid Mid × Event Tid Mid)}
    (hpast : (machine true).RunWith Honours (initial priority flag) past state) :
    (∀ {tid waiter : Tid} {mid : Mid} {next}, Honours state (.release tid mid) →
      step true state (.release tid mid) = some (next, .released tid mid (some waiter)) →
      ∀ {trace last}, (machine true).RunWith Honours next trace last →
        outcome waiter trace = some (.returned waiter mid .eok) ∨
          outcome waiter trace = none ∧
            ∃ final, step true last (.run waiter) = some (final, .returned waiter mid .eok)) ∧
    (∀ {action next tid mid err},
      step true state action = some (next, .returned tid mid err) → err ≠ .eok →
        (next.mutexes mid).owner ≠ some tid) := by
  have hinv : HandOffInv state :=
    hpast.invariant HandOffInv
      (fun _ _ _ _ hinv hhonours hstep => handOffInv_step hinv hhonours hstep)
      (handOffInv_initial priority flag)
  refine ⟨fun {tid waiter mid next} hhonours hstep trace last hrun => ?_,
    fun hstep herr => returned_error hinv herr hstep⟩
  have hnext := handOffInv_step hinv hhonours hstep
  simp only [step] at hstep
  split at hstep
  · next hcall =>
      obtain ⟨-, hhanded⟩ :=
        handOffInv_rtMutexRelease hinv hcall hhonours (Option.some.inj hstep)
      obtain ⟨hgranted, time, hpc⟩ := hhanded waiter rfl
      exact granted_run hnext hgranted hpc hrun
  · contradiction

/-- The waiter of an undisturbed hand-over returns `RT_EOK`. -/
theorem handOff_honoured_undisturbed :
    ∃ past st next, (machine true).RunWith Honours
        (initial (fun _ : Fin 2 => 10) fun _ : Unit => .prio) past st ∧
      step true st (.release 0 ()) = some (next, .released 0 () (some 1)) ∧
      ∃ final, step true next (.run 1) = some (final, .returned 1 () .eok) := by
  have hpast : (machine true).RunWith Honours
      (initial (fun _ : Fin 2 => 10) fun _ : Unit => .prio)
      [(.take 0 () (-1), .returned 0 () .eok), (.take 1 () (-1), .suspended 1 ())] _ :=
    .cons trivial rfl (.cons trivial rfl (.nil _))
  refine ⟨_, _, _, hpast, rfl, ?_⟩
  refine (((handOff_honoured hpast).1 ?_
    (show step true _ (.release 0 ()) = some (_, .released 0 () (some 1)) from rfl)
    (.nil _)).resolve_left (by simp [outcome])).2
  rintro - - waiter rest hlist
  cases hlist
  rfl

/-- A waiter is interrupted by a signal, waits again with `-RT_EINTR` in its error
code, is handed the mutex, and suspends on the mutex it owns. -/
theorem handOff_lost_after_signal :
    ∃ past st next trace last, (machine true).Run
        (initial (fun _ : Fin 2 => 10) fun _ : Unit => .prio) past st ∧
      step true st (.release 0 ()) = some (next, .released 0 () (some 1)) ∧
      (machine true).Run next trace last ∧
      outcome 1 trace = some (.suspended 1 ()) ∧ (last.mutexes ()).owner = some 1 ∧
      (last.mutexes ()).suspendThread = [1] :=
  ⟨_, _, _, _, _, Machine.runWith_of_exec
      [.take 0 () (-1), .take 1 () (-1), .kill 1, .handleSig 1, .run 1, .run 1, .run 1, .run 1,
        .run 1, .run 1] rfl, rfl,
    Machine.runWith_of_exec [.run 1, .run 1, .run 1, .run 1, .run 1] rfl, rfl, rfl, rfl⟩

end RtThread.Mutex
