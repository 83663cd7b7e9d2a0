import RtThread.Ipc.MutexOwnership

set_option linter.all false

/-!
# Priority inheritance

A blocked taker raises the owner of the mutex to its own priority; a mutex
remembers one priority, the one its owner had when it became the owner, and the
release goes back to that one.  With several mutexes neither the return to the
priority a thread was started with nor the bound of the owner by its waiters
follows, and the two theorems below say at which steps they are lost.
-/

namespace RtThread.Mutex

open RtThread.Core
open RtThread.Kernel

variable {Tid Mid : Type*}

def State.prio (st : State Tid Mid) (tid : Tid) : ℕ :=
  (st.threads tid).currentPriority

section Priorities

variable (st : State Tid Mid) (tid other : Tid)

@[simp]
theorem prio_setMutex [DecidableEq Mid] (mid : Mid) (update : RtMutex Tid → RtMutex Tid) :
    (setMutex st mid update).prio other = st.prio other := rfl

variable [DecidableEq Tid]

@[simp]
theorem prio_setPc (pc : Pc Mid) : (setPc st tid pc).prio other = st.prio other := rfl

@[simp]
theorem prio_setError (code : Err) :
    (setThread st tid (setError code)).prio other = st.prio other :=
  currentPriority_modify (currentPriority_setError code) other

@[simp]
theorem prio_wake_rtThreadResume :
    (wake st tid rtThreadResume).prio other = st.prio other :=
  currentPriority_modify currentPriority_rtThreadResume other

@[simp]
theorem prio_wake_rtThreadTimeout :
    (wake st tid rtThreadTimeout).prio other = st.prio other :=
  currentPriority_modify currentPriority_rtThreadTimeout other

@[simp]
theorem prio_changePriority (priority : ℕ) :
    (setThread st tid (changePriority priority)).prio other =
      if other = tid then priority else st.prio other := by
  by_cases hne : other = tid
  · subst hne
    simp [State.prio, changePriority]
  · simp [State.prio, hne]

/-- A blocked taker changes the priority of the owner only. -/
@[simp]
theorem prio_suspendSelf [DecidableEq Mid] (mid : Mid) (time : ℤ) (owner : Tid) :
    (suspendSelf st tid mid time owner).prio other =
      if other = owner then min (st.prio tid) (st.prio owner) else st.prio other := by
  simp only [suspendSelf, boostOwner_eq]
  rw [← prio_changePriority st owner other]
  simp only [State.prio, setPc_threads, setThread_threads, insertWaiter_threads]
  rw [currentPriority_modify (currentPriority_startThreadTimer time),
    currentPriority_modify currentPriority_rtThreadSuspend]

end Priorities

variable [DecidableEq Tid] [DecidableEq Mid]

/-! ## The inheritance is undone -/

/-- A thread that owns no mutex and waits for none is at its own priority. -/
def Undone (priority : Tid → ℕ) (st : State Tid Mid) : Prop :=
  ∀ tid, (∀ mid, (st.mutexes mid).owner ≠ some tid) →
    (∀ mid, tid ∉ (st.mutexes mid).suspendThread) → st.prio tid = priority tid

instance [Fintype Tid] [Fintype Mid] (priority : Tid → ℕ) (st : State Tid Mid) :
    Decidable (Undone priority st) :=
  inferInstanceAs (Decidable (∀ _, _ → _ → _))

/-- The release of a thread's last mutex finds the thread's own priority saved
in it. -/
def LastReleaseRestores (priority : Tid → ℕ) (st : State Tid Mid) : Action Tid Mid → Prop
  | .release tid mid =>
    (st.mutexes mid).owner = some tid → (st.mutexes mid).hold = 1 →
      (∀ mid', mid' ≠ mid → (st.mutexes mid').owner ≠ some tid) →
        (st.mutexes mid).originalPriority = priority tid
  | _ => True

/-- What holds between the steps: the waiting of a thread plays no part. -/
def OwnPriority (priority : Tid → ℕ) (st : State Tid Mid) : Prop :=
  ∀ tid, (∀ mid, (st.mutexes mid).owner ≠ some tid) → st.prio tid = priority tid

variable {st : State Tid Mid} {tid : Tid} {mid : Mid}

omit [DecidableEq Tid] in
theorem owns_none_setMutex {update : RtMutex Tid → RtMutex Tid}
    (hnone : ∀ mid', ((setMutex st mid update).mutexes mid').owner ≠ some tid) :
    (update (st.mutexes mid)).owner ≠ some tid ∧
      ∀ mid', mid' ≠ mid → (st.mutexes mid').owner ≠ some tid := by
  refine ⟨by simpa using hnone mid, fun mid' hne => ?_⟩
  simpa [hne] using hnone mid'

variable {priority : Tid → ℕ}

/-- The release of a thread's last mutex restores the thread's own priority. -/
theorem ownPriority_release {tid' : Tid} (hown : OwnPriority priority st)
    (hrestores : LastReleaseRestores priority st (.release tid' mid))
    (howner : (st.mutexes mid).owner = some tid') (hhold : (st.mutexes mid).hold = 1)
    (hothers : ∀ mid', mid' ≠ mid → (st.mutexes mid').owner ≠ some tid) :
    (if tid = tid' then (st.mutexes mid).originalPriority else st.prio tid) =
      priority tid := by
  split
  · next hself =>
      subst hself
      exact hrestores howner hhold hothers
  · next hne =>
      apply hown tid
      intro mid'
      by_cases hmid : mid' = mid
      · subst hmid
        simpa [howner, eq_comm] using hne
      · exact hothers mid' hmid

variable {next : State Tid Mid} {act : Action Tid Mid} {event : Event Tid Mid}

theorem ownPriority_step (hinv : Inv st) (hown : OwnPriority priority st)
    (hrestores : LastReleaseRestores priority st act)
    (hstep : step false st act = some (next, event)) : OwnPriority priority next := by
  intro tid hnone
  have hkept : ∀ mid, (st.mutexes mid).owner ≠ some tid →
      (∀ mid', mid' ≠ mid → (st.mutexes mid').owner ≠ some tid) →
        st.prio tid = priority tid := by
    intro mid hself hothers
    apply hown tid
    intro mid'
    by_cases hmid : mid' = mid
    · exact hmid ▸ hself
    · exact hothers mid' hmid
  cases effect_of_step hinv hstep with
  | nested tid' mid time howner =>
    obtain ⟨hself, hothers⟩ := owns_none_setMutex hnone
    simpa using hkept mid hself hothers
  | acquired tid' mid time hfree =>
    obtain ⟨-, hothers⟩ := owns_none_setMutex hnone
    simpa using hkept mid (by simp [hfree]) hothers
  | noWait tid' mid => simpa using hown tid hnone
  | blocked tid' mid time owner hcall htime howner hne =>
    have hother : tid ≠ owner := by
      rintro rfl
      exact hnone mid (by simpa using howner)
    simpa [hother] using hown tid (by simpa using hnone)
  | unnested tid' mid howner hhold =>
    obtain ⟨hself, hothers⟩ := owns_none_setMutex hnone
    simpa using hkept mid hself hothers
  | handedOver tid' mid waiter rest hout howner hhold hlist =>
    obtain ⟨-, hothers⟩ := owns_none_setMutex hnone
    simpa using ownPriority_release hown hrestores howner hhold hothers
  | freed tid' mid hout howner hhold hlist =>
    obtain ⟨-, hothers⟩ := owns_none_setMutex hnone
    simpa using ownPriority_release hown hrestores howner hhold hothers
  | refused tid' mid howner => simpa using hown tid hnone
  | timedOut tid' mid hmem => simpa using hown tid hnone
  | returned tid' mid time hpc hstat => simpa using hown tid hnone

/-- A release that does not find the thread's own priority leaves the thread
with another one. -/
theorem not_undone_of_release (hinv : Inv st) (hmissing : ¬ LastReleaseRestores priority st act)
    (hstep : step false st act = some (next, event)) : ¬ Undone priority next := by
  have hinvNext := inv_step hinv hstep
  cases act with
  | release tid mid =>
    simp only [LastReleaseRestores, Classical.not_imp] at hmissing
    obtain ⟨howner, hhold, hothers, hother⟩ := hmissing
    intro hundone
    have hreached : st.pc tid = .out → (next.mutexes mid).owner ≠ some tid →
        (∀ mid', mid' ≠ mid → (next.mutexes mid').owner = (st.mutexes mid').owner) →
        next.pc = st.pc → next.prio tid = priority tid := by
      intro hout hself hsame hpc
      refine hundone tid (fun mid' => ?_) (hinvNext.not_mem_of_out (by rw [hpc, hout]))
      by_cases hmid : mid' = mid
      · exact hmid ▸ hself
      · rw [hsame mid' hmid]
        exact hothers mid' hmid
    cases effect_of_step hinv hstep with
    | unnested _ _ _ hnested => exact hnested hhold
    | handedOver _ _ waiter rest hout _ _ hlist =>
      have hne : waiter ≠ tid := by
        rintro rfl
        exact hinv.not_mem_of_out hout mid (by simp [hlist])
      have hprio := hreached hout (by simpa using hne) (fun mid' hmid => by simp [hmid]) rfl
      exact hother (by simpa using hprio)
    | freed _ _ hout _ _ hlist =>
      have hprio := hreached hout (by simp) (fun mid' hmid => by simp [hmid]) rfl
      exact hother (by simpa using hprio)
    | refused _ _ hrefused => exact hrefused howner
  | _ => exact absurd trivial hmissing

/-- Priority inheritance is undone in every state of a run exactly when every
release of a thread's last mutex finds the thread's own priority saved in that
mutex, which is to say that the thread had it when it became the owner. -/
theorem inheritance_undone_iff {priority : Tid → ℕ} {flag : Mid → IpcFlag}
    {last : State Tid Mid} {trace : List (Action Tid Mid × Event Tid Mid)}
    (hrun : (machine false).Run (initial priority flag) trace last) :
    ((machine false).RunWith (fun st _ => Undone priority st)
        (initial priority flag) trace last ∧ Undone priority last) ↔
      (machine false).RunWith (LastReleaseRestores priority) (initial priority flag)
        trace last := by
  refine hrun.always_iff (fun st => Inv st ∧ OwnPriority priority st)
    (Undone priority) ?_ ?_ ?_ ⟨inv_initial priority flag, fun tid _ => rfl⟩
  · rintro st ⟨-, hown⟩ tid hnone -
    exact hown tid hnone
  · rintro st action next event ⟨hinv, hown⟩ hrestores hstep
    exact ⟨inv_step hinv hstep, ownPriority_step hinv hown hrestores hstep⟩
  · rintro st action next event ⟨hinv, -⟩ hmissing hstep
    exact not_undone_of_release hinv hmissing hstep

/-- A thread that is boosted, takes a second mutex and releases the two in
reverse order is back at its own priority. -/
theorem inheritance_undone_reverse_order :
    ∃ trace last, (machine false).RunWith (LastReleaseRestores ![20, 5])
        (initial ![20, 5] fun _ : Fin 2 => .prio) trace last ∧ last.prio 0 = 20 := by
  have hundone : (machine false).RunWith (fun st _ => Undone ![20, 5] st)
      (initial ![20, 5] fun _ : Fin 2 => .prio) _ _ :=
    Machine.runWith_of_exec
      [.take 0 0 (-1), .take 1 0 (-1), .take 0 1 (-1), .release 0 1, .release 0 0] rfl
  exact ⟨_, _, (inheritance_undone_iff hundone.run).1 ⟨hundone, by decide⟩, rfl⟩

/-- Released in the order they were taken, the second mutex leaves the thread at
the priority it had been boosted to. -/
theorem not_undone_of_taking_order :
    ∃ trace last, (machine false).Run
        (initial ![20, 5] fun _ : Fin 2 => .prio) trace last ∧
      ¬ Undone ![20, 5] last ∧ last.prio 0 = 5 :=
  ⟨_, _, Machine.runWith_of_exec
      [.take 0 0 (-1), .take 1 0 (-1), .take 0 1 (-1), .release 0 0, .release 0 1] rfl,
    by decide, rfl⟩

/-! ## The owner is bounded by its waiters -/

/-- The owner of a mutex is at least as urgent as every thread that waits for
it. -/
def OwnerBounded (st : State Tid Mid) : Prop :=
  ∀ mid tid waiter, (st.mutexes mid).owner = some tid →
    waiter ∈ (st.mutexes mid).suspendThread → st.prio tid ≤ st.prio waiter

instance [Fintype Tid] [Fintype Mid] (st : State Tid Mid) :
    Decidable (OwnerBounded st) :=
  inferInstanceAs (Decidable (∀ _ _ _, _ → _ → _))

/-- The steps that keep the bound.  A boost must not pass the owner of a mutex
the boosted thread waits for itself; the priority a release goes back to must
suit the waiters of the other mutexes the thread owns, and the waiter it hands
the mutex to must suit the other waiters. -/
def KeepsBound (st : State Tid Mid) : Action Tid Mid → Prop
  | .take tid mid time =>
    ∀ owner, (st.mutexes mid).owner = some owner → owner ≠ tid → time ≠ 0 →
      st.prio tid < st.prio owner →
        ∀ mid' owner', owner ∈ (st.mutexes mid').suspendThread →
          (st.mutexes mid').owner = some owner' → st.prio owner' ≤ st.prio tid
  | .release tid mid =>
    (st.mutexes mid).owner = some tid → (st.mutexes mid).hold = 1 →
      (∀ mid', mid' ≠ mid → (st.mutexes mid').owner = some tid →
        ∀ waiter ∈ (st.mutexes mid').suspendThread,
          (st.mutexes mid).originalPriority ≤ st.prio waiter) ∧
      ∀ waiter rest, (st.mutexes mid).suspendThread = waiter :: rest →
        ∀ other ∈ rest, st.prio waiter ≤ st.prio other
  | _ => True

theorem ownerBounded_blocked {owner : Tid} {time : ℤ} (hinv : Inv st) (hbounded : OwnerBounded st)
    (hkeeps : KeepsBound st (.take tid mid time)) (hout : st.pc tid = .out) (htime : time ≠ 0)
    (howner : (st.mutexes mid).owner = some owner) (hne : owner ≠ tid) : OwnerBounded
      (suspendSelf (setThread st tid (setError .eok)) tid mid time owner) := by
  intro mid' tid' waiter howner' hwaiter
  simp only [suspendSelf_owner, setThread_mutexes] at howner'
  simp only [mem_suspendSelf, setThread_mutexes] at hwaiter
  simp only [prio_suspendSelf, prio_setError]
  rcases hwaiter with ⟨rfl, rfl⟩ | hwaiter
  · -- the new waiter: its owner has just been raised to it
    obtain rfl := Option.some.inj (howner.symm.trans howner')
    simp [hne.symm]
  · have hold := hbounded mid' tid' waiter howner' hwaiter
    by_cases hboosted : waiter = owner
    · -- the boosted thread waits itself
      subst hboosted
      have hother : tid' ≠ waiter := by
        rintro rfl
        exact (hinv.consistent mid').notOwner tid' hwaiter howner'
      simp only [hother, if_false, if_true]
      refine le_min ?_ hold
      by_contra hlt
      have hprio := hkeeps waiter howner hne htime (by omega) mid' tid' hwaiter howner'
      omega
    · rw [if_neg hboosted]
      split
      · next hself => exact (min_le_right _ _).trans (hself ▸ hold)
      · exact hold

omit [DecidableEq Tid] [DecidableEq Mid] in
/-- A step that changes no priority and lets nobody wait for a new owner. -/
theorem ownerBounded_of_fewer (hbounded : OwnerBounded st)
    (hprio : ∀ tid, next.prio tid = st.prio tid)
    (hfewer : ∀ mid tid waiter, (next.mutexes mid).owner = some tid →
      waiter ∈ (next.mutexes mid).suspendThread →
        (st.mutexes mid).owner = some tid ∧ waiter ∈ (st.mutexes mid).suspendThread) :
    OwnerBounded next := by
  intro mid tid waiter howner hwaiter
  obtain ⟨howner', hwaiter'⟩ := hfewer mid tid waiter howner hwaiter
  rw [hprio, hprio]
  exact hbounded mid tid waiter howner' hwaiter'

omit [DecidableEq Mid] in
theorem ownerBounded_setError {code : Err} (hbounded : OwnerBounded st) :
    OwnerBounded (setThread st tid (setError code)) :=
  ownerBounded_of_fewer hbounded (by simp) fun _ _ _ howner hmem => ⟨howner, hmem⟩

omit [DecidableEq Tid] in
/-- A new hold count, or an owner for a mutex that nobody waits for. -/
theorem ownerBounded_setMutex {update : RtMutex Tid → RtMutex Tid} (hbounded : OwnerBounded st)
    (hlist : (update (st.mutexes mid)).suspendThread = (st.mutexes mid).suspendThread)
    (howner : (update (st.mutexes mid)).owner = (st.mutexes mid).owner ∨
      (st.mutexes mid).suspendThread = []) :
    OwnerBounded (setMutex st mid update) := by
  apply ownerBounded_of_fewer hbounded (by simp)
  intro mid' tid waiter howner' hwaiter
  by_cases hmid : mid' = mid
  · subst hmid
    rw [setMutex_self] at howner' hwaiter
    rw [hlist] at hwaiter
    rcases howner with hsame | hempty
    · exact ⟨hsame ▸ howner', hwaiter⟩
    · simp [hempty] at hwaiter
  · rw [setMutex_of_ne _ _ hmid] at howner' hwaiter
    exact ⟨howner', hwaiter⟩

theorem ownerBounded_release (hinv : Inv st) (hbounded : OwnerBounded st)
    (hkeeps : KeepsBound st (.release tid mid)) (hout : st.pc tid = .out)
    (howner : (st.mutexes mid).owner = some tid) (hhold : (st.mutexes mid).hold = 1)
    (hprio : ∀ other, next.prio other =
      if other = tid then (st.mutexes mid).originalPriority else st.prio other)
    (hothers : ∀ mid', mid' ≠ mid → (next.mutexes mid').owner = (st.mutexes mid').owner ∧
      (next.mutexes mid').suspendThread ⊆ (st.mutexes mid').suspendThread)
    (hself : ∀ tid' waiter, (next.mutexes mid).owner = some tid' →
      waiter ∈ (next.mutexes mid).suspendThread →
        ∃ rest, (st.mutexes mid).suspendThread = tid' :: rest ∧ waiter ∈ rest) :
    OwnerBounded next := by
  intro mid' tid' waiter howner' hwaiter
  have hwaits : ∀ other mid'', other ∈ (st.mutexes mid'').suspendThread → other ≠ tid := by
    rintro other mid'' hmem rfl
    exact hinv.not_mem_of_out hout mid'' hmem
  obtain ⟨hrestored, hnext⟩ := hkeeps howner hhold
  rw [hprio, hprio]
  by_cases hmid : mid' = mid
  · subst hmid
    obtain ⟨rest, hlist, hrest⟩ := hself tid' waiter howner' hwaiter
    have hhead : tid' ≠ tid := hwaits tid' mid' (by simp [hlist])
    have htail : waiter ≠ tid := hwaits waiter mid' (by simp [hlist, hrest])
    simpa [hhead, htail] using hnext tid' rest hlist waiter hrest
  · obtain ⟨hsame, hsubset⟩ := hothers mid' hmid
    rw [hsame] at howner'
    have hmem := hsubset hwaiter
    rw [if_neg (hwaits waiter mid' hmem)]
    split
    · next htid => exact hrestored mid' hmid (htid ▸ howner') waiter hmem
    · exact hbounded mid' tid' waiter howner' hmem

theorem ownerBounded_step (hinv : Inv st) (hbounded : OwnerBounded st) (hkeeps : KeepsBound st act)
    (hstep : step false st act = some (next, event)) : OwnerBounded next := by
  cases effect_of_step hinv hstep with
  | nested tid mid time howner =>
    exact ownerBounded_setMutex (ownerBounded_setError hbounded) rfl (.inl rfl)
  | acquired tid mid time hfree =>
    exact ownerBounded_setMutex (ownerBounded_setError hbounded) rfl
      (.inr ((hinv.consistent mid).idle hfree))
  | noWait tid mid => exact ownerBounded_setError (ownerBounded_setError hbounded)
  | blocked tid mid time owner hcall htime howner hne =>
    exact ownerBounded_blocked hinv hbounded hkeeps hcall.1 htime howner hne
  | unnested tid mid howner hhold => exact ownerBounded_setMutex hbounded rfl (.inl rfl)
  | handedOver tid mid waiter rest hout howner hhold hlist =>
    refine ownerBounded_release hinv hbounded hkeeps hout howner hhold (by simp)
      (fun mid' hmid => ?_) (fun tid' waiter' howner' hwaiter => ?_)
    · simpa [hmid] using List.erase_subset
    · simp only [setMutex_self, Option.some.injEq] at howner'
      subst howner'
      exact ⟨rest, hlist, by simpa [hlist] using hwaiter⟩
  | freed tid mid hout howner hhold hlist =>
    refine ownerBounded_release hinv hbounded hkeeps hout howner hhold (by simp)
      (fun mid' hmid => by simp [hmid]) (fun tid' waiter' howner' hwaiter => ?_)
    simp at howner'
  | refused tid mid howner => exact ownerBounded_setError hbounded
  | timedOut tid mid hmem =>
    exact ownerBounded_of_fewer hbounded (by simp) fun _ _ _ howner' hmem' =>
      ⟨howner', List.mem_of_mem_erase hmem'⟩
  | returned tid mid time hpc hstat =>
    exact ownerBounded_of_fewer hbounded (by simp) fun _ _ _ howner hmem => ⟨howner, hmem⟩

/-- A boost past the owner of a mutex the boosted thread waits for. -/
theorem not_ownerBounded_of_boost {owner owner' : Tid} {mid' : Mid} {time : ℤ} (hinv : Inv st)
    (hboost : st.prio tid < st.prio owner) (hwaits : owner ∈ (st.mutexes mid').suspendThread)
    (howner' : (st.mutexes mid').owner = some owner') (hpassed : st.prio tid < st.prio owner') :
    ¬ OwnerBounded
      (suspendSelf (setThread st tid (setError .eok)) tid mid time owner) := by
  intro hbounded
  have hother : owner' ≠ owner := by
    rintro rfl
    exact (hinv.consistent mid').notOwner owner' hwaits howner'
  have hle := hbounded mid' owner' owner (by simpa using howner') (by simp [hwaits])
  simp only [prio_suspendSelf, prio_setError, hother, if_false, if_true] at hle
  omega

omit [DecidableEq Mid] in
/-- A release back to a priority that does not suit the waiters of another mutex
the thread owns. -/
theorem not_ownerBounded_of_restore {waiter : Tid} {mid' : Mid} (hinv : Inv st)
    (hout : st.pc tid = .out) (howner : (st.mutexes mid').owner = some tid)
    (hwaits : waiter ∈ (st.mutexes mid').suspendThread)
    (hless : st.prio waiter < (st.mutexes mid).originalPriority)
    (hprio : ∀ other, next.prio other =
      if other = tid then (st.mutexes mid).originalPriority else st.prio other)
    (howner' : (next.mutexes mid').owner = (st.mutexes mid').owner)
    (hwaits' : waiter ∈ (next.mutexes mid').suspendThread) : ¬ OwnerBounded next := by
  intro hbounded
  have hne : waiter ≠ tid := by
    rintro rfl
    exact hinv.not_mem_of_out hout mid' hwaits
  have hle := hbounded mid' tid waiter (howner'.trans howner) hwaits'
  rw [hprio, hprio, if_pos rfl, if_neg hne] at hle
  omega

theorem not_ownerBounded_of_not_keepsBound (hinv : Inv st) (hbreaks : ¬ KeepsBound st act)
    (hstep : step false st act = some (next, event)) : ¬ OwnerBounded next := by
  cases act with
  | take tid mid time =>
    simp only [KeepsBound, not_forall, not_le] at hbreaks
    obtain ⟨owner, howner, hne, htime, hboost, mid', owner', hwaits, howner', hpassed⟩ := hbreaks
    cases effect_of_step hinv hstep with
    | nested _ _ _ hself => exact absurd (Option.some.inj (howner.symm.trans hself)) hne
    | acquired _ _ _ hfree => exact absurd (howner.symm.trans hfree) (by simp)
    | noWait => exact absurd rfl htime
    | blocked _ _ _ blocker _ _ hblocker _ =>
      obtain rfl := Option.some.inj (howner.symm.trans hblocker)
      exact not_ownerBounded_of_boost hinv hboost hwaits howner' hpassed
  | release tid mid =>
    simp only [KeepsBound, Classical.not_imp] at hbreaks
    obtain ⟨howner, hhold, hbreaks⟩ := hbreaks
    cases effect_of_step hinv hstep with
    | unnested _ _ _ hnested => exact absurd hhold hnested
    | refused _ _ hrefused => exact absurd howner hrefused
    | freed _ _ hout _ _ hlist =>
      simp only [hlist, reduceCtorEq, false_implies, implies_true, and_true, not_forall,
        not_le] at hbreaks
      obtain ⟨mid', hmid, howner', waiter', hwaits, hless⟩ := hbreaks
      exact not_ownerBounded_of_restore hinv hout howner' hwaits hless (by simp)
        (by simp [hmid]) (by simpa [hmid] using hwaits)
    | handedOver _ _ waiter rest hout _ _ hlist =>
      rcases not_and_or.1 hbreaks with hrestore | hhead
      · simp only [not_forall, not_le] at hrestore
        obtain ⟨mid', hmid, howner', waiter', hwaits, hless⟩ := hrestore
        have hne : waiter' ≠ waiter := by
          rintro rfl
          exact hmid (hinv.mem_unique (by simp [hlist]) hwaits)
        exact not_ownerBounded_of_restore hinv hout howner' hwaits hless (by simp)
          (by simp [hmid]) (by simpa [hmid, List.mem_erase_of_ne hne] using hwaits)
      · simp only [hlist, List.cons.injEq, not_forall, not_le] at hhead
        obtain ⟨_, _, ⟨rfl, rfl⟩, other, hmem, hless⟩ := hhead
        intro hbounded
        have hle := hbounded mid waiter other (by simp) (by simpa [hlist] using hmem)
        have hwaits : ∀ thread ∈ (st.mutexes mid).suspendThread, thread ≠ tid := by
          rintro thread hthread rfl
          exact hinv.not_mem_of_out hout mid hthread
        have hhead := hwaits waiter (by simp [hlist])
        have htail := hwaits other (by simp [hlist, hmem])
        simp only [prio_setMutex, prio_wake_rtThreadResume, prio_changePriority, hhead, htail,
          if_false] at hle
        omega
  | _ => exact absurd trivial hbreaks

/-- The owner of every mutex is at least as urgent as its waiters in every state
of a run exactly when every step of the run keeps the bound. -/
theorem owner_bounded_iff {priority : Tid → ℕ} {flag : Mid → IpcFlag} {last : State Tid Mid}
    {trace : List (Action Tid Mid × Event Tid Mid)}
    (hrun : (machine false).Run (initial priority flag) trace last) :
    ((machine false).RunWith (fun st _ => OwnerBounded st)
        (initial priority flag) trace last ∧ OwnerBounded last) ↔
      (machine false).RunWith KeepsBound (initial priority flag) trace last := by
  refine hrun.always_iff (fun st => Inv st ∧ OwnerBounded st) OwnerBounded
    (fun _ hstate => hstate.2) ?_ ?_ ⟨inv_initial priority flag, ?_⟩
  · rintro st action next event ⟨hinv, hbounded⟩ hkeeps hstep
    exact ⟨inv_step hinv hstep, ownerBounded_step hinv hbounded hkeeps hstep⟩
  · rintro st action next event ⟨hinv, -⟩ hbreaks hstep
    exact not_ownerBounded_of_not_keepsBound hinv hbreaks hstep
  · intro mid tid waiter howner
    simp [initial, rtMutexInit] at howner

/-- A more urgent taker raises the owner, who then releases to it. -/
theorem owner_bounded_single_mutex :
    ∃ trace last, (machine false).RunWith KeepsBound
        (initial ![20, 5] fun _ : Unit => .fifo) trace last ∧
      (last.mutexes ()).owner = some 1 := by
  have hbounded : (machine false).RunWith (fun st _ => OwnerBounded st)
      (initial ![20, 5] fun _ : Unit => .fifo) _ _ :=
    Machine.runWith_of_exec [.take 0 () (-1), .take 1 () (-1), .release 0 ()] rfl
  exact ⟨_, _, (owner_bounded_iff hbounded.run).1 ⟨hbounded, by decide⟩, rfl⟩

/-- A first-in-first-out mutex is handed to a thread of priority 15 while one of
priority 5 goes on waiting. -/
theorem not_ownerBounded_of_fifo :
    ∃ trace last, (machine false).Run
        (initial ![20, 15, 5] fun _ : Unit => .fifo) trace last ∧
      ¬ OwnerBounded last ∧ (last.mutexes ()).owner = some 1 ∧
      (last.mutexes ()).suspendThread = [2] :=
  ⟨_, _, Machine.runWith_of_exec
      [.take 0 () (-1), .take 1 () (-1), .take 2 () (-1), .release 0 ()] rfl,
    by decide, rfl, rfl⟩

end RtThread.Mutex
