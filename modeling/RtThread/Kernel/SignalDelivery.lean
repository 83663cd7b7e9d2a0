import RtThread.Kernel.Signal

set_option linter.all false

/-!
# Delivery of signals

A queued signal that the target has unmasked needs something that will still lead
the target to it: a delivery on its way, the flag that `rt_schedule` looks at, the
prepared `_signal_entry`, the handler loop in progress, or a wait for the signal.
Each of these can be spent without the signal being taken, and the handler loop
takes the first node of the list whether or not its signal is masked.
-/

namespace RtThread.Signal

open Function
open RtThread.Core RtThread.Kernel

variable {Sender : Type*} [DecidableEq Sender]

/-- The target is in `rt_signal_wait` for the signal. -/
def State.WaitsFor (st : State Sender) (signo : Signo) : Prop :=
  signo ∈ st.signalWait.getD ∅

/-- Something will still lead the target to the signal. -/
def State.Triggered (st : State Sender) (signo : Signo) : Prop :=
  (∃ sender, st.phase sender = .delivering) ∨ st.signalPending = true ∨
    st.signalEntry = true ∨ (∃ cleanState, .handling cleanState ∈ st.frames) ∨
      st.WaitsFor signo

/-- No unmasked signal is left in the queue without a trigger. -/
def NoneStranded (st : State Sender) : Prop :=
  ∀ signo ∈ st.signos, signo ∈ st.sigMask → st.Triggered signo

/-- A handler that is run belongs to an unmasked signal. -/
def MaskRespected (context : Sender → Context) (st : State Sender) (act : Action Sender) :
    Prop :=
  ∀ next signo handler, step context st act = some (next, .handled signo (some handler)) →
    signo ∈ st.sigMask

/-- Where the loop of `rt_thread_handle_sig` ends, no unmasked signal is queued. -/
def LoopDrains (context : Sender → Context) (st : State Sender) (act : Action Sender) :
    Prop :=
  ∀ next, step context st act = some (next, .finished) →
    ∀ signo ∈ next.signos, signo ∉ next.sigMask

/-- Masking and delivery are right for a state and its next action. -/
structure Served (context : Sender → Context) (st : State Sender) (act : Action Sender) :
    Prop where
  triggered : NoneStranded st
  masked : MaskRespected context st act
  drained : LoopDrains context st act

/-! ## The condition on the steps -/

/-- The first node of the queue is of an unmasked signal, or has no handler. -/
def HeadUnmasked (st : State Sender) : Prop :=
  match st.siList with
  | [] => True
  | node :: _ =>
    (st.sigVectors.bind fun vectors => vectors node.signo).isSome → node.signo ∈ st.sigMask

/-- The action gets to the loop of `rt_thread_handle_sig`. -/
def TurnsLoop (context : Sender → Context) (st : State Sender) : Action Sender → Prop
  | .deliver sender => context sender = .target ∧ st.stat = .running
  | .handlerReturns => True
  | .switchIn => st.signalEntry = true ∧ st.signalWait = none
  | .afterSwitch => st.signalWait = none
  | _ => False

/-- `_signal_deliver` leaves the target as it is: an interrupt routine delivers to
the running target, or the target is ready and has `RT_THREAD_STAT_SIGNAL`. -/
def DeliversNothing (context : Context) (st : State Sender) : Prop :=
  st.stat ≠ .suspend ∧ (st.stat = .running → context ≠ .target) ∧
    (st.stat ≠ .running → st.signal = true)

/-- Where a trigger is spent and no handler is run for it, the unmasked signals of
the queue have another one: in `_signal_deliver`, in a call of
`rt_thread_handle_sig` from inside `rt_signal_wait`, and at the end of
`rt_signal_wait`, except for the signal it takes. -/
def KeepsTrigger (context : Sender → Context) (st : State Sender) : Action Sender → Prop
  | .deliver sender =>
    DeliversNothing (context sender) st → NoneStranded (st.setPhase sender .idle)
  | .switchIn => st.signalWait ≠ none → NoneStranded { st with signalEntry := false }
  | .afterSwitch => st.signalWait ≠ none → NoneStranded { st with signalPending := false }
  | .endWait timedOut =>
    ∀ signo ∈ st.signos, signo ∈ st.sigMask →
      ({ st with signalWait := none } : State Sender).Triggered signo ∨
        timedOut = false ∧
          (st.siList.find? fun node => node.signo ∈ st.signalWait.getD ∅).map SigInfo.signo =
            some signo
  | _ => True

/-- The condition under which masking is respected and no signal is stranded. -/
structure Careful (context : Sender → Context) (st : State Sender) (act : Action Sender) :
    Prop where
  fresh : InsertsFresh st act
  head : TurnsLoop context st act → st.Interested → HeadUnmasked st
  trigger : KeepsTrigger context st act

section Decidable

instance (st : State Sender) (signo : Signo) : Decidable (st.WaitsFor signo) :=
  inferInstanceAs (Decidable (_ ∈ _))

instance [Fintype Sender] (st : State Sender) (signo : Signo) :
    Decidable (st.Triggered signo) :=
  inferInstanceAs (Decidable (_ ∨ _ ∨ _ ∨ _ ∨ _))

instance [Fintype Sender] (st : State Sender) : Decidable (NoneStranded st) :=
  inferInstanceAs (Decidable (∀ _ ∈ _, _ → _))

instance (st : State Sender) : Decidable (HeadUnmasked st) :=
  match hlist : st.siList with
  | [] => isTrue (by simp [HeadUnmasked, hlist])
  | node :: _ =>
    decidable_of_iff ((st.sigVectors.bind fun vectors => vectors node.signo).isSome →
      node.signo ∈ st.sigMask) (by simp [HeadUnmasked, hlist])

instance (context : Sender → Context) (st : State Sender) :
    (act : Action Sender) → Decidable (TurnsLoop context st act)
  | .deliver _ | .switchIn => inferInstanceAs (Decidable (_ ∧ _))
  | .handlerReturns => inferInstanceAs (Decidable True)
  | .afterSwitch => inferInstanceAs (Decidable (_ = _))
  | .kill .. | .alloc .. | .insert .. | .install .. | .mask .. | .unmask .. | .wait ..
  | .endWait .. | .leave | .block | .suspend | .resume | .switchOut =>
    inferInstanceAs (Decidable False)

instance (context : Context) (st : State Sender) : Decidable (DeliversNothing context st) :=
  inferInstanceAs (Decidable (_ ∧ _))

instance [Fintype Sender] (context : Sender → Context) (st : State Sender) :
    (act : Action Sender) → Decidable (KeepsTrigger context st act)
  | .deliver _ | .switchIn | .afterSwitch => inferInstanceAs (Decidable (_ → _))
  | .endWait _ => inferInstanceAs (Decidable (∀ _ ∈ _, _ → _ ∨ _))
  | .kill .. | .alloc .. | .insert .. | .install .. | .mask .. | .unmask .. | .wait ..
  | .handlerReturns | .leave | .block | .suspend | .resume | .switchOut =>
    inferInstanceAs (Decidable True)

instance [Fintype Sender] (context : Sender → Context) (st : State Sender)
    (act : Action Sender) : Decidable (Careful context st act) :=
  decidable_of_iff
    (InsertsFresh st act ∧
      (TurnsLoop context st act → st.Interested → HeadUnmasked st) ∧
        KeepsTrigger context st act)
    ⟨fun h => ⟨h.1, h.2.1, h.2.2⟩, fun h => ⟨h.fresh, h.head, h.trigger⟩⟩

end Decidable

/-! ## Steps -/

section Step

variable {context : Sender → Context} {st base next : State Sender} {act : Action Sender}
variable {event : Event}

variable {signo : Signo}

omit [DecidableEq Sender] in
theorem not_mem_sigMask_of_not_interested (h : Consistent st) (hidle : ¬st.Interested)
    (hqueued : signo ∈ st.signos) : signo ∉ st.sigMask := by
  intro hmask
  exact hidle ⟨signo, Finset.mem_inter.2 ⟨(h.pending signo).2 hqueued, hmask⟩⟩

omit [DecidableEq Sender] in
theorem noneStranded_of_not_interested (h : Consistent st) (hidle : ¬st.Interested) :
    NoneStranded st :=
  fun _ hqueued hmask => absurd hmask (not_mem_sigMask_of_not_interested h hidle hqueued)

omit [DecidableEq Sender] in
theorem siList_ne_nil_of_interested (h : Consistent st) (hint : st.Interested) :
    st.siList ≠ [] := by
  obtain ⟨signo, hmem⟩ := hint
  intro hnil
  have hqueued := (h.pending signo).1 (Finset.mem_inter.1 hmem).1
  simp [State.signos, hnil] at hqueued

omit [DecidableEq Sender] in
/-- Fewer signals, fewer unmasked ones and no fewer triggers strand nothing. -/
theorem NoneStranded.mono (h : NoneStranded st) (hsignos : next.signos ⊆ st.signos)
    (hmask : next.sigMask ⊆ st.sigMask)
    (htriggered : ∀ signo, st.Triggered signo → next.Triggered signo) : NoneStranded next :=
  fun signo hqueued hunmasked =>
    htriggered signo (h signo (hsignos hqueued) (hmask hunmasked))

omit [DecidableEq Sender] in
theorem Drains.signos_subset (h : Drains st next) : next.signos ⊆ st.signos := by
  cases h with
  | kept hlist _ => exact hlist ▸ List.Subset.refl _
  | took front node back hlist hrest _ =>
    rw [State.signos, State.signos, hlist, hrest]
    refine List.map_subset _ (List.append_subset.2 ⟨?_, ?_⟩)
    · exact List.subset_append_left _ _
    · exact List.Subset.trans (List.subset_cons_self _ _) (List.subset_append_right _ _)

variable {cleanState : Bool}

omit [DecidableEq Sender] in
theorem handleLoop_noneStranded (h : Consistent st)
    (hresult : handleLoop cleanState st = (next, event)) : NoneStranded next := by
  rw [handleLoop] at hresult
  split at hresult
  · rename_i hint
    split at hresult
    · rename_i hnil
      exact absurd hnil (siList_ne_nil_of_interested h hint)
    · cases hresult
      exact fun _ _ _ => Or.inr (Or.inr (Or.inr (Or.inl ⟨cleanState, List.mem_cons_self⟩)))
  · rename_i hidle
    cases hresult
    exact noneStranded_of_not_interested ⟨h.pending, h.nodup⟩ hidle

omit [DecidableEq Sender] in
/-- A call of `rt_thread_handle_sig` from inside `rt_signal_wait` strands what the
state before it would. -/
theorem rtThreadHandleSig_noneStranded (h : Consistent st)
    (hwait : st.signalWait ≠ none → NoneStranded st)
    (hresult : rtThreadHandleSig cleanState st = (next, event)) : NoneStranded next := by
  rw [rtThreadHandleSig] at hresult
  split at hresult
  · exact handleLoop_noneStranded h hresult
  · rename_i hskip
    have hstate : NoneStranded st := by
      by_cases hint : st.Interested
      · exact hwait fun hnone => hskip ⟨hint, hnone⟩
      · exact noneStranded_of_not_interested h hint
    split at hresult <;> cases hresult
    · exact hstate
    · refine hstate.mono (List.Subset.refl _) (Finset.Subset.refl _) ?_
      rintro signo (hsender | hpending | hentry | ⟨clean, hframe⟩ | hwaits)
      · exact Or.inl hsender
      · exact Or.inr (Or.inl hpending)
      · exact Or.inr (Or.inr (Or.inl hentry))
      · exact Or.inr (Or.inr (Or.inr (Or.inl ⟨clean, List.mem_cons_of_mem _ hframe⟩)))
      · exact Or.inr (Or.inr (Or.inr (Or.inr hwaits)))

omit [DecidableEq Sender] in
theorem signalDeliver_noneStranded {deliverer : Context} (h : Consistent st)
    (hfree : deliverer = .target → st.signalWait = none)
    (hnothing : DeliversNothing deliverer st → NoneStranded st)
    (hresult : signalDeliver deliverer st = (next, event)) : NoneStranded next := by
  rw [signalDeliver] at hresult
  split at hresult
  · rename_i hidle
    cases hresult
    exact noneStranded_of_not_interested h hidle
  · split at hresult
    · cases hresult
      exact fun _ _ _ => Or.inr (Or.inl rfl)
    · rename_i hrunning
      split at hresult
      · rename_i htarget
        refine rtThreadHandleSig_noneStranded ?_ ?_ hresult
        · exact ⟨h.pending, h.nodup⟩
        · exact fun hwait => absurd (hfree htarget) hwait
      · rename_i hother
        cases hresult
        exact hnothing ⟨by simp [hrunning], fun _ => hother, fun hne => absurd hrunning hne⟩
    · rename_i hsuspend hrunning
      split at hresult
      · rename_i hsignal
        cases hresult
        exact hnothing ⟨hsuspend, fun hrun => absurd hrun hrunning, fun _ => hsignal⟩
      · cases hresult
        exact fun _ _ _ => Or.inr (Or.inr (Or.inl rfl))

variable {set : Finset Signo}

omit [DecidableEq Sender] in
theorem waitTake_sigMask (hresult : waitTake set st = (next, event)) :
    next.sigMask = st.sigMask := by
  rw [waitTake] at hresult
  split at hresult <;> cases hresult <;> rfl

omit [DecidableEq Sender] in
theorem waitTake_triggered (hresult : waitTake set st = (next, event)) (signo : Signo) :
    next.Triggered signo ↔ st.Triggered signo := by
  rw [waitTake] at hresult
  split at hresult <;> cases hresult <;> rfl

omit [DecidableEq Sender] in
/-- The signal that a wait takes is not in the queue any more. -/
theorem waitTake_not_mem (h : Consistent st) (hresult : waitTake set st = (next, event))
    (hfirst : (st.siList.find? fun node => node.signo ∈ set).map SigInfo.signo = some signo) :
    signo ∉ next.signos := by
  intro hqueued
  have hpending := ((h.drains (waitTake_drains hresult)).pending signo).2 hqueued
  obtain ⟨node, hfind, rfl⟩ := Option.map_eq_some_iff.1 hfirst
  rw [waitTake, hfind] at hresult
  cases hresult
  exact absurd rfl (Finset.mem_erase.1 hpending).1

omit [DecidableEq Sender] in
/-- A wait that takes a signal or suspends leaves the other triggers. -/
theorem rtSignalWait_noneStranded {timeout : ℤ} (h : NoneStranded st) (hfree : st.signalWait = none)
    (hresult : rtSignalWait set timeout st = (next, event)) : NoneStranded next := by
  rw [rtSignalWait] at hresult
  split at hresult
  · cases hresult
    exact h
  · split at hresult
    · exact h.mono (waitTake_drains hresult).signos_subset (waitTake_sigMask hresult).subset
        fun signo htriggered => (waitTake_triggered hresult signo).2 htriggered
    · split at hresult <;> cases hresult
      · exact h
      · refine h.mono (List.Subset.refl _) (Finset.Subset.refl _) ?_
        rintro signo (hsender | hpending | hentry | hframe | hwaits)
        · exact Or.inl hsender
        · exact Or.inr (Or.inl hpending)
        · exact Or.inr (Or.inr (Or.inl hentry))
        · exact Or.inr (Or.inr (Or.inr (Or.inl hframe)))
        · rw [State.WaitsFor, hfree] at hwaits
          exact absurd hwaits (Finset.notMem_empty signo)

theorem State.Triggered.setPhase {sender : Sender} {phase : Phase} (h : st.Triggered signo)
    (hphase : st.phase sender ≠ .delivering) : (st.setPhase sender phase).Triggered signo := by
  rcases h with ⟨other, hother⟩ | hrest
  · have hne : other ≠ sender := by
      rintro rfl
      exact hphase hother
    exact Or.inl ⟨other, (update_of_ne hne _ _).trans hother⟩
  · exact Or.inr hrest

/-- The second section of `rt_thread_kill` is followed by a delivery, so it strands
nothing; the other actions are those that the condition speaks of and those that
leave the triggers alone. -/
theorem NoneStranded.step (h : NoneStranded st) (hconsistent : Consistent st)
    (hcareful : Careful context st act)
    (hstep : step context st act = some (next, event)) : NoneStranded next := by
  have htrigger := hcareful.trigger
  cases act with
  | kill sender signo =>
    simp only [Signal.step] at hstep
    split at hstep
    · rename_i henabled
      have hresult := Option.some.inj hstep
      have hsubset := (rtThreadKill_drains hresult).signos_subset
      rw [rtThreadKill] at hresult
      split at hresult <;> cases hresult
      · exact h.mono hsubset (Finset.Subset.refl _) fun _ htriggered => htriggered
      · exact h.mono hsubset (Finset.Subset.refl _)
          fun _ htriggered => htriggered.setPhase (by simp [henabled.2])
    · cases hstep
  | alloc sender found =>
    simp only [Signal.step] at hstep
    split at hstep
    · rename_i signo hphase
      split at hstep
      · have hkeeps : ∀ phase, NoneStranded (st.setPhase sender phase) := fun phase =>
          h.mono (List.Subset.refl _) (Finset.Subset.refl _)
            fun _ htriggered => htriggered.setPhase (by simp [hphase])
        split at hstep <;> cases hstep <;> exact hkeeps _
      · cases hstep
    · cases hstep
  | insert sender =>
    simp only [Signal.step] at hstep
    split at hstep
    · split at hstep <;> cases hstep
      exact fun _ _ _ => Or.inl ⟨sender, update_self ..⟩
    · cases hstep
  | deliver sender =>
    simp only [Signal.step] at hstep
    split at hstep
    · rename_i henabled
      refine signalDeliver_noneStranded ?_ ?_ ?_ (Option.some.inj hstep)
      · exact ⟨hconsistent.pending, hconsistent.nodup⟩
      · intro htarget
        have hfree := henabled.1
        rw [htarget] at hfree
        exact hfree.2.1
      · exact htrigger
    · cases hstep
  | install signo disposition =>
    simp only [Signal.step] at hstep
    split at hstep <;> cases hstep
    exact h
  | mask signo =>
    simp only [Signal.step] at hstep
    split at hstep <;> cases hstep
    exact h.mono (List.Subset.refl _) (Finset.erase_subset _ _) fun _ htriggered => htriggered
  | unmask sender signo =>
    simp only [Signal.step] at hstep
    split at hstep
    · split at hstep
      · cases hstep
        exact fun _ _ _ => Or.inl ⟨sender, update_self ..⟩
      · rename_i hidle
        cases hstep
        exact noneStranded_of_not_interested ⟨hconsistent.pending, hconsistent.nodup⟩ hidle
    · cases hstep
  | wait set timeout =>
    simp only [Signal.step] at hstep
    split at hstep
    · rename_i hfree
      exact rtSignalWait_noneStranded h hfree.2.1 (Option.some.inj hstep)
    · cases hstep
  | endWait timedOut =>
    simp only [Signal.step] at hstep
    split at hstep
    · cases hstep
    · rename_i set hset
      simp only [KeepsTrigger, hset, Option.getD_some] at htrigger
      split at hstep
      · split at hstep
        · rename_i htimedOut
          cases hstep
          intro signo hqueued hmask
          exact (htrigger signo hqueued hmask).resolve_right (by simp [htimedOut])
        · have hresult := Option.some.inj hstep
          intro signo hqueued hmask
          rw [waitTake_sigMask hresult] at hmask
          rw [waitTake_triggered hresult]
          refine (htrigger signo ((waitTake_drains hresult).signos_subset hqueued)
            hmask).resolve_right ?_
          rintro ⟨-, hfirst⟩
          refine waitTake_not_mem ?_ hresult hfirst hqueued
          exact ⟨hconsistent.pending, hconsistent.nodup⟩
      · cases hstep
  | handlerReturns =>
    simp only [Signal.step] at hstep
    split at hstep
    · split at hstep
      · refine handleLoop_noneStranded ?_ (Option.some.inj hstep)
        exact ⟨hconsistent.pending, hconsistent.nodup⟩
      · cases hstep
    · cases hstep
  | leave =>
    simp only [Signal.step] at hstep
    split at hstep
    · rename_i frames hframes
      split at hstep <;> cases hstep
      refine h.mono (List.Subset.refl _) (Finset.Subset.refl _) ?_
      rintro signo (hsender | hpending | hentry | ⟨clean, hframe⟩ | hwaits)
      · exact Or.inl hsender
      · exact Or.inr (Or.inl hpending)
      · exact Or.inr (Or.inr (Or.inl hentry))
      · rw [hframes] at hframe
        exact Or.inr (Or.inr (Or.inr (Or.inl ⟨clean, by simpa using hframe⟩)))
      · exact Or.inr (Or.inr (Or.inr (Or.inr hwaits)))
    · cases hstep
  | block | suspend | resume | switchOut =>
    simp only [Signal.step] at hstep
    split at hstep <;> cases hstep
    exact h
  | switchIn =>
    simp only [Signal.step] at hstep
    split at hstep
    · split at hstep
      · refine rtThreadHandleSig_noneStranded ?_ ?_ (Option.some.inj hstep)
        · exact ⟨hconsistent.pending, hconsistent.nodup⟩
        · exact htrigger
      · rename_i hentry
        cases hstep
        refine h.mono (List.Subset.refl _) (Finset.Subset.refl _) ?_
        rintro signo (hsender | hpending | hentered | hrest)
        · exact Or.inl hsender
        · exact Or.inr (Or.inl hpending)
        · exact absurd hentered hentry
        · exact Or.inr (Or.inr (Or.inr hrest))
    · cases hstep
  | afterSwitch =>
    simp only [Signal.step] at hstep
    split at hstep
    · refine rtThreadHandleSig_noneStranded ?_ ?_ (Option.some.inj hstep)
      · exact ⟨hconsistent.pending, hconsistent.nodup⟩
      · exact htrigger
    · cases hstep

/-- The event is one of the loop of `rt_thread_handle_sig`. -/
def Event.ofLoop : Event → Bool
  | .handled _ _ | .finished => true
  | _ => false

/-- The signals, the mask and the handlers are the same. -/
structure SameSignals (st base : State Sender) : Prop where
  siList : base.siList = st.siList
  sigPending : base.sigPending = st.sigPending
  sigMask : base.sigMask = st.sigMask
  sigVectors : base.sigVectors = st.sigVectors

/-- The loop was entered on these signals and led to the next state. -/
def FromLoop (st next : State Sender) (event : Event) : Prop :=
  ∃ base cleanState, SameSignals st base ∧ handleLoop cleanState base = (next, event)

omit [DecidableEq Sender] in
theorem FromLoop.of_same (h : FromLoop base next event) (hsame : SameSignals st base) :
    FromLoop st next event := by
  obtain ⟨entered, cleanState, hentered, hresult⟩ := h
  exact ⟨entered, cleanState, ⟨hentered.siList.trans hsame.siList,
    hentered.sigPending.trans hsame.sigPending, hentered.sigMask.trans hsame.sigMask,
    hentered.sigVectors.trans hsame.sigVectors⟩, hresult⟩

omit [DecidableEq Sender] in
theorem rtThreadHandleSig_fromLoop (hresult : rtThreadHandleSig cleanState st = (next, event))
    (hloop : event.ofLoop = true) : st.signalWait = none ∧ FromLoop st next event := by
  rw [rtThreadHandleSig] at hresult
  split at hresult
  · rename_i hturns
    exact ⟨hturns.2, st, cleanState, ⟨rfl, rfl, rfl, rfl⟩, hresult⟩
  · split at hresult <;> cases hresult <;> cases hloop

omit [DecidableEq Sender] in
theorem signalDeliver_fromLoop {deliverer : Context}
    (hresult : signalDeliver deliverer st = (next, event)) (hloop : event.ofLoop = true) :
    deliverer = .target ∧ st.stat = .running ∧ FromLoop st next event := by
  rw [signalDeliver] at hresult
  split at hresult
  · cases hresult
    cases hloop
  · split at hresult
    · cases hresult
      cases hloop
    · rename_i hrunning
      split at hresult
      · rename_i htarget
        have hfrom := (rtThreadHandleSig_fromLoop hresult hloop).2
        exact ⟨htarget, hrunning, hfrom.of_same ⟨rfl, rfl, rfl, rfl⟩⟩
      · cases hresult
        cases hloop
    · split at hresult <;> cases hresult <;> cases hloop

omit [DecidableEq Sender] in
theorem waitTake_ofLoop (hresult : waitTake set st = (next, event)) : event.ofLoop = false := by
  rw [waitTake] at hresult
  split at hresult <;> cases hresult <;> rfl

/-- Only the actions that get to the loop emit its events. -/
theorem step_fromLoop (hstep : step context st act = some (next, event))
    (hloop : event.ofLoop = true) :
    TurnsLoop context st act ∧ FromLoop st next event := by
  cases act with
  | deliver sender =>
    simp only [step] at hstep
    split at hstep
    · obtain ⟨htarget, hrunning, hfrom⟩ := signalDeliver_fromLoop (Option.some.inj hstep) hloop
      exact ⟨⟨htarget, hrunning⟩, hfrom.of_same ⟨rfl, rfl, rfl, rfl⟩⟩
    · cases hstep
  | handlerReturns =>
    simp only [step] at hstep
    split at hstep
    · split at hstep
      · refine ⟨trivial, _, _, ?_, Option.some.inj hstep⟩
        exact ⟨rfl, rfl, rfl, rfl⟩
      · cases hstep
    · cases hstep
  | switchIn =>
    simp only [step] at hstep
    split at hstep
    · split at hstep
      · rename_i hentry
        obtain ⟨hwait, hfrom⟩ := rtThreadHandleSig_fromLoop (Option.some.inj hstep) hloop
        exact ⟨⟨hentry, hwait⟩, hfrom.of_same ⟨rfl, rfl, rfl, rfl⟩⟩
      · cases hstep
        cases hloop
    · cases hstep
  | afterSwitch =>
    simp only [step] at hstep
    split at hstep
    · obtain ⟨hwait, hfrom⟩ := rtThreadHandleSig_fromLoop (Option.some.inj hstep) hloop
      exact ⟨hwait, hfrom.of_same ⟨rfl, rfl, rfl, rfl⟩⟩
    · cases hstep
  | kill sender signo =>
    simp only [step] at hstep
    split at hstep
    · rw [rtThreadKill] at hstep
      split at hstep <;> cases hstep <;> cases hloop
    · cases hstep
  | wait set timeout =>
    simp only [step] at hstep
    split at hstep
    · rw [rtSignalWait] at hstep
      split at hstep
      · cases hstep
        cases hloop
      · split at hstep
        · rw [waitTake_ofLoop (Option.some.inj hstep)] at hloop
          cases hloop
        · split at hstep <;> cases hstep <;> cases hloop
    · cases hstep
  | endWait timedOut =>
    simp only [step] at hstep
    split at hstep
    · cases hstep
    · split at hstep
      · split at hstep
        · cases hstep
          cases hloop
        · rw [waitTake_ofLoop (Option.some.inj hstep)] at hloop
          cases hloop
      · cases hstep
  | _ =>
    simp only [step] at hstep
    (repeat' split at hstep) <;> cases hstep <;> cases hloop

omit [DecidableEq Sender] in
theorem SameSignals.interested_iff (h : SameSignals st base) :
    base.Interested ↔ st.Interested := by
  rw [State.Interested, State.Interested, h.sigPending, h.sigMask]

theorem Careful.maskRespected (h : Careful context st act) :
    MaskRespected context st act := by
  intro next signo handler hstep
  obtain ⟨hturns, base, cleanState, hsame, hresult⟩ := step_fromLoop hstep rfl
  rw [handleLoop, hsame.siList, hsame.sigVectors] at hresult
  split at hresult
  · rename_i hint
    split at hresult
    · cases hresult
    · rename_i node rest hlist
      have hunmasked := h.head hturns (hsame.interested_iff.1 hint)
      simp only [HeadUnmasked, hlist] at hunmasked
      rw [Prod.mk.injEq, Event.handled.injEq] at hresult
      obtain ⟨-, rfl, hhandler⟩ := hresult
      exact hunmasked (by rw [hhandler]; rfl)
  · cases hresult

/-- The loop ends only when no unmasked signal is queued. -/
theorem Consistent.loopDrains (h : Consistent st) : LoopDrains context st act := by
  intro next hstep signo hqueued
  obtain ⟨-, base, cleanState, hsame, hresult⟩ := step_fromLoop hstep rfl
  rw [handleLoop] at hresult
  split at hresult
  · rename_i hint
    split at hresult
    · rename_i hnil
      rw [hsame.siList] at hnil
      exact absurd hnil (siList_ne_nil_of_interested h (hsame.interested_iff.1 hint))
    · cases hresult
  · rename_i hidle
    cases hresult
    change signo ∈ base.siList.map SigInfo.signo at hqueued
    change signo ∉ base.sigMask
    rw [hsame.siList] at hqueued
    rw [hsame.sigMask]
    exact not_mem_sigMask_of_not_interested h (fun hint => hidle (hsame.interested_iff.2 hint))
      hqueued

end Step

/-! ## Runs -/

/-- The second sender is the target. -/
def threadAndTarget : Fin 2 → Context
  | 0 => .thread
  | 1 => .target

/-- A handler is installed and unmasked, and another thread sends the signal. -/
def scheduleHandled (thread target : Sender) (signo : Signo) : List (Action Sender) :=
  [.switchIn, .install signo (.user 1), .unmask target signo, .switchOut, .kill thread signo,
    .alloc thread true, .insert thread, .deliver thread, .switchIn, .handlerReturns]

theorem isSome_scheduleHandled : ((machine threadAndTarget).exec (Careful threadAndTarget) init
    (scheduleHandled 0 1 5)).isSome = true := by
  decide

/-- A signal that is masked is queued before one that is not. -/
def scheduleMasked (thread target : Sender) (masked unmasked : Signo) : List (Action Sender) :=
  [.switchIn, .install masked (.user 1), .install unmasked (.user 2), .unmask target unmasked,
    .switchOut, .kill thread masked, .alloc thread true, .insert thread, .deliver thread,
    .kill thread unmasked, .alloc thread true, .insert thread, .deliver thread]

theorem exec_scheduleMasked : ((machine threadAndTarget).exec (fun _ _ => True) init
    (scheduleMasked 0 1 3 5)).map (fun result => (result.2.map Prod.fst,
      decide (3 ∈ result.1.sigMask), (step threadAndTarget result.1 .switchIn).map Prod.snd)) =
        some (scheduleMasked 0 1 3 5, false, some (.handled 3 (some (.user 1)))) := by
  decide

/-- The target waits for one signal and gets another. -/
def scheduleStranded (thread target : Sender) (awaited sent : Signo) : List (Action Sender) :=
  [.switchIn, .install sent (.user 1), .unmask target sent, .wait {awaited} (-1), .kill thread sent,
    .alloc thread true, .insert thread, .deliver thread, .switchIn, .afterSwitch,
    .endWait false]

theorem exec_scheduleStranded : ((machine threadAndTarget).exec (fun _ _ => True) init
    (scheduleStranded 0 1 1 2)).map (fun result => (result.2.map Prod.fst,
      decide (NoneStranded result.1))) = some (scheduleStranded 0 1 1 2, false) := by
  decide

end RtThread.Signal
