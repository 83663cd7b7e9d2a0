import RtThread.Scheduler.Smp

set_option linter.all false

/-!
# The pick of a thread with several processors

With `RT_USING_SMP`, `_get_highest_priority_thread` searches the bitmaps of the global
queue and of the processor's own queue before it knows which of them has a thread.  An
empty queue gives the number `-1` of a group: with two levels it is an index outside the
ready table, and whatever byte is read there, the priority calculated from it is larger
than any other.
-/

namespace RtThread.Scheduler

open RtThread.Core
open RtThread.Core.Bitmap

/-- The bits of `rt_ubase_t`. -/
def ubaseBits (archCpu64bit : Bool) : ℕ :=
  if archCpu64bit then 64 else 32

/-- An access to a table: the index and the length of the table. -/
structure TableAccess where
  index : ℕ
  length : ℕ
  deriving DecidableEq

def TableAccess.Inside (access : TableAccess) : Prop :=
  access.index < access.length

instance (access : TableAccess) : Decidable access.Inside :=
  inferInstanceAs (Decidable (_ < _))

/-- The thread, `*highest_prio` and the accesses to the ready tables and to the priority
tables. -/
structure Pick (Tid : Type*) where
  thread : Option Tid
  highestPrio : ℕ
  accesses : List TableAccess
  deriving DecidableEq

namespace ReadyQueue

variable {Tid : Type*}

/-- The byte at an index of the ready table; `outside` is the memory around it. -/
def readyByte (queue : ReadyQueue Tid) (outside : ℕ → BitVec 8) (number : ℕ) : BitVec 8 :=
  if number < 32 then queue.readyTable number else outside number

/-- The search of `_get_highest_priority_thread` in the bitmaps of one queue, in the
arithmetic of `rt_ubase_t`. -/
def searchBitmaps (cfg : Config) (archCpu64bit : Bool) (outside : ℕ → BitVec 8)
    (queue : ReadyQueue Tid) : BitVec (ubaseBits archCpu64bit) × List TableAccess :=
  if cfg.twoLevel then
    let number := BitVec.ofNat (ubaseBits archCpu64bit) (rtFfs queue.priorityGroup) - 1
    let byte := queue.readyByte outside number.toNat
    ((number <<< 3) + BitVec.ofNat (ubaseBits archCpu64bit) (rtFfs (byte.setWidth 32)) - 1,
      [⟨number.toNat, 32⟩])
  else (BitVec.ofNat (ubaseBits archCpu64bit) (rtFfs queue.priorityGroup) - 1, [])

/-- Some thread of the queue is ready. -/
def Ready (queue : ReadyQueue Tid) : Prop :=
  ∃ priority, queue.Present priority

end ReadyQueue

namespace Smp

variable {Tid : Type*} {cfg : Config}

/-- `_get_highest_priority_thread` with `RT_USING_SMP`. -/
def getHighestPriorityThread (cfg : Config) (archCpu64bit : Bool)
    (globalOutside cpuOutside : ℕ → BitVec 8) (global pcpu : ReadyQueue Tid) : Pick Tid :=
  let highest := global.searchBitmaps cfg archCpu64bit globalOutside
  let localHighest := pcpu.searchBitmaps cfg archCpu64bit cpuOutside
  let searches := highest.2 ++ localHighest.2
  if highest.1 < localHighest.1 then
    { thread := (global.priorityTable highest.1.toNat).head?
      highestPrio := highest.1.toNat
      accesses := searches ++ [⟨highest.1.toNat, cfg.priorityMax⟩] }
  else
    { thread := (pcpu.priorityTable localHighest.1.toNat).head?
      highestPrio := localHighest.1.toNat
      accesses := searches ++ [⟨localHighest.1.toNat, cfg.priorityMax⟩] }

/-- A queue with `priorityMax` lists whose bitmaps tell which of them are empty. -/
structure RightQueue (cfg : Config) (Tid : Type*) where
  queue : ReadyQueue Tid
  represents : queue.Represents cfg
  outside_empty : ∀ priority, cfg.priorityMax ≤ priority → queue.priorityTable priority = []

namespace RightQueue

/-- The queue of a system that has just been initialized. -/
def empty (cfg : Config) (Tid : Type*) : RightQueue cfg Tid where
  queue := .empty
  represents := ReadyQueue.represents_empty cfg
  outside_empty := fun _ _ => rfl

/-- A thread enters a queue. -/
def insert (right : RightQueue cfg Tid) (priority : Fin cfg.priorityMax) (tid : Tid) :
    RightQueue cfg Tid where
  queue := right.queue.insert cfg (.calculate priority) tid
  represents := ReadyQueue.represents_insert right.represents priority tid
  outside_empty := by
    intro other hout
    have hne : other ≠ priority.val := by
      have hlt := priority.isLt
      omega
    rw [ReadyQueue.priorityTable_insert, currentPriority_calculate, if_neg hne]
    exact right.outside_empty other hout

theorem ready_insert (right : RightQueue cfg Tid) (priority : Fin cfg.priorityMax)
    (tid : Tid) : (right.insert priority tid).queue.Ready := by
  refine ⟨priority.val, ?_⟩
  rw [ReadyQueue.Present, insert, ReadyQueue.priorityTable_insert, currentPriority_calculate,
    if_pos rfl]
  exact List.append_ne_nil_of_right_ne_nil _ (List.cons_ne_nil _ _)

/-- The queues of every state that satisfies the invariant of the ready queues. -/
def ofInv {cpusNr : ℕ} {st : State cfg cpusNr Tid} (hinv : Inv st)
    (place : Option (Fin cpusNr)) : RightQueue cfg Tid where
  queue := st.queue place
  represents := hinv.right place
  outside_empty := by
    intro priority hout
    refine List.eq_nil_iff_forall_not_mem.2 fun tid hmem => ?_
    have hlt := (st.threads tid).attributes.currentPriority.isLt
    rw [← (hinv.placed place priority tid hmem).2] at hlt
    omega

variable (right : RightQueue cfg Tid)

theorem lt_of_present {priority : ℕ} (hpresent : right.queue.Present priority) :
    priority < cfg.priorityMax := by
  by_contra hout
  exact hpresent (right.outside_empty priority (not_lt.1 hout))

theorem group_ne_zero_iff : right.queue.priorityGroup ≠ 0 ↔ right.queue.Ready :=
  right.represents.ne_zero_iff

end RightQueue

/-! ## The search in one queue -/

theorem rtFfs_le (value : BitVec 32) : rtFfs value ≤ 32 := by
  by_cases hzero : value = 0
  · rw [hzero, rtFfs, if_pos rfl]
    omega
  · have hlt : rtFfs value - 1 < 32 := BitVec.lt_of_getLsbD (isFirst_rtFfs hzero).1
    omega

theorem rtFfs_byte_le (byte : BitVec 8) : rtFfs (byte.setWidth 32) ≤ 8 := by
  by_cases hzero : byte.setWidth 32 = 0
  · rw [hzero, rtFfs, if_pos rfl]
    omega
  · have hbit := (isFirst_rtFfs hzero).1
    rw [BitVec.getLsbD_setWidth, Bool.and_eq_true] at hbit
    have hlt : rtFfs (byte.setWidth 32) - 1 < 8 := BitVec.lt_of_getLsbD hbit.2
    omega

theorem ubaseBits_cases (archCpu64bit : Bool) :
    2 ^ ubaseBits archCpu64bit = 2 ^ 32 ∨ 2 ^ ubaseBits archCpu64bit = 2 ^ 64 := by
  cases archCpu64bit
  · exact .inl rfl
  · exact .inr rfl

section Words

variable (archCpu64bit : Bool) {found : ℕ}

theorem toNat_one : (1 : BitVec (ubaseBits archCpu64bit)).toNat = 1 := by
  cases archCpu64bit <;> rfl

theorem toNat_found (hpos : 0 < found) (hle : found ≤ 32) :
    (BitVec.ofNat (ubaseBits archCpu64bit) found - 1).toNat = found - 1 := by
  have hbits := ubaseBits_cases archCpu64bit
  rw [BitVec.toNat_sub, BitVec.toNat_ofNat, toNat_one]
  rcases hbits with hbits | hbits <;> rw [hbits] <;> omega

theorem toNat_not_found :
    (BitVec.ofNat (ubaseBits archCpu64bit) 0 - 1).toNat = 2 ^ ubaseBits archCpu64bit - 1 := by
  cases archCpu64bit <;> rfl

theorem toNat_priority {number : BitVec (ubaseBits archCpu64bit)} (hpos : 0 < found)
    (hle : found ≤ 8) (hnumber : number.toNat < 32) :
    ((number <<< 3) + BitVec.ofNat (ubaseBits archCpu64bit) found - 1).toNat =
      (number.toNat <<< 3) + found - 1 := by
  have hbits := ubaseBits_cases archCpu64bit
  rw [BitVec.toNat_sub, BitVec.toNat_add, BitVec.toNat_shiftLeft, BitVec.toNat_ofNat,
    toNat_one, Nat.shiftLeft_eq]
  rcases hbits with hbits | hbits <;> rw [hbits] <;> omega

/-- The group `-1` gives a priority that no thread has, with any byte. -/
theorem priorityMax_le_toNat (cfg : Config) (hle : found ≤ 8) :
    cfg.priorityMax ≤ (((BitVec.ofNat (ubaseBits archCpu64bit) 0 - 1) <<< 3) +
      BitVec.ofNat (ubaseBits archCpu64bit) found - 1).toNat := by
  have hbits := ubaseBits_cases archCpu64bit
  have hmax := cfg.priorityMax_le
  rw [BitVec.toNat_sub, BitVec.toNat_add, BitVec.toNat_shiftLeft, toNat_not_found,
    BitVec.toNat_ofNat, toNat_one, Nat.shiftLeft_eq]
  rcases hbits with hbits | hbits <;> rw [hbits] <;> omega

end Words

section Search

variable (archCpu64bit : Bool) (outside : ℕ → BitVec 8) {right : RightQueue cfg Tid}

/-- A queue with a thread: the search stays inside the table and finds its smallest
priority. -/
theorem searchBitmaps_of_ready (hready : right.queue.Ready) :
    (right.queue.searchBitmaps cfg archCpu64bit outside).1.toNat =
        right.queue.highestReadyPriority cfg ∧
      ∀ access ∈ (right.queue.searchBitmaps cfg archCpu64bit outside).2, access.Inside := by
  have hgroup := right.group_ne_zero_iff.2 hready
  have hfound := toNat_found archCpu64bit (ReadyQueue.rtFfs_pos hgroup) (rtFfs_le _)
  have hnumber : rtFfs right.queue.priorityGroup - 1 < 32 :=
    BitVec.lt_of_getLsbD (isFirst_rtFfs hgroup).1
  rw [ReadyQueue.searchBitmaps, ReadyQueue.highestReadyPriority]
  split
  · next hlevel =>
      -- the bit of the group tells that the byte is not zero
      have hbyte : right.queue.readyTable (rtFfs right.queue.priorityGroup - 1) ≠ 0 :=
        ((right.represents.twoLevel hlevel).group_iff _).1 (isFirst_rtFfs hgroup).1
      have hword : (right.queue.readyTable
          (rtFfs right.queue.priorityGroup - 1)).setWidth 32 ≠ 0 := by
        intro hzero
        apply hbyte
        apply BitVec.eq_of_toNat_eq
        have hnat := congrArg BitVec.toNat hzero
        rw [BitVec.toNat_setWidth_of_le (by omega)] at hnat
        exact hnat
      dsimp only
      rw [hfound]
      have hread : right.queue.readyByte outside (rtFfs right.queue.priorityGroup - 1) =
          right.queue.readyTable (rtFfs right.queue.priorityGroup - 1) := if_pos hnumber
      rw [hread, toNat_priority archCpu64bit (ReadyQueue.rtFfs_pos hword) (rtFfs_byte_le _)
        (by rw [hfound]; exact hnumber), hfound]
      refine ⟨rfl, fun access hmem => ?_⟩
      rw [List.mem_singleton.1 hmem]
      exact hnumber
  · exact ⟨hfound, fun access hmem => absurd hmem List.not_mem_nil⟩

/-- An empty queue: the search gives a priority that no thread has. -/
theorem searchBitmaps_of_not_ready (hready : ¬ right.queue.Ready) :
    cfg.priorityMax ≤ (right.queue.searchBitmaps cfg archCpu64bit outside).1.toNat := by
  have hgroup : right.queue.priorityGroup = 0 :=
    not_ne_iff.1 fun hne => hready (right.group_ne_zero_iff.1 hne)
  have hffs : rtFfs right.queue.priorityGroup = 0 := by
    rw [hgroup, rtFfs, if_pos rfl]
  rw [ReadyQueue.searchBitmaps, hffs]
  split
  · exact priorityMax_le_toNat archCpu64bit cfg (rtFfs_byte_le _)
  · have hmax := cfg.priorityMax_le
    have hbits := ubaseBits_cases archCpu64bit
    dsimp only
    rw [toNat_not_found]
    rcases hbits with hbits | hbits <;> rw [hbits] <;> omega

/-- With two levels, the search in an empty queue reads outside the ready table. -/
theorem not_inside_of_not_ready (hlevel : cfg.twoLevel) (hready : ¬ right.queue.Ready) :
    ∃ access ∈ (right.queue.searchBitmaps cfg archCpu64bit outside).2,
      ¬ access.Inside := by
  have hgroup : right.queue.priorityGroup = 0 :=
    not_ne_iff.1 fun hne => hready (right.group_ne_zero_iff.1 hne)
  have hffs : rtFfs right.queue.priorityGroup = 0 := by
    rw [hgroup, rtFfs, if_pos rfl]
  rw [ReadyQueue.searchBitmaps, if_pos hlevel, hffs]
  refine ⟨_, List.mem_singleton_self _, fun hinside => ?_⟩
  have hlt : (BitVec.ofNat (ubaseBits archCpu64bit) 0 - 1).toNat < 32 := hinside
  rw [toNat_not_found] at hlt
  have hbits := ubaseBits_cases archCpu64bit
  omega

/-- Only the second level is read through the number of a group. -/
theorem inside_of_not_twoLevel (hlevel : ¬ cfg.twoLevel) (queue : ReadyQueue Tid) :
    ∀ access ∈ (queue.searchBitmaps cfg archCpu64bit outside).2, access.Inside := by
  rw [ReadyQueue.searchBitmaps, if_neg hlevel]
  exact fun access hmem => absurd hmem List.not_mem_nil

/-- The list that the search finds is the first that is not empty. -/
theorem present_searchBitmaps (hready : right.queue.Ready) :
    right.queue.Present (right.queue.searchBitmaps cfg archCpu64bit outside).1.toNat ∧
      ∀ priority < (right.queue.searchBitmaps cfg archCpu64bit outside).1.toNat,
        ¬ right.queue.Present priority := by
  rw [(searchBitmaps_of_ready archCpu64bit outside hready).1]
  exact right.represents.highestReadyPriority (right.group_ne_zero_iff.2 hready)

end Search

/-! ## The choice between the queues -/

/-- What the pick of a thread is for. -/
structure Picks (global pcpu : ReadyQueue Tid) (pick : Pick Tid) : Prop where
  inside : ∀ access ∈ pick.accesses, access.Inside
  /-- The thread is the head of the list of `highestPrio` in one of the queues. -/
  head : ∃ tid, pick.thread = some tid ∧
    ((global.priorityTable pick.highestPrio).head? = some tid ∨
      (pcpu.priorityTable pick.highestPrio).head? = some tid)
  least : ∀ priority < pick.highestPrio, ¬ global.Present priority ∧ ¬ pcpu.Present priority

section Choice

variable (archCpu64bit : Bool) (globalOutside cpuOutside : ℕ → BitVec 8)
  {global pcpu : RightQueue cfg Tid}

theorem head_of_present {queue : ReadyQueue Tid} {priority : ℕ}
    (hpresent : queue.Present priority) :
    ∃ tid, (queue.priorityTable priority).head? = some tid :=
  ⟨_, List.head?_eq_some_head hpresent⟩

/-- Whatever the memory outside the tables holds, the queue that has the first thread is
chosen. -/
theorem getHighestPriorityThread_cases (hready : global.queue.Ready ∨ pcpu.queue.Ready) :
    ∃ chosen priority,
      (chosen = global ∨ chosen = pcpu) ∧ chosen.queue.Present priority ∧
      (∀ lower < priority, ¬ global.queue.Present lower ∧ ¬ pcpu.queue.Present lower) ∧
      getHighestPriorityThread cfg archCpu64bit globalOutside cpuOutside global.queue
          pcpu.queue =
        { thread := (chosen.queue.priorityTable priority).head?
          highestPrio := priority
          accesses :=
            (global.queue.searchBitmaps cfg archCpu64bit globalOutside).2 ++
              (pcpu.queue.searchBitmaps cfg archCpu64bit cpuOutside).2 ++
              [⟨priority, cfg.priorityMax⟩] } := by
  have hnone : ∀ {right : RightQueue cfg Tid} (outside : ℕ → BitVec 8) {lower : ℕ},
      lower < (right.queue.searchBitmaps cfg archCpu64bit outside).1.toNat →
      ¬ right.queue.Present lower := by
    intro right outside lower hlt hpresent
    by_cases hone : right.queue.Ready
    · exact (present_searchBitmaps archCpu64bit outside hone).2 lower hlt hpresent
    · exact hone ⟨lower, hpresent⟩
  have hbound : ∀ {right : RightQueue cfg Tid} (outside : ℕ → BitVec 8),
      right.queue.Ready →
      (right.queue.searchBitmaps cfg archCpu64bit outside).1.toNat < cfg.priorityMax :=
    fun outside hone => RightQueue.lt_of_present _
      (present_searchBitmaps archCpu64bit outside hone).1
  simp only [getHighestPriorityThread]
  split
  · next hlt =>
      rw [BitVec.lt_def] at hlt
      have hglobal : global.queue.Ready := by
        by_contra hempty
        have hlarge := searchBitmaps_of_not_ready archCpu64bit globalOutside hempty
        have hsmall := hbound cpuOutside (hready.resolve_left hempty)
        omega
      exact ⟨global, _, .inl rfl, (present_searchBitmaps archCpu64bit globalOutside hglobal).1,
        fun lower hlower => ⟨hnone globalOutside hlower,
          hnone cpuOutside (hlower.trans hlt)⟩, rfl⟩
  · next hge =>
      rw [BitVec.lt_def, not_lt] at hge
      have hpcpu : pcpu.queue.Ready := by
        by_contra hempty
        have hlarge := searchBitmaps_of_not_ready archCpu64bit cpuOutside hempty
        have hsmall := hbound globalOutside (hready.resolve_right hempty)
        omega
      exact ⟨pcpu, _, .inr rfl, (present_searchBitmaps archCpu64bit cpuOutside hpcpu).1,
        fun lower hlower => ⟨hnone globalOutside (hlower.trans_le hge),
          hnone cpuOutside hlower⟩, rfl⟩

/-- The pick is right when no search reads outside a table. -/
theorem picks_getHighestPriorityThread (hready : global.queue.Ready ∨ pcpu.queue.Ready)
    (hboth : cfg.twoLevel → global.queue.Ready ∧ pcpu.queue.Ready) :
    Picks global.queue pcpu.queue
      (getHighestPriorityThread cfg archCpu64bit globalOutside cpuOutside global.queue
        pcpu.queue) := by
  obtain ⟨chosen, priority, hchosen, hpresent, hleast, hpick⟩ :=
    getHighestPriorityThread_cases archCpu64bit globalOutside cpuOutside hready
  rw [hpick]
  have hsearch : ∀ access ∈
      (global.queue.searchBitmaps cfg archCpu64bit globalOutside).2 ++
        (pcpu.queue.searchBitmaps cfg archCpu64bit cpuOutside).2, access.Inside := by
    intro access hmem
    by_cases hlevel : cfg.twoLevel
    · obtain ⟨hglobal, hpcpu⟩ := hboth hlevel
      rcases List.mem_append.1 hmem with hmem | hmem
      · exact (searchBitmaps_of_ready archCpu64bit globalOutside hglobal).2 access hmem
      · exact (searchBitmaps_of_ready archCpu64bit cpuOutside hpcpu).2 access hmem
    · rcases List.mem_append.1 hmem with hmem | hmem
      · exact inside_of_not_twoLevel archCpu64bit globalOutside hlevel _ access hmem
      · exact inside_of_not_twoLevel archCpu64bit cpuOutside hlevel _ access hmem
  refine ⟨fun access hmem => ?_, ?_, hleast⟩
  · rcases List.mem_append.1 hmem with hmem | hmem
    · exact hsearch access hmem
    · rw [List.mem_singleton.1 hmem]
      exact chosen.lt_of_present hpresent
  · obtain ⟨tid, htid⟩ := head_of_present hpresent
    refine ⟨tid, htid, ?_⟩
    rcases hchosen with rfl | rfl
    · exact .inl htid
    · exact .inr htid

/-- For any contents of the two queues with at least one ready thread: the pick stays
inside the tables and is the head of the first list of both queues exactly when there
is one level only, or each of the queues has a thread. -/
theorem smp_pick_iff (hready : global.queue.Ready ∨ pcpu.queue.Ready) :
    Picks global.queue pcpu.queue
        (getHighestPriorityThread cfg archCpu64bit globalOutside cpuOutside global.queue
          pcpu.queue) ↔
      (cfg.twoLevel → global.queue.Ready ∧ pcpu.queue.Ready) := by
  refine ⟨fun hpicks hlevel => ?_,
    picks_getHighestPriorityThread archCpu64bit globalOutside cpuOutside hready⟩
  obtain ⟨chosen, priority, -, -, -, hpick⟩ :=
    getHighestPriorityThread_cases archCpu64bit globalOutside cpuOutside hready
  rw [hpick] at hpicks
  by_contra hempty
  rcases not_and_or.1 hempty with hempty | hempty
  · obtain ⟨access, hmem, hout⟩ :=
      not_inside_of_not_ready archCpu64bit globalOutside hlevel hempty
    exact hout (hpicks.inside access (List.mem_append_left _ (List.mem_append_left _ hmem)))
  · obtain ⟨access, hmem, hout⟩ :=
      not_inside_of_not_ready archCpu64bit cpuOutside hlevel hempty
    exact hout (hpicks.inside access (List.mem_append_left _ (List.mem_append_right _ hmem)))

/-- The pick of a processor in the states of the runs of `Smp`. -/
theorem Inv.picks {cpusNr : ℕ} {st : State cfg cpusNr Tid} (hinv : Inv st)
    (cpu : Fin cpusNr) (hready : st.global.Ready ∨ (st.cpus cpu).Ready)
    (hboth : cfg.twoLevel → st.global.Ready ∧ (st.cpus cpu).Ready) :
    Picks st.global (st.cpus cpu)
      (getHighestPriorityThread cfg archCpu64bit globalOutside cpuOutside st.global
        (st.cpus cpu)) :=
  @picks_getHighestPriorityThread _ _ archCpu64bit globalOutside cpuOutside
    (RightQueue.ofInv hinv none) (RightQueue.ofInv hinv (some cpu)) hready hboth

/-- In every run whose removals fit, with a thread in both queues: the pick of every processor
stays inside the tables and is the head of the first list of the two queues. -/
theorem smp_picks_of_run [DecidableEq Tid] (hlevel : cfg.twoLevel) {cpusNr : ℕ}
    {priority : Tid → Fin cfg.priorityMax} {bindCpu : Tid → Option (Fin cpusNr)}
    {trace : List (Action cfg cpusNr Tid × Unit)} {st : State cfg cpusNr Tid}
    (hrun : (machine cfg cpusNr).RunWith RemovalFits (initial priority bindCpu) trace st)
    (cpu : Fin cpusNr) (hglobal : st.global.Ready) (hcpu : (st.cpus cpu).Ready) :
    Picks st.global (st.cpus cpu)
      (getHighestPriorityThread cfg archCpu64bit globalOutside cpuOutside st.global
        (st.cpus cpu)) := by
  have hinv := hrun.invariant Inv
    (fun _ _ _ _ hinv hfits hstep => inv_step hlevel hinv hfits hstep)
    (inv_initial priority bindCpu)
  exact hinv.picks archCpu64bit globalOutside cpuOutside cpu (.inl hglobal)
    fun _ => ⟨hglobal, hcpu⟩

end Choice

/-- Two processors, a thread in the global queue and one bound to the first processor. -/
theorem smp_picks_of_run_unbound :
    ∃ trace, ∃ st : State config256 2 (Fin 2),
      (machine config256 2).RunWith RemovalFits
        (initial twoPriorities fun tid => if tid = 0 then none else some 0) trace st ∧
      Picks st.global (st.cpus 0)
        (getHighestPriorityThread config256 false (fun _ => 0) (fun _ => 0) st.global
          (st.cpus 0)) := by
  have hrun : (machine config256 2).RunWith RemovalFits
      (initial twoPriorities fun tid => if tid = 0 then none else some 0) _ _ :=
    .cons (show RemovalFits _ (.insert 0) from trivial) rfl
      (.cons (show RemovalFits _ (.insert 1) from trivial) rfl (.nil _))
  exact ⟨_, _, hrun, smp_picks_of_run false _ _ (by decide) hrun 0 ⟨0, List.cons_ne_nil 0 []⟩
    ⟨1, List.cons_ne_nil 1 []⟩⟩

/-- Both queues have a thread, of 256 priorities. -/
theorem smp_pick_iff_both :
    let global := (RightQueue.empty config256 ℕ).insert ⟨200, by decide⟩ 7
    let pcpu := (RightQueue.empty config256 ℕ).insert ⟨3, by decide⟩ 8
    (global.queue.Ready ∨ pcpu.queue.Ready) ∧
      (Picks global.queue pcpu.queue
          (getHighestPriorityThread config256 false (fun _ => 0) (fun _ => 0) global.queue
            pcpu.queue) ↔
        (config256.twoLevel → global.queue.Ready ∧ pcpu.queue.Ready)) := by
  intro global pcpu
  have hready : global.queue.Ready ∨ pcpu.queue.Ready := .inl (RightQueue.ready_insert _ _ _)
  exact ⟨hready, smp_pick_iff false _ _ hready⟩

/-- 256 priorities, one thread in the queue of the processor and none in the global one:
the thread is found, after a read before the beginning of the global ready table. -/
theorem empty_queue_reads_outside :
    let global := RightQueue.empty config256 ℕ
    let pcpu := (RightQueue.empty config256 ℕ).insert ⟨3, by decide⟩ 8
    pcpu.queue.Ready ∧
      getHighestPriorityThread config256 false (fun _ => 0) (fun _ => 0) global.queue
          pcpu.queue =
        { thread := some 8
          highestPrio := 3
          accesses := [⟨2 ^ 32 - 1, 32⟩, ⟨0, 32⟩, ⟨3, 256⟩] } ∧
      ¬ Picks global.queue pcpu.queue
        (getHighestPriorityThread config256 false (fun _ => 0) (fun _ => 0) global.queue
          pcpu.queue) := by
  intro global pcpu
  have hpick : getHighestPriorityThread config256 false (fun _ => 0) (fun _ => 0) global.queue
      pcpu.queue =
        { thread := some 8
          highestPrio := 3
          accesses := [⟨2 ^ 32 - 1, 32⟩, ⟨0, 32⟩, ⟨3, 256⟩] } := by
    decide
  refine ⟨RightQueue.ready_insert _ _ _, hpick, fun hpicks => ?_⟩
  rw [hpick] at hpicks
  have hinside := hpicks.inside ⟨2 ^ 32 - 1, 32⟩ List.mem_cons_self
  exact absurd hinside (by decide)

end Smp

end RtThread.Scheduler
