import RtThread.Core.Bitmap

set_option linter.all false

/-!
# The ready queue

`scheduler.c` and `__rt_ffs` of `kservice.c`: the lists of ready threads, one for each
priority, and the bitmaps that tell which of them are not empty, in one level for at
most 32 priorities and in two for more.
-/

namespace RtThread.Scheduler

open Function
open RtThread.Core
open RtThread.Core.Bitmap

/-- `RT_THREAD_PRIORITY_MAX`. -/
structure Config where
  priorityMax : ℕ
  priorityMax_le : priorityMax ≤ 256

/-- The build has the table of the second level. -/
def Config.twoLevel (cfg : Config) : Prop :=
  32 < cfg.priorityMax

instance (cfg : Config) : Decidable cfg.twoLevel :=
  inferInstanceAs (Decidable (32 < cfg.priorityMax))

/-- 256 priorities. -/
def config256 : Config where
  priorityMax := 256
  priorityMax_le := le_rfl

/-- `__lowest_bit_bitmap`. -/
def lowestBitBitmap : List ℕ :=
  [0, 0, 1, 0, 2, 0, 1, 0, 3, 0, 1, 0, 2, 0, 1, 0,
   4, 0, 1, 0, 2, 0, 1, 0, 3, 0, 1, 0, 2, 0, 1, 0,
   5, 0, 1, 0, 2, 0, 1, 0, 3, 0, 1, 0, 2, 0, 1, 0,
   4, 0, 1, 0, 2, 0, 1, 0, 3, 0, 1, 0, 2, 0, 1, 0,
   6, 0, 1, 0, 2, 0, 1, 0, 3, 0, 1, 0, 2, 0, 1, 0,
   4, 0, 1, 0, 2, 0, 1, 0, 3, 0, 1, 0, 2, 0, 1, 0,
   5, 0, 1, 0, 2, 0, 1, 0, 3, 0, 1, 0, 2, 0, 1, 0,
   4, 0, 1, 0, 2, 0, 1, 0, 3, 0, 1, 0, 2, 0, 1, 0,
   7, 0, 1, 0, 2, 0, 1, 0, 3, 0, 1, 0, 2, 0, 1, 0,
   4, 0, 1, 0, 2, 0, 1, 0, 3, 0, 1, 0, 2, 0, 1, 0,
   5, 0, 1, 0, 2, 0, 1, 0, 3, 0, 1, 0, 2, 0, 1, 0,
   4, 0, 1, 0, 2, 0, 1, 0, 3, 0, 1, 0, 2, 0, 1, 0,
   6, 0, 1, 0, 2, 0, 1, 0, 3, 0, 1, 0, 2, 0, 1, 0,
   4, 0, 1, 0, 2, 0, 1, 0, 3, 0, 1, 0, 2, 0, 1, 0,
   5, 0, 1, 0, 2, 0, 1, 0, 3, 0, 1, 0, 2, 0, 1, 0,
   4, 0, 1, 0, 2, 0, 1, 0, 3, 0, 1, 0, 2, 0, 1, 0]

/-- `__rt_ffs`. -/
def rtFfs (value : BitVec 32) : ℕ :=
  if value = 0 then 0
  else if value &&& 0xff ≠ 0 then
    lowestBitBitmap.getD (value &&& 0xff).toNat 0 + 1
  else if value &&& 0xff00 ≠ 0 then
    lowestBitBitmap.getD ((value &&& 0xff00) >>> 8).toNat 0 + 9
  else if value &&& 0xff0000 ≠ 0 then
    lowestBitBitmap.getD ((value &&& 0xff0000) >>> 16).toNat 0 + 17
  else lowestBitBitmap.getD ((value &&& 0xff000000) >>> 24).toNat 0 + 25

instance {w : ℕ} (word : BitVec w) (i : ℕ) : Decidable (IsFirst word i) :=
  inferInstanceAs (Decidable (_ ∧ _))

/-- A number whose remainder is a power of two has its lowest bit there. -/
theorem isFirst_of_mod {byte : BitVec 8} {lowest : ℕ}
    (hmod : byte.toNat % 2 ^ (lowest + 1) = 2 ^ lowest) : IsFirst byte lowest := by
  have hbits (i : ℕ) (hi : i ≤ lowest) : byte.getLsbD i = decide (lowest = i) := by
    have hbit := Nat.testBit_mod_two_pow byte.toNat (lowest + 1) i
    rw [hmod, Nat.testBit_two_pow, decide_eq_true (Nat.lt_succ_of_le hi), Bool.true_and] at hbit
    exact hbit.symm
  refine ⟨by simp [hbits lowest le_rfl], fun i hi => ?_⟩
  rw [hbits i hi.le, decide_eq_false_iff_not]
  exact hi.ne'

theorem lowestBitBitmap_mod : ∀ entry ∈ lowestBitBitmap.zipIdx, entry.2 ≠ 0 →
    entry.2 % 2 ^ (entry.1 + 1) = 2 ^ entry.1 := by
  decide +kernel

theorem isFirst_lowestBitBitmap (byte : BitVec 8) (hne : byte ≠ 0) :
    IsFirst byte (lowestBitBitmap.getD byte.toNat 0) := by
  have hsize : lowestBitBitmap.length = 2 ^ 8 := by decide +kernel
  have hlength : byte.toNat < lowestBitBitmap.length := hsize ▸ byte.isLt
  have hbyte : byte.toNat ≠ 0 := BitVec.toNat_ne.1 hne
  rw [List.getD_eq_getElem _ _ hlength]
  exact isFirst_of_mod (lowestBitBitmap_mod (_, byte.toNat)
    (List.mk_mem_zipIdx_iff_getElem?.2 (List.getElem?_eq_getElem hlength)) hbyte)

theorem getLsbD_byteMask {start : ℕ} (hstart : start ≤ 24) (i : ℕ) :
    (0xff#32 <<< start).getLsbD i = true ↔ start ≤ i ∧ i < start + 8 := by
  have hbyte : ∀ j < 32, (0xff#32).getLsbD j = decide (j < 8) := by decide
  rw [BitVec.getLsbD_shiftLeft]
  by_cases hi : i < 32
  · rw [hbyte (i - start) (by omega)]
    simp only [hi, decide_true, Bool.true_and, Bool.and_eq_true, Bool.not_eq_true',
      decide_eq_false_iff_not, decide_eq_true_eq]
    omega
  · simp only [hi, decide_false, Bool.false_and, Bool.false_eq_true, false_iff]
    omega

section Byte

variable (value : BitVec 32) {start : ℕ} (hstart : start ≤ 24)

include hstart

theorem toNat_byte :
    ((value &&& 0xff#32 <<< start) >>> start).toNat = (value.extractLsb' start 8).toNat := by
  have hword : (value &&& 0xff#32 <<< start) >>> start =
      (value.extractLsb' start 8).setWidth 32 := by
    apply BitVec.eq_of_getLsbD_eq
    intro i hi
    rw [Bool.eq_iff_iff, BitVec.getLsbD_ushiftRight, BitVec.getLsbD_and, Bool.and_eq_true,
      getLsbD_byteMask hstart, BitVec.getLsbD_setWidth, BitVec.getLsbD_extractLsb']
    simp only [hi, decide_true, Bool.true_and, Bool.and_eq_true, decide_eq_true_eq]
    constructor
    · rintro ⟨hbit, -, hlt⟩
      exact ⟨by omega, hbit⟩
    · rintro ⟨hlt, hbit⟩
      exact ⟨hbit, by omega, by omega⟩
  have hlt := (value.extractLsb' start 8).isLt
  rw [hword, BitVec.toNat_setWidth]
  omega

theorem byte_ne_zero_iff :
    value &&& 0xff#32 <<< start ≠ 0 ↔ value.extractLsb' start 8 ≠ 0 := by
  rw [Bitmap.ne_zero_iff, Bitmap.ne_zero_iff]
  constructor
  · rintro ⟨i, hi⟩
    rw [BitVec.getLsbD_and, Bool.and_eq_true, getLsbD_byteMask hstart] at hi
    refine ⟨i - start, ?_⟩
    rw [BitVec.getLsbD_extractLsb', Nat.add_sub_cancel' hi.2.1, hi.1, Bool.and_true,
      decide_eq_true_eq]
    omega
  · rintro ⟨i, hi⟩
    rw [BitVec.getLsbD_extractLsb', Bool.and_eq_true, decide_eq_true_eq] at hi
    refine ⟨start + i, ?_⟩
    rw [BitVec.getLsbD_and, Bool.and_eq_true, getLsbD_byteMask hstart]
    exact ⟨hi.2, by omega, by omega⟩

/-- The lowest bit of the first byte that is not zero. -/
theorem isFirst_byte (hlow : ∀ i < start, value.getLsbD i = false)
    (hne : value.extractLsb' start 8 ≠ 0) :
    IsFirst value
      (start + lowestBitBitmap.getD ((value &&& 0xff#32 <<< start) >>> start).toNat 0) := by
  rw [toNat_byte value hstart]
  obtain ⟨hbit, hfirst⟩ := isFirst_lowestBitBitmap _ hne
  set lowest := lowestBitBitmap.getD (value.extractLsb' start 8).toNat 0
  rw [BitVec.getLsbD_extractLsb', Bool.and_eq_true, decide_eq_true_eq] at hbit
  refine ⟨hbit.2, fun i hi => ?_⟩
  by_cases hbelow : i < start
  · exact hlow i hbelow
  · have hzero := hfirst (i - start) (by omega)
    rw [BitVec.getLsbD_extractLsb', Nat.add_sub_cancel' (by omega), Bool.and_eq_false_iff] at hzero
    refine hzero.resolve_left fun hout => ?_
    rw [decide_eq_false_iff_not] at hout
    omega

omit hstart in
/-- A byte that is zero adds nothing to the zero bits below it. -/
theorem low_of_byte_eq_zero (hlow : ∀ i < start, value.getLsbD i = false)
    (hzero : value.extractLsb' start 8 = 0) : ∀ i < start + 8, value.getLsbD i = false := by
  intro i hi
  by_cases hbelow : i < start
  · exact hlow i hbelow
  · have hbit : (value.extractLsb' start 8).getLsbD (i - start) = false := by
      rw [hzero]
      simp
    rw [BitVec.getLsbD_extractLsb', Nat.add_sub_cancel' (by omega), Bool.and_eq_false_iff] at hbit
    refine hbit.resolve_left fun hout => ?_
    rw [decide_eq_false_iff_not] at hout
    omega

end Byte

/-- `__rt_ffs` finds the lowest set bit, counted from 1. -/
theorem isFirst_rtFfs {value : BitVec 32} (hne : value ≠ 0) : IsFirst value (rtFfs value - 1) := by
  have hbyte0 := byte_ne_zero_iff value (show 0 ≤ 24 by omega)
  have hbyte1 := byte_ne_zero_iff value (show 8 ≤ 24 by omega)
  have hbyte2 := byte_ne_zero_iff value (show 16 ≤ 24 by omega)
  have hlow0 : ∀ i < 0, value.getLsbD i = false := fun i hi => absurd hi (Nat.not_lt_zero i)
  rw [rtFfs, if_neg hne]
  split
  · next hfirst =>
      have hresult := isFirst_byte value (by omega) hlow0 (hbyte0.1 hfirst)
      rw [Nat.zero_add] at hresult
      exact hresult
  · next hzero0 =>
      have hlow1 := low_of_byte_eq_zero value hlow0 (not_not.1 (mt hbyte0.2 hzero0))
      split
      · next hfirst =>
          have hresult := isFirst_byte value (by omega) hlow1 (hbyte1.1 hfirst)
          rw [Nat.add_comm] at hresult
          exact hresult
      · next hzero1 =>
          have hlow2 := low_of_byte_eq_zero value hlow1 (not_not.1 (mt hbyte1.2 hzero1))
          split
          · next hfirst =>
              have hresult := isFirst_byte value (by omega) hlow2 (hbyte2.1 hfirst)
              rw [Nat.add_comm] at hresult
              exact hresult
          · next hzero2 =>
              have hlow3 := low_of_byte_eq_zero value hlow2 (not_not.1 (mt hbyte2.2 hzero2))
              have hlast : value.extractLsb' 24 8 ≠ 0 := by
                intro hzero3
                obtain ⟨i, hi⟩ := Bitmap.ne_zero_iff.1 hne
                have hlt : i < 32 := BitVec.lt_of_getLsbD hi
                rw [low_of_byte_eq_zero value hlow3 hzero3 i hlt] at hi
                exact Bool.false_ne_true hi
              have hresult := isFirst_byte value (by omega) hlow3 hlast
              rw [Nat.add_comm] at hresult
              exact hresult

/-- The fields of `struct rt_thread` that place a thread in the ready queue.  `number` and
`high_mask` are used with two levels only. -/
structure Attributes (cfg : Config) where
  currentPriority : Fin cfg.priorityMax
  number : ℕ
  numberMask : BitVec 32
  highMask : BitVec 8

/-- The attributes of a new thread, before its start. -/
def Attributes.unset {cfg : Config} (priority : Fin cfg.priorityMax) : Attributes cfg where
  currentPriority := priority
  number := 0
  numberMask := 0
  highMask := 0

/-- The attributes that `rt_thread_startup` and a change of priority calculate. -/
def Attributes.calculate {cfg : Config} (priority : Fin cfg.priorityMax) :
    Attributes cfg :=
  if cfg.twoLevel then
    { currentPriority := priority
      number := priority.val >>> 3
      numberMask := 1#32 <<< (priority.val >>> 3)
      highMask := 1#8 <<< (priority.val &&& 0x07) }
  else
    { currentPriority := priority
      number := 0
      numberMask := 1#32 <<< priority.val
      highMask := 0 }

@[simp]
theorem currentPriority_calculate {cfg : Config} (priority : Fin cfg.priorityMax) :
    (Attributes.calculate priority).currentPriority = priority := by
  rw [Attributes.calculate]
  split <;> rfl

theorem calculate_of_twoLevel {cfg : Config} (hlevel : cfg.twoLevel)
    (priority : Fin cfg.priorityMax) :
    (Attributes.calculate priority).number = priority.val / 8 ∧
      (Attributes.calculate priority).numberMask = 1#32 <<< (priority.val / 8) ∧
      (Attributes.calculate priority).highMask = 1#8 <<< (priority.val % 8) := by
  have hnumber : priority.val >>> 3 = priority.val / 8 := Nat.shiftRight_eq_div_pow _ 3
  have hbit : priority.val &&& 0x07 = priority.val % 8 := Nat.and_two_pow_sub_one_eq_mod _ 3
  rw [Attributes.calculate, if_pos hlevel, hnumber, hbit]
  exact ⟨rfl, rfl, rfl⟩

theorem numberMask_calculate {cfg : Config} (hlevel : ¬ cfg.twoLevel)
    (priority : Fin cfg.priorityMax) :
    (Attributes.calculate priority).numberMask = 1#32 <<< priority.val := by
  rw [Attributes.calculate, if_neg hlevel]

/-- The lists of ready threads and the bitmaps over them: `rt_thread_priority_table`,
`rt_thread_ready_priority_group` and `rt_thread_ready_table`, or the fields of one
`struct rt_cpu`. -/
structure ReadyQueue (Tid : Type*) where
  priorityTable : ℕ → List Tid
  priorityGroup : BitVec 32
  readyTable : ℕ → BitVec 8

namespace ReadyQueue

variable {Tid : Type*} {cfg : Config}

/-- `rt_system_scheduler_init`. -/
def empty : ReadyQueue Tid where
  priorityTable := fun _ => []
  priorityGroup := 0
  readyTable := fun _ => 0

/-- The insertion of a thread at the end of the list of its priority. -/
def insert (cfg : Config) (queue : ReadyQueue Tid) (thread : Attributes cfg) (tid : Tid) :
    ReadyQueue Tid where
  priorityTable := update queue.priorityTable thread.currentPriority
    (queue.priorityTable thread.currentPriority ++ [tid])
  priorityGroup := queue.priorityGroup ||| thread.numberMask
  readyTable :=
    if cfg.twoLevel then
      update queue.readyTable thread.number
        (queue.readyTable thread.number ||| thread.highMask)
    else queue.readyTable

/-- The bits of a priority are cleared.  The bit of the group depends on the byte
`tested`. -/
def clear (cfg : Config) (queue : ReadyQueue Tid) (thread : Attributes cfg)
    (tested : BitVec 8) : ReadyQueue Tid :=
  { queue with
    priorityGroup :=
      if cfg.twoLevel ∧ tested ≠ 0 then queue.priorityGroup
      else queue.priorityGroup &&& ~~~thread.numberMask
    readyTable :=
      if cfg.twoLevel then
        update queue.readyTable thread.number
          (queue.readyTable thread.number &&& ~~~thread.highMask)
      else queue.readyTable }

variable [DecidableEq Tid]

/-- `rt_list_remove` on the node of a thread. -/
def unlink (queue : ReadyQueue Tid) (tid : Tid) : ReadyQueue Tid :=
  { queue with priorityTable := fun priority => (queue.priorityTable priority).erase tid }

/-- A thread is taken out of its list, and when the list is empty the bits of the priority
are cleared. -/
def remove (cfg : Config) (queue : ReadyQueue Tid) (thread : Attributes cfg) (tid : Tid)
    (tested : BitVec 8) : ReadyQueue Tid :=
  if (queue.unlink tid).priorityTable thread.currentPriority = [] then
    (queue.unlink tid).clear cfg thread tested
  else queue.unlink tid

/-- The byte of the queue's own table, with the bit of the thread's priority cleared. -/
def clearedByte (queue : ReadyQueue Tid) (thread : Attributes cfg) : BitVec 8 :=
  queue.readyTable thread.number &&& ~~~thread.highMask

/-- The priority that `_get_highest_priority_thread` finds. -/
def highestReadyPriority (cfg : Config) (queue : ReadyQueue Tid) : ℕ :=
  if cfg.twoLevel then
    let number := rtFfs queue.priorityGroup - 1
    (number <<< 3) + rtFfs ((queue.readyTable number).setWidth 32) - 1
  else rtFfs queue.priorityGroup - 1

/-- `_get_highest_priority_thread`, which the callers use when some thread is ready. -/
def getHighestPriorityThread (cfg : Config) (queue : ReadyQueue Tid) : Option Tid :=
  (queue.priorityTable (queue.highestReadyPriority cfg)).head?

omit [DecidableEq Tid] in
theorem priorityTable_insert (queue : ReadyQueue Tid) (thread : Attributes cfg) (tid : Tid)
    (priority : ℕ) :
    (queue.insert cfg thread tid).priorityTable priority =
      if priority = thread.currentPriority then queue.priorityTable priority ++ [tid]
      else queue.priorityTable priority := by
  by_cases hsame : priority = thread.currentPriority
  · subst hsame
    simp [insert]
  · simp [insert, hsame]

@[simp]
theorem priorityTable_remove (queue : ReadyQueue Tid) (thread : Attributes cfg) (tid : Tid)
    (tested : BitVec 8) (priority : ℕ) :
    (queue.remove cfg thread tid tested).priorityTable priority =
      (queue.priorityTable priority).erase tid := by
  rw [remove]
  split <;> rfl

/-! ## The bitmaps tell which lists are empty -/

/-- Some thread of the priority is ready. -/
def Present (queue : ReadyQueue Tid) (priority : ℕ) : Prop :=
  queue.priorityTable priority ≠ []

/-- The bitmaps of the queue tell which of its lists are empty. -/
def Represents (cfg : Config) (queue : ReadyQueue Tid) : Prop :=
  if cfg.twoLevel then TwoLevel queue.priorityGroup queue.readyTable queue.Present
  else OneLevel queue.priorityGroup queue.Present

variable {queue : ReadyQueue Tid}

omit [DecidableEq Tid] in
theorem represents_empty (cfg : Config) : Represents cfg (empty : ReadyQueue Tid) := by
  rw [Represents]
  split
  · exact ⟨fun number => by simp [empty], fun position => by simp [empty, Present]⟩
  · exact fun position => by simp [empty, Present]

omit [DecidableEq Tid] in
/-- A thread with the attributes of its priority enters the queue. -/
theorem represents_insert (hbits : Represents cfg queue) (priority : Fin cfg.priorityMax)
    (tid : Tid) : Represents cfg (queue.insert cfg (.calculate priority) tid) := by
  have hpriority := priority.isLt
  have hmax := cfg.priorityMax_le
  have hpresent : ∀ other, (queue.insert cfg (.calculate priority) tid).Present other ↔
      queue.Present other ∨ other = priority.val := by
    intro other
    simp only [Present, insert, currentPriority_calculate]
    by_cases hsame : other = priority.val
    · subst hsame
      simp
    · simp [hsame]
  unfold Represents at hbits ⊢
  by_cases hlevel : cfg.twoLevel
  · rw [if_pos hlevel] at hbits ⊢
    obtain ⟨hnumber, hnumberMask, hhighMask⟩ := calculate_of_twoLevel hlevel priority
    have hgroup : priority.val / 8 < 32 := by omega
    simp only [insert, if_pos hlevel, hnumber, hnumberMask, hhighMask]
    exact hbits.set (by omega) hgroup hpresent
  · rw [if_neg hlevel] at hbits ⊢
    have hgroup : priority.val < 32 := lt_of_lt_of_le hpriority (not_lt.1 hlevel)
    simp only [insert, numberMask_calculate hlevel]
    exact hbits.set hgroup hpresent

omit [DecidableEq Tid] in
theorem Represents.congr {next : ReadyQueue Tid} (hbits : Represents cfg queue)
    (hgroup : next.priorityGroup = queue.priorityGroup)
    (htable : next.readyTable = queue.readyTable)
    (hpresent : ∀ priority, next.Present priority ↔ queue.Present priority) :
    Represents cfg next := by
  have hsame : next.Present = queue.Present := funext fun priority => propext (hpresent priority)
  rw [Represents, hgroup, htable, hsame]
  exact hbits

variable {priority : Fin cfg.priorityMax} {tid : Tid}

/-- A thread that is in no other list than that of its priority leaves the queue. -/
theorem represents_remove (hbits : Represents cfg queue)
    (honly : ∀ other, tid ∈ queue.priorityTable other → other = priority.val) :
    Represents cfg (queue.remove cfg (.calculate priority) tid
      (queue.clearedByte (.calculate priority))) := by
  have hpriority := priority.isLt
  have hmax := cfg.priorityMax_le
  have hother : ∀ other ≠ priority.val, (queue.unlink tid).priorityTable other =
      queue.priorityTable other := by
    intro other hne
    exact List.erase_of_not_mem fun hmem => hne (honly other hmem)
  rw [remove, currentPriority_calculate]
  split
  · next hempty =>
      have hpresent : ∀ other, (queue.unlink tid).Present other ↔
          queue.Present other ∧ other ≠ priority.val := by
        intro other
        by_cases hsame : other = priority.val
        · subst hsame
          simp [Present, hempty]
        · rw [Present, hother other hsame]
          exact (and_iff_left hsame).symm
      unfold Represents at hbits ⊢
      by_cases hlevel : cfg.twoLevel
      · rw [if_pos hlevel] at hbits ⊢
        obtain ⟨hnumber, hnumberMask, hhighMask⟩ := calculate_of_twoLevel hlevel priority
        have hgroup : priority.val / 8 < 32 := by omega
        have hclear := hbits.clear (by omega) hgroup hpresent
        simp only [clear, clearedByte, hlevel, true_and, hnumber, hnumberMask,
          hhighMask, ite_not]
        exact hclear
      · rw [if_neg hlevel] at hbits ⊢
        have hgroup : priority.val < 32 := lt_of_lt_of_le hpriority (not_lt.1 hlevel)
        simp only [clear, hlevel, false_and, if_false, numberMask_calculate hlevel]
        exact hbits.clear hgroup hpresent
  · next hleft =>
      refine hbits.congr rfl rfl fun other => ?_
      by_cases hsame : other = priority.val
      · subst hsame
        have hold : queue.priorityTable priority.val ≠ [] := by
          intro hnil
          apply hleft
          simp [unlink, hnil]
        exact ⟨fun _ => hold, fun _ => hleft⟩
      · rw [Present, hother other hsame]
        exact Iff.rfl

theorem unlink_eq (hnot : ∀ priority, tid ∉ queue.priorityTable priority) :
    queue.unlink tid = queue := by
  have hlists : (fun priority => (queue.priorityTable priority).erase tid) =
      queue.priorityTable := funext fun priority => List.erase_of_not_mem (hnot priority)
  rw [unlink, hlists]

/-- Removing a thread that was never started and is in no list changes nothing. -/
theorem remove_unset (hnot : ∀ other, tid ∉ queue.priorityTable other) (tested : BitVec 8) :
    queue.remove cfg (.unset priority) tid tested = queue := by
  have hunlink : queue.unlink tid = queue := unlink_eq hnot
  have hclear : queue.clear cfg (.unset priority) tested = queue := by
    have hgroup : queue.priorityGroup &&& ~~~(0 : BitVec 32) = queue.priorityGroup := by
      exact BitVec.and_allOnes
    have hbyte : queue.readyTable 0 &&& ~~~(0 : BitVec 8) = queue.readyTable 0 := by
      exact BitVec.and_allOnes
    simp only [clear, Attributes.unset, hgroup, hbyte, update_eq_self, ite_self]
  rw [remove, hunlink, hclear, ite_self]

/-- Some thread in the group of eight priorities is ready. -/
def GroupReady (queue : ReadyQueue Tid) (number : ℕ) : Prop :=
  ∃ priority, priority / 8 = number ∧ queue.Present priority

omit [DecidableEq Tid] in
theorem Represents.twoLevel (hbits : Represents cfg queue) (hlevel : cfg.twoLevel) :
    TwoLevel queue.priorityGroup queue.readyTable queue.Present := by
  rw [Represents, if_pos hlevel] at hbits
  exact hbits

theorem GroupReady.of_unlink {number : ℕ} (hready : (queue.unlink tid).GroupReady number) :
    queue.GroupReady number := by
  obtain ⟨priority, hnumber, hpresent⟩ := hready
  refine ⟨priority, hnumber, fun hnil => hpresent ?_⟩
  simp [unlink, hnil]

/-- When the list of the thread has become empty, the byte that decides about the bit of
the group may come from anywhere.  The bitmaps are right afterwards exactly when it is
zero, and no thread of the group is left, or not zero, and some thread is left if there
was any. -/
theorem represents_remove_iff (hlevel : cfg.twoLevel) (hbits : Represents cfg queue)
    (honly : ∀ other, tid ∈ queue.priorityTable other → other = priority.val)
    (hempty : (queue.unlink tid).priorityTable priority = []) (tested : BitVec 8) :
    Represents cfg (queue.remove cfg (.calculate priority) tid tested) ↔
      (tested ≠ 0 → queue.GroupReady (priority / 8) →
        (queue.unlink tid).GroupReady (priority / 8)) ∧
      (tested = 0 → ¬ (queue.unlink tid).GroupReady (priority / 8)) := by
  have hown := (represents_remove hbits honly).twoLevel hlevel
  have hold := hbits.twoLevel hlevel
  obtain ⟨-, hnumberMask, -⟩ := calculate_of_twoLevel hlevel priority
  have hgroup : priority.val / 8 < 32 := by
    have hpriority := priority.isLt
    have hmax := cfg.priorityMax_le
    omega
  set next := queue.remove cfg (.calculate priority) tid tested with hnext
  -- the table and the lists do not depend on the tested byte
  obtain ⟨group, htable⟩ : ∃ group : BitVec 32,
      TwoLevel group next.readyTable (queue.unlink tid).Present := by
    rw [remove, currentPriority_calculate, if_pos hempty] at hown hnext
    rw [hnext]
    exact ⟨_, hown⟩
  have hword : ∀ number, next.readyTable number ≠ 0 ↔ (queue.unlink tid).GroupReady number :=
    htable.word_ne_zero_iff
  have hbit : ∀ number, next.priorityGroup.getLsbD number = true ↔
      queue.GroupReady number ∧ (tested ≠ 0 ∨ number ≠ priority / 8) := by
    intro number
    have hready := (hold.group_iff number).trans (hold.word_ne_zero_iff number)
    rw [hnext, remove, currentPriority_calculate, if_pos hempty, clear, hnumberMask]
    by_cases hzero : tested = 0
    · rw [if_neg (by simp [hzero]), getLsbD_clear hgroup]
      simp only [unlink, hready, hzero, not_true_eq_false, ne_eq, false_or, GroupReady]
    · rw [if_pos ⟨hlevel, hzero⟩]
      simp only [unlink, hready, hzero, not_false_eq_true, ne_eq, true_or, and_true, GroupReady]
  have hothers : ∀ number ≠ priority.val / 8, queue.GroupReady number →
      (queue.unlink tid).GroupReady number := by
    rintro number hne ⟨other, hnumber, hpresent⟩
    have hlist : (queue.unlink tid).priorityTable other = queue.priorityTable other := by
      refine List.erase_of_not_mem fun hmem => hne ?_
      rw [← hnumber, honly other hmem]
    exact ⟨other, hnumber, by rwa [Present, hlist]⟩
  rw [Represents, if_pos hlevel]
  constructor
  · intro hnextBits
    have hnumber := (hnextBits.group_iff (priority / 8)).trans (hword (priority / 8))
    rw [hbit] at hnumber
    refine ⟨fun hne hready => hnumber.1 ⟨hready, .inl hne⟩, fun hzero hready => ?_⟩
    simpa [hzero] using hnumber.2 hready
  · rintro ⟨hsome, hnone⟩
    refine ⟨fun number => ?_, fun position => ?_⟩
    · rw [hbit, hword]
      by_cases hsame : number = priority / 8
      · subst hsame
        constructor
        · rintro ⟨hready, hne | hne⟩
          · exact hsome hne hready
          · exact absurd rfl hne
        · intro hready
          exact ⟨hready.of_unlink, .inl fun hzero => hnone hzero hready⟩
      · exact ⟨fun hready => hothers number hsame hready.1,
          fun hready => ⟨hready.of_unlink, .inr hsame⟩⟩
    · have hposition := htable.table_iff position
      rw [hnext, remove, currentPriority_calculate, if_pos hempty] at hposition ⊢
      exact hposition

omit [DecidableEq Tid] in
/-- The bits are set exactly when some thread is ready. -/
theorem Represents.ne_zero_iff (hbits : Represents cfg queue) :
    queue.priorityGroup ≠ 0 ↔ ∃ priority, queue.Present priority := by
  unfold Represents at hbits
  split at hbits
  · exact hbits.ne_zero_iff
  · exact OneLevel.ne_zero_iff hbits

theorem rtFfs_pos {value : BitVec 32} (hne : value ≠ 0) : 0 < rtFfs value := by
  rw [rtFfs, if_neg hne]
  split
  · omega
  · split
    · omega
    · split <;> omega

omit [DecidableEq Tid] in
/-- The search in the bitmaps finds the smallest priority of a ready thread. -/
theorem Represents.highestReadyPriority (hbits : Represents cfg queue)
    (hne : queue.priorityGroup ≠ 0) :
    queue.Present (queue.highestReadyPriority cfg) ∧
      ∀ priority < queue.highestReadyPriority cfg, ¬ queue.Present priority := by
  have hnumber := isFirst_rtFfs hne
  unfold Represents at hbits
  rw [ReadyQueue.highestReadyPriority]
  split at hbits
  · next hlevel =>
      rw [if_pos hlevel]
      set number := rtFfs queue.priorityGroup - 1
      have hbyte : queue.readyTable number ≠ 0 := (hbits.group_iff number).1 hnumber.1
      have hword : (queue.readyTable number).setWidth 32 ≠ 0 := by
        obtain ⟨i, hi⟩ := Bitmap.ne_zero_iff.1 hbyte
        refine Bitmap.ne_zero_iff.2 ⟨i, ?_⟩
        have hlt : i < 8 := BitVec.lt_of_getLsbD hi
        rw [BitVec.getLsbD_setWidth, hi, Bool.and_true, decide_eq_true_eq]
        omega
      obtain ⟨hset, hlower⟩ := isFirst_rtFfs hword
      have hpos := rtFfs_pos hword
      set bit := rtFfs ((queue.readyTable number).setWidth 32) - 1 with hbitDef
      have hfirst : IsFirst (queue.readyTable number) bit := by
        rw [BitVec.getLsbD_setWidth, Bool.and_eq_true] at hset
        refine ⟨hset.2, fun i hi => ?_⟩
        have hzero := hlower i hi
        have hlt : bit < 32 := of_decide_eq_true hset.1
        rw [BitVec.getLsbD_setWidth, decide_eq_true (by omega), Bool.true_and] at hzero
        exact hzero
      have hsum : (number <<< 3) + rtFfs ((queue.readyTable number).setWidth 32) - 1 =
          number * 8 + bit := by
        rw [Nat.shiftLeft_eq]
        omega
      simp only [hsum]
      exact hbits.first hnumber hfirst
  · next hlevel =>
      rw [if_neg hlevel]
      exact OneLevel.first hbits hnumber

end ReadyQueue

end RtThread.Scheduler
