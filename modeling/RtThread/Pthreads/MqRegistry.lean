import RtThread.Core.Recorder

set_option linter.all false

/-!
# The registry of POSIX message queues

`mqueue.c` keeps the queues that are linked under a name and those that are unlinked and still
open in one list.  A registry says what the list is for: a map from names to queues, and the
number of open descriptors of each queue.  `mq_open` with `O_CREAT` and without `O_EXCL`
never looks at the list, and `posix_mq_find` does not tell the two kinds of queues apart.
-/

namespace RtThread.Pthreads

open RtThread.Core

/-- A name shorter than `RT_NAME_MAX`. -/
structure QueueName (nameMax : ℕ) where
  chars : List Char
  short : chars.length < nameMax
  deriving DecidableEq

/-- `strncmp` finds no difference in `RT_NAME_MAX` characters. -/
def QueueName.same {nameMax : ℕ} (left right : QueueName nameMax) : Bool :=
  decide (left.chars.take nameMax = right.chars.take nameMax)

theorem QueueName.same_iff {nameMax : ℕ} {left right : QueueName nameMax} :
    left.same right = true ↔ left = right := by
  rw [QueueName.same, decide_eq_true_eq, List.take_of_length_le (Nat.le_of_lt left.short),
    List.take_of_length_le (Nat.le_of_lt right.short)]
  constructor
  · intro heq
    cases left
    cases right
    subst heq
    rfl
  · rintro rfl
    rfl

/-- `struct mqdes`, with the address that is its descriptor and the name of its queue;
`refcount` has 16 bits. -/
structure MqDes (Id : Type*) (nameMax : ℕ) where
  id : Id
  name : QueueName nameMax
  refcount : ℕ
  unlinked : Bool

/-- `posix_mq_list`. -/
abbrev MqList (Id : Type*) (nameMax : ℕ) := List (MqDes Id nameMax)

inductive MqAction (Id : Type*) (nameMax : ℕ)
  /-- `alloc` is what `rt_malloc` returns if it is called, and `none` if it or `rt_mq_create`
  fails. -/
  | openName (name : QueueName nameMax) (creat excl : Bool) (alloc : Option Id)
  | close (id : Id)
  | unlink (name : QueueName nameMax)

inductive MqEvent (Id : Type*)
  | opened (id : Id)
  | eexist | enoent | enfile
  | zero
  deriving DecidableEq

section Code

variable {Id : Type*} [DecidableEq Id] {nameMax : ℕ}

def refcountSize : ℕ := 0x10000

theorem one_lt_refcountSize : 1 < refcountSize := by
  norm_num [refcountSize]

theorem mod_refcountSize_lt (count : ℕ) : count % refcountSize < refcountSize :=
  Nat.mod_lt _ (Nat.lt_trans Nat.zero_lt_one one_lt_refcountSize)

def posixMqFind (list : MqList Id nameMax) (name : QueueName nameMax) :
    Option (MqDes Id nameMax) :=
  list.find? fun iter => iter.name.same name

/-- A queue is changed through its descriptor. -/
def posixMqUpdate (list : MqList Id nameMax) (id : Id)
    (change : MqDes Id nameMax → MqDes Id nameMax) : MqList Id nameMax :=
  list.map fun iter => if iter.id = id then change iter else iter

def posixMqDelete (list : MqList Id nameMax) (id : Id) : MqList Id nameMax :=
  list.eraseP fun iter => decide (iter.id = id)

def mqOpenCreate (list : MqList Id nameMax) (name : QueueName nameMax) (excl : Bool)
    (alloc : Option Id) : MqList Id nameMax × MqEvent Id :=
  if (excl && (posixMqFind list name).isSome) = true then (list, .eexist)
  else
    match alloc with
    | none => (list, .enfile)
    | some id => (⟨id, name, 1, false⟩ :: list, .opened id)

def mqOpenExisting (list : MqList Id nameMax) (name : QueueName nameMax) :
    MqList Id nameMax × MqEvent Id :=
  match posixMqFind list name with
  | some pmq =>
    (posixMqUpdate list pmq.id fun pmq =>
      { pmq with refcount := (pmq.refcount + 1) % refcountSize }, .opened pmq.id)
  | none => (list, .enoent)

def mqOpen (list : MqList Id nameMax) (name : QueueName nameMax) (creat excl : Bool)
    (alloc : Option Id) : MqList Id nameMax × MqEvent Id :=
  if creat = true then mqOpenCreate list name excl alloc else mqOpenExisting list name

def dropRef (pmq : MqDes Id nameMax) : MqDes Id nameMax :=
  { pmq with refcount := (pmq.refcount + (refcountSize - 1)) % refcountSize }

omit [DecidableEq Id] in
@[simp]
theorem dropRef_id (pmq : MqDes Id nameMax) : (dropRef pmq).id = pmq.id := by
  rw [dropRef]

omit [DecidableEq Id] in
@[simp]
theorem dropRef_name (pmq : MqDes Id nameMax) : (dropRef pmq).name = pmq.name := by
  rw [dropRef]

omit [DecidableEq Id] in
@[simp]
theorem dropRef_unlinked (pmq : MqDes Id nameMax) : (dropRef pmq).unlinked = pmq.unlinked := by
  rw [dropRef]

def mqClose (list : MqList Id nameMax) (pmq : MqDes Id nameMax) : MqList Id nameMax × MqEvent Id :=
  let dropped := posixMqUpdate list pmq.id dropRef
  if (dropRef pmq).refcount = 0 then
    if pmq.unlinked = true then (posixMqDelete dropped pmq.id, .zero) else (dropped, .zero)
  else (dropped, .zero)

def mqUnlink (list : MqList Id nameMax) (name : QueueName nameMax) :
    MqList Id nameMax × MqEvent Id :=
  match posixMqFind list name with
  | some pmq =>
    let marked := posixMqUpdate list pmq.id fun pmq => { pmq with unlinked := true }
    if pmq.refcount = 0 then (posixMqDelete marked pmq.id, .zero) else (marked, .zero)
  | none => (list, .enoent)

/-- `rt_malloc` returns no block that is in use, and only a queue that exists can be closed. -/
def mqStep (list : MqList Id nameMax) :
    MqAction Id nameMax → Option (MqList Id nameMax × MqEvent Id)
  | .openName name creat excl alloc =>
    if ∃ pmq ∈ list, alloc = some pmq.id then none
    else some (mqOpen list name creat excl alloc)
  | .close id =>
    match list.find? fun iter => decide (iter.id = id) with
    | some pmq => some (mqClose list pmq)
    | none => none
  | .unlink name => some (mqUnlink list name)

def mqMachine : Machine (MqList Id nameMax) (MqAction Id nameMax) (MqEvent Id) where
  step := mqStep

end Code

/-! ## The registry -/

/-- Which queue is linked under a name, and how many descriptors of a queue are open. -/
structure Registry (Id : Type*) (nameMax : ℕ) where
  linked : QueueName nameMax → Option Id
  opens : Id → ℕ

namespace Registry

variable {Id : Type*} [DecidableEq Id] {nameMax : ℕ} (registry : Registry Id nameMax)

def setOpens (id : Id) (count : ℕ) : Registry Id nameMax :=
  { registry with opens := Function.update registry.opens id count }

def setLinked (name : QueueName nameMax) (id : Option Id) : Registry Id nameMax :=
  { registry with linked := Function.update registry.linked name id }

def openName (name : QueueName nameMax) (creat excl : Bool) (alloc : Option Id) :
    Registry Id nameMax × MqEvent Id :=
  match registry.linked name with
  | some id =>
    if (creat && excl) = true then (registry, .eexist)
    else (registry.setOpens id (registry.opens id + 1), .opened id)
  | none =>
    if creat = true then
      match alloc with
      | none => (registry, .enfile)
      | some id => ((registry.setOpens id 1).setLinked name (some id), .opened id)
    else (registry, .enoent)

def unlink (name : QueueName nameMax) : Registry Id nameMax × MqEvent Id :=
  match registry.linked name with
  | some _ => (registry.setLinked name none, .zero)
  | none => (registry, .enoent)

def step : MqAction Id nameMax → Registry Id nameMax × MqEvent Id
  | .openName name creat excl alloc => registry.openName name creat excl alloc
  | .close id => (registry.setOpens id (registry.opens id - 1), .zero)
  | .unlink name => registry.unlink name

end Registry

section Refinement

variable {Id : Type*} [DecidableEq Id] {nameMax : ℕ}

/-- The list holds the queues that are linked or open: one for each name that is linked, and each
queue with the number of its open descriptors. -/
structure Represents (list : MqList Id nameMax) (registry : Registry Id nameMax) : Prop where
  ids : (list.map MqDes.id).Nodup
  linked : ∀ name id, registry.linked name = some id ↔
    ∃ pmq ∈ list, pmq.id = id ∧ pmq.name = name ∧ pmq.unlinked = false
  opens : ∀ pmq ∈ list, registry.opens pmq.id = pmq.refcount
  destroyed : ∀ pmq ∈ list, pmq.unlinked = true → pmq.refcount ≠ 0
  alive : ∀ id, registry.opens id ≠ 0 → id ∈ list.map MqDes.id

/-- The registry that the calls so far should have led to, and whether all of them have returned
what they should. -/
abbrev MqNotes (Id : Type*) (nameMax : ℕ) := Registry Id nameMax × Bool

def recordMq (notes : MqNotes Id nameMax) (_ : MqList Id nameMax) (act : MqAction Id nameMax)
    (_ : MqList Id nameMax) (event : MqEvent Id) : MqNotes Id nameMax :=
  ((notes.1.step act).1, notes.2 && decide (event = (notes.1.step act).2))

/-- The list is the registry, and every call has returned what it should. -/
structure MqKept (st : MqList Id nameMax × MqNotes Id nameMax) : Prop where
  represents : Represents st.1 st.2.1
  agreed : st.2.2 = true

/-- `O_CREAT` without `O_EXCL` is used only for a name under which no queue is linked; the queue
that is found under a name that is opened or unlinked is not unlinked, and not open as often as
`refcount` can count; and a queue that is closed is open. -/
def MqRegular (st : MqList Id nameMax × MqNotes Id nameMax) : MqAction Id nameMax → Prop
  | .openName name creat excl _ =>
    if creat = true ∧ excl = false then
      ∀ pmq ∈ st.1, pmq.name = name → pmq.unlinked = true
    else ∀ pmq, posixMqFind st.1 name = some pmq →
      pmq.unlinked = false ∧ (creat = false → pmq.refcount + 1 < refcountSize)
  | .close id => ∀ pmq ∈ st.1, pmq.id = id → pmq.refcount ≠ 0
  | .unlink name => ∀ pmq, posixMqFind st.1 name = some pmq → pmq.unlinked = false

def mqRecorded : Machine (MqList Id nameMax × MqNotes Id nameMax) (MqAction Id nameMax)
    (MqEvent Id) :=
  mqMachine.recorded recordMq

/-- `posix_mq_system_init`. -/
def mqInit : MqList Id nameMax × MqNotes Id nameMax :=
  ([], ⟨fun _ => none, fun _ => 0⟩, true)

/-! ## The list -/

section List

variable {list next : MqList Id nameMax} {name : QueueName nameMax} {pmq : MqDes Id nameMax}
variable {id : Id}

omit [DecidableEq Id] in
theorem find_some (hfind : posixMqFind list name = some pmq) :
    pmq ∈ list ∧ pmq.name = name := by
  rw [posixMqFind] at hfind
  have hsame := List.find?_some hfind
  exact ⟨List.mem_of_find?_eq_some hfind, QueueName.same_iff.1 hsame⟩

variable {other : MqDes Id nameMax}

omit [DecidableEq Id] in
theorem find_none (hfind : posixMqFind list name = none) (hother : other ∈ list) :
    other.name ≠ name := fun hname =>
  List.find?_eq_none.1 hfind other hother (QueueName.same_iff.2 hname)

/-- Of the queues of one name, the newest one comes first, and only that one can be linked. -/
def NewestFirst (list : MqList Id nameMax) : Prop :=
  list.Pairwise fun newer older => newer.name = older.name → older.unlinked = true

omit [DecidableEq Id] in
/-- When the queue that is found is unlinked, none is linked under the name. -/
theorem NewestFirst.unlinked (hnewest : NewestFirst list) (hfind : posixMqFind list name = some pmq)
    (hpmq : pmq.unlinked = true) (hother : other ∈ list) (hname : other.name = name) :
    other.unlinked = true := by
  induction list with
  | nil => exact absurd hother List.not_mem_nil
  | cons iter rest ih =>
    obtain ⟨hiter, hrest⟩ := List.pairwise_cons.1 hnewest
    rw [posixMqFind, List.find?_cons] at hfind
    cases hsame : iter.name.same name with
    | true =>
      rw [hsame] at hfind
      cases hfind
      rcases List.mem_cons.1 hother with rfl | hother
      · exact hpmq
      · exact hiter other hother ((QueueName.same_iff.1 hsame).trans hname.symm)
    | false =>
      rw [hsame] at hfind
      rcases List.mem_cons.1 hother with rfl | hother
      · rw [QueueName.same_iff.2 hname] at hsame
        cases hsame
      · exact ih hrest hfind hother

omit [DecidableEq Id] in
theorem eq_of_id_eq (hids : (list.map MqDes.id).Nodup) {left right : MqDes Id nameMax}
    (hleft : left ∈ list) (hright : right ∈ list) (heq : left.id = right.id) : left = right :=
  List.inj_on_of_nodup_map hids hleft hright heq

theorem mem_posixMqUpdate {change : MqDes Id nameMax → MqDes Id nameMax} :
    other ∈ posixMqUpdate list id change ↔
      ∃ iter ∈ list, (if iter.id = id then change iter else iter) = other :=
  List.mem_map

theorem self_mem_posixMqUpdate (hpmq : pmq ∈ list)
    (change : MqDes Id nameMax → MqDes Id nameMax) :
    change pmq ∈ posixMqUpdate list pmq.id change :=
  mem_posixMqUpdate.2 ⟨pmq, hpmq, if_pos rfl⟩

theorem ids_posixMqUpdate (id : Id) (change : MqDes Id nameMax → MqDes Id nameMax)
    (hid : ∀ iter, (change iter).id = iter.id) :
    (posixMqUpdate list id change).map MqDes.id = list.map MqDes.id := by
  rw [posixMqUpdate, List.map_map]
  refine List.map_congr_left fun iter _ => ?_
  simp only [Function.comp]
  split
  · exact hid iter
  · rfl

theorem NewestFirst.update (hnewest : NewestFirst list) (id : Id)
    (change : MqDes Id nameMax → MqDes Id nameMax) (hname : ∀ iter, (change iter).name = iter.name)
    (hunlinked : ∀ iter, iter.unlinked = true → (change iter).unlinked = true) :
    NewestFirst (posixMqUpdate list id change) := by
  have hsame : ∀ iter : MqDes Id nameMax,
      (if iter.id = id then change iter else iter).name = iter.name := by
    intro iter
    split
    · exact hname iter
    · rfl
  refine List.pairwise_map.2 (hnewest.imp fun {newer older} holder hnames => ?_)
  rw [hsame, hsame] at hnames
  have hbefore := holder hnames
  split
  · exact hunlinked older hbefore
  · exact hbefore

theorem mem_posixMqDelete (hids : (list.map MqDes.id).Nodup) :
    other ∈ posixMqDelete list id ↔ other ∈ list ∧ other.id ≠ id := by
  induction list with
  | nil => simp [posixMqDelete]
  | cons iter rest ih =>
    obtain ⟨hiter, hrest⟩ := List.nodup_cons.1 hids
    rw [posixMqDelete, List.eraseP_cons]
    by_cases hid : iter.id = id
    · rw [decide_eq_true hid]
      simp only [cond_true, List.mem_cons]
      constructor
      · intro hother
        refine ⟨Or.inr hother, fun heq => hiter ?_⟩
        rw [hid, ← heq]
        exact List.mem_map_of_mem hother
      · rintro ⟨rfl | hother, hne⟩
        · exact absurd hid hne
        · exact hother
    · rw [decide_eq_false hid]
      simp only [cond_false, List.mem_cons]
      rw [show (other ∈ rest.eraseP fun iter => decide (iter.id = id)) ↔ _ from ih hrest]
      constructor
      · rintro (rfl | ⟨hother, hne⟩)
        · exact ⟨Or.inl rfl, hid⟩
        · exact ⟨Or.inr hother, hne⟩
      · rintro ⟨rfl | hother, hne⟩
        · exact Or.inl rfl
        · exact Or.inr ⟨hother, hne⟩

theorem mem_delete_update (hids : (list.map MqDes.id).Nodup)
    (change : MqDes Id nameMax → MqDes Id nameMax) (hid : ∀ iter, (change iter).id = iter.id) :
    other ∈ posixMqDelete (posixMqUpdate list id change) id ↔ other ∈ list ∧ other.id ≠ id := by
  rw [mem_posixMqDelete (by rw [ids_posixMqUpdate id change hid]; exact hids), mem_posixMqUpdate]
  constructor
  · rintro ⟨⟨iter, hiter, rfl⟩, hne⟩
    split at hne
    · rename_i heq
      exact absurd ((hid iter).trans heq) hne
    · rename_i hother
      rw [if_neg hother]
      exact ⟨hiter, hother⟩
  · rintro ⟨hother, hne⟩
    exact ⟨⟨other, hother, if_neg hne⟩, hne⟩

end List

/-! ## The list and the registry -/

namespace Represents

variable {list next : MqList Id nameMax} {registry : Registry Id nameMax}
variable {name : QueueName nameMax} {pmq : MqDes Id nameMax} {id : Id}

omit [DecidableEq Id] in
theorem linked_of_mem (hrep : Represents list registry) (hpmq : pmq ∈ list)
    (hlinked : pmq.unlinked = false) : registry.linked pmq.name = some pmq.id :=
  (hrep.linked pmq.name pmq.id).2 ⟨pmq, hpmq, rfl, rfl, hlinked⟩

omit [DecidableEq Id] in
theorem not_linked (hrep : Represents list registry)
    (hnone : ∀ pmq ∈ list, pmq.name = name → pmq.unlinked = true) :
    registry.linked name = none := by
  cases hlinked : registry.linked name with
  | none => rfl
  | some id =>
    obtain ⟨pmq, hpmq, _, hname, hunlinked⟩ := (hrep.linked name id).1 hlinked
    rw [hnone pmq hpmq hname] at hunlinked
    cases hunlinked

theorem setCount (hrep : Represents list registry) (hpmq : pmq ∈ list) (count : ℕ → ℕ)
    (hcount : pmq.unlinked = true → count pmq.refcount ≠ 0) :
    Represents (posixMqUpdate list pmq.id fun pmq => { pmq with refcount := count pmq.refcount })
      (registry.setOpens pmq.id (count pmq.refcount)) := by
  have hself : ∀ iter ∈ list, iter.id = pmq.id → iter = pmq :=
    fun iter hiter heq => eq_of_id_eq hrep.ids hiter hpmq heq
  refine ⟨?_, fun name id => ?_, fun other hother => ?_, fun other hother hunlinked => ?_,
    fun id hopens => ?_⟩
  · rw [ids_posixMqUpdate]
    · exact hrep.ids
    · exact fun _ => rfl
  · refine (hrep.linked name id).trans ⟨?_, ?_⟩
    · rintro ⟨iter, hiter, hid, hname, hunlinked⟩
      refine ⟨_, mem_posixMqUpdate.2 ⟨iter, hiter, rfl⟩, ?_⟩
      split <;> exact ⟨hid, hname, hunlinked⟩
    · rintro ⟨other, hother, hid, hname, hunlinked⟩
      obtain ⟨iter, hiter, rfl⟩ := mem_posixMqUpdate.1 hother
      refine ⟨iter, hiter, ?_⟩
      by_cases hiterId : iter.id = pmq.id
      · rw [if_pos hiterId] at hid hname hunlinked
        exact ⟨hid, hname, hunlinked⟩
      · rw [if_neg hiterId] at hid hname hunlinked
        exact ⟨hid, hname, hunlinked⟩
  · obtain ⟨iter, hiter, rfl⟩ := mem_posixMqUpdate.1 hother
    split
    · rename_i hid
      rw [hself iter hiter hid]
      exact Function.update_self _ _ _
    · rename_i hid
      exact (Function.update_of_ne hid _ _).trans (hrep.opens iter hiter)
  · obtain ⟨iter, hiter, rfl⟩ := mem_posixMqUpdate.1 hother
    split at hunlinked
    · rename_i hid
      rw [if_pos hid, hself iter hiter hid]
      rw [hself iter hiter hid] at hunlinked
      exact hcount hunlinked
    · rename_i hid
      rw [if_neg hid]
      exact hrep.destroyed iter hiter hunlinked
  · rw [ids_posixMqUpdate]
    · by_cases hid : id = pmq.id
      · rw [hid]
        exact List.mem_map_of_mem hpmq
      · exact hrep.alive id fun hzero => hopens ((Function.update_of_ne hid _ _).trans hzero)
    · exact fun _ => rfl

theorem erase (hrep : Represents list registry) (hids : (next.map MqDes.id).Nodup)
    (hmem : ∀ other, other ∈ next ↔ other ∈ list ∧ other.id ≠ id)
    {registry' : Registry Id nameMax}
    (hlinked : ∀ name other, registry'.linked name = some other ↔
      registry.linked name = some other ∧ other ≠ id)
    (hopens : registry'.opens = Function.update registry.opens id 0) :
    Represents next registry' := by
  refine ⟨hids, fun name other => ?_, fun other hother => ?_, fun other hother => ?_,
    fun other hother => ?_⟩
  · rw [hlinked, hrep.linked]
    constructor
    · rintro ⟨⟨pmq, hpmq, rfl, hname, hunlinked⟩, hne⟩
      exact ⟨pmq, (hmem pmq).2 ⟨hpmq, hne⟩, rfl, hname, hunlinked⟩
    · rintro ⟨pmq, hpmq, rfl, hname, hunlinked⟩
      obtain ⟨hpmq, hne⟩ := (hmem pmq).1 hpmq
      exact ⟨⟨pmq, hpmq, rfl, hname, hunlinked⟩, hne⟩
  · obtain ⟨hother, hne⟩ := (hmem other).1 hother
    rw [hopens, Function.update_of_ne hne]
    exact hrep.opens other hother
  · exact hrep.destroyed other ((hmem other).1 hother).1
  · have hne : other ≠ id := by
      rintro rfl
      rw [hopens, Function.update_self] at hother
      exact hother rfl
    rw [hopens, Function.update_of_ne hne] at hother
    obtain ⟨pmq, hpmq, rfl⟩ := List.mem_map.1 (hrep.alive other hother)
    exact List.mem_map_of_mem ((hmem pmq).2 ⟨hpmq, hne⟩)

theorem mark (hrep : Represents list registry) (hpmq : pmq ∈ list)
    (hlinked : pmq.unlinked = false) (hopen : pmq.refcount ≠ 0) :
    Represents (posixMqUpdate list pmq.id fun pmq => { pmq with unlinked := true })
      (registry.setLinked pmq.name none) := by
  have hself : ∀ iter ∈ list, iter.id = pmq.id → iter = pmq :=
    fun iter hiter heq => eq_of_id_eq hrep.ids hiter hpmq heq
  refine ⟨?_, fun name id => ?_, fun other hother => ?_, fun other hother hunlinked => ?_,
    fun id hopens => ?_⟩
  · rw [ids_posixMqUpdate]
    · exact hrep.ids
    · exact fun _ => rfl
  · by_cases hname : name = pmq.name
    · subst hname
      simp only [Registry.setLinked, Function.update_self, reduceCtorEq, false_iff]
      rintro ⟨other, hother, _, hname, hunlinked⟩
      obtain ⟨iter, hiter, rfl⟩ := mem_posixMqUpdate.1 hother
      split at hunlinked
      · cases hunlinked
      · rename_i hid
        rw [if_neg hid] at hname
        have hsame := (hrep.linked_of_mem hiter hunlinked).symm.trans
          ((congrArg registry.linked hname).trans (hrep.linked_of_mem hpmq hlinked))
        exact hid (Option.some.inj hsame)
    · rw [Registry.setLinked]
      dsimp only
      rw [Function.update_of_ne hname, hrep.linked]
      constructor
      · rintro ⟨iter, hiter, hid, hiterName, hunlinked⟩
        have hne : iter.id ≠ pmq.id := by
          intro heq
          rw [hself iter hiter heq] at hiterName
          exact hname hiterName.symm
        exact ⟨iter, mem_posixMqUpdate.2 ⟨iter, hiter, if_neg hne⟩, hid, hiterName, hunlinked⟩
      · rintro ⟨other, hother, hid, hotherName, hunlinked⟩
        obtain ⟨iter, hiter, rfl⟩ := mem_posixMqUpdate.1 hother
        split at hunlinked
        · cases hunlinked
        · rename_i hne
          rw [if_neg hne] at hid hotherName
          exact ⟨iter, hiter, hid, hotherName, hunlinked⟩
  · obtain ⟨iter, hiter, rfl⟩ := mem_posixMqUpdate.1 hother
    split <;> exact hrep.opens iter hiter
  · obtain ⟨iter, hiter, rfl⟩ := mem_posixMqUpdate.1 hother
    split at hunlinked
    · rename_i hid
      rw [if_pos hid, hself iter hiter hid]
      exact hopen
    · rename_i hid
      rw [if_neg hid]
      exact hrep.destroyed iter hiter hunlinked
  · rw [ids_posixMqUpdate]
    · exact hrep.alive id hopens
    · exact fun _ => rfl

/-- A queue is created under a name under which none is linked. -/
theorem create (hrep : Represents list registry) (hid : id ∉ list.map MqDes.id)
    (hnone : ∀ pmq ∈ list, pmq.name = name → pmq.unlinked = true) :
    Represents (⟨id, name, 1, false⟩ :: list)
      ((registry.setOpens id 1).setLinked name (some id)) := by
  have hother : ∀ other ∈ list, other.id ≠ id := by
    rintro other hmem rfl
    exact hid (List.mem_map_of_mem hmem)
  refine ⟨?_, fun other otherId => ?_, fun other hmem => ?_, fun other hmem hunlinked => ?_,
    fun other hopens => ?_⟩
  · exact List.nodup_cons.2 ⟨hid, hrep.ids⟩
  · by_cases hname : other = name
    · subst hname
      simp only [Registry.setLinked, Function.update_self, Option.some.injEq]
      constructor
      · rintro rfl
        exact ⟨_, List.mem_cons_self, rfl, rfl, rfl⟩
      · rintro ⟨pmq, hpmq, heq, hname, hunlinked⟩
        rcases List.mem_cons.1 hpmq with rfl | hpmq
        · exact heq
        · rw [hnone pmq hpmq hname] at hunlinked
          cases hunlinked
    · rw [Registry.setLinked]
      dsimp only
      rw [Function.update_of_ne hname]
      refine (hrep.linked other otherId).trans ⟨?_, ?_⟩
      · rintro ⟨pmq, hpmq, hrest⟩
        exact ⟨pmq, List.mem_cons_of_mem _ hpmq, hrest⟩
      · rintro ⟨pmq, hpmq, heq, hpmqName, hunlinked⟩
        rcases List.mem_cons.1 hpmq with rfl | hpmq
        · exact absurd hpmqName.symm hname
        · exact ⟨pmq, hpmq, heq, hpmqName, hunlinked⟩
  · rcases List.mem_cons.1 hmem with rfl | hmem
    · exact Function.update_self _ _ _
    · exact (Function.update_of_ne (hother other hmem) _ _).trans (hrep.opens other hmem)
  · rcases List.mem_cons.1 hmem with rfl | hmem
    · cases hunlinked
    · exact hrep.destroyed other hmem hunlinked
  · rw [List.map_cons]
    by_cases heq : other = id
    · rw [heq]
      exact List.mem_cons_self
    · refine List.mem_cons_of_mem _ (hrep.alive other fun hzero => hopens ?_)
      exact (Function.update_of_ne heq _ _).trans hzero

end Represents

/-! ## The steps -/

structure MqInv (list : MqList Id nameMax) (notes : MqNotes Id nameMax) : Prop where
  represents : Represents list notes.1
  agreed : notes.2 = true
  newest : NewestFirst list
  bounded : ∀ pmq ∈ list, pmq.refcount < refcountSize

section Steps

variable {list next : MqList Id nameMax} {notes : MqNotes Id nameMax}
variable {act : MqAction Id nameMax} {event : MqEvent Id} {name : QueueName nameMax}
variable {id : Id}

omit [DecidableEq Id] in
theorem mqInv_init : MqInv (mqInit : MqList Id nameMax × MqNotes Id nameMax).1 mqInit.2 where
  represents := ⟨List.nodup_nil, by simp [mqInit], nofun, nofun, by simp [mqInit]⟩
  agreed := rfl
  newest := List.Pairwise.nil
  bounded := nofun

/-- The call returns what it should, and the list stays in order. -/
theorem MqInv.of_agrees (hinv : MqInv list notes)
    (hrep : Represents next (notes.1.step act).1) (hevent : event = (notes.1.step act).2)
    (hnewest : NewestFirst next) (hbounded : ∀ pmq ∈ next, pmq.refcount < refcountSize) :
    MqInv next (recordMq notes list act next event) :=
  ⟨hrep, by rw [recordMq, hinv.agreed, decide_eq_true hevent]; rfl, hnewest, hbounded⟩

theorem not_kept_of_event (hevent : event ≠ (notes.1.step act).2) :
    ¬MqKept (next, recordMq notes list act next event) := by
  intro hkept
  have hagreed := hkept.agreed
  dsimp only [recordMq] at hagreed
  rw [decide_eq_false hevent, Bool.and_false] at hagreed
  cases hagreed

theorem bounded_update (hbounded : ∀ pmq ∈ list, pmq.refcount < refcountSize) (id : Id)
    (change : MqDes Id nameMax → MqDes Id nameMax)
    (hchange : ∀ pmq, pmq.refcount < refcountSize → (change pmq).refcount < refcountSize) :
    ∀ pmq ∈ posixMqUpdate list id change, pmq.refcount < refcountSize := by
  intro pmq hpmq
  obtain ⟨iter, hiter, rfl⟩ := mem_posixMqUpdate.1 hpmq
  split
  · exact hchange iter (hbounded iter hiter)
  · exact hbounded iter hiter

variable {alloc : Option Id}

theorem MqInv.openCreate (hinv : MqInv list notes) {excl : Bool}
    (hfresh : ¬∃ pmq ∈ list, alloc = some pmq.id)
    (hgood : MqRegular (list, notes) (.openName name true excl alloc)) :
    MqInv (mqOpenCreate list name excl alloc).1 (recordMq notes list
      (.openName name true excl alloc) (mqOpenCreate list name excl alloc).1
        (mqOpenCreate list name excl alloc).2) := by
  -- when none is found, or `O_EXCL` is not given, none is linked under the name
  have hcreates : (∀ pmq ∈ list, pmq.name = name → pmq.unlinked = true) →
      (excl && (posixMqFind list name).isSome) = false →
      MqInv (mqOpenCreate list name excl alloc).1 (recordMq notes list
        (.openName name true excl alloc) (mqOpenCreate list name excl alloc).1
          (mqOpenCreate list name excl alloc).2) := by
    intro hnone hfind
    have hlinked := hinv.represents.not_linked hnone
    cases alloc with
    | none =>
      simp only [mqOpenCreate, hfind]
      refine hinv.of_agrees ?_ ?_ hinv.newest hinv.bounded
      · simpa [Registry.step, Registry.openName, hlinked] using hinv.represents
      · simp [Registry.step, Registry.openName, hlinked]
    | some id =>
      have hid : id ∉ list.map MqDes.id := by
        intro hmem
        obtain ⟨pmq, hpmq, rfl⟩ := List.mem_map.1 hmem
        exact hfresh ⟨pmq, hpmq, rfl⟩
      simp only [mqOpenCreate, hfind]
      refine hinv.of_agrees ?_ ?_ ?_ ?_
      · simpa [Registry.step, Registry.openName, hlinked] using hinv.represents.create hid hnone
      · simp [Registry.step, Registry.openName, hlinked]
      · exact List.pairwise_cons.2 ⟨fun pmq hpmq hname => hnone pmq hpmq hname.symm, hinv.newest⟩
      · intro pmq hpmq
        rcases List.mem_cons.1 hpmq with rfl | hpmq
        · exact one_lt_refcountSize
        · exact hinv.bounded pmq hpmq
  cases excl with
  | false => exact hcreates hgood rfl
  | true =>
    cases hfind : posixMqFind list name with
    | none =>
      exact hcreates (fun pmq hpmq hname => absurd hname (find_none hfind hpmq))
        (by rw [hfind]; rfl)
    | some pmq =>
      obtain ⟨hpmq, rfl⟩ := find_some hfind
      have hunlinked := (hgood pmq hfind).1
      have hlinked := hinv.represents.linked_of_mem hpmq hunlinked
      simp only [mqOpenCreate, hfind, Option.isSome_some, Bool.and_self, if_true]
      refine hinv.of_agrees ?_ ?_ hinv.newest hinv.bounded
      · simpa [Registry.step, Registry.openName, hlinked] using hinv.represents
      · simp [Registry.step, Registry.openName, hlinked]

theorem MqInv.openExisting (hinv : MqInv list notes) {excl : Bool}
    (hgood : MqRegular (list, notes) (.openName name false excl alloc)) :
    MqInv (mqOpenExisting list name).1 (recordMq notes list (.openName name false excl alloc)
      (mqOpenExisting list name).1 (mqOpenExisting list name).2) := by
  rw [mqOpenExisting]
  cases hfind : posixMqFind list name with
  | none =>
    have hlinked : notes.1.linked name = none :=
      hinv.represents.not_linked fun pmq hpmq hname => absurd hname (find_none hfind hpmq)
    refine hinv.of_agrees ?_ ?_ hinv.newest hinv.bounded
    · simpa [Registry.step, Registry.openName, hlinked] using hinv.represents
    · simp [Registry.step, Registry.openName, hlinked]
  | some pmq =>
    obtain ⟨hpmq, rfl⟩ := find_some hfind
    obtain ⟨hunlinked, hbound⟩ := hgood pmq hfind
    have hlinked := hinv.represents.linked_of_mem hpmq hunlinked
    have hcount : (pmq.refcount + 1) % refcountSize = notes.1.opens pmq.id + 1 := by
      rw [Nat.mod_eq_of_lt (hbound rfl), hinv.represents.opens pmq hpmq]
    refine hinv.of_agrees ?_ ?_ (hinv.newest.update _ _ (fun _ => rfl) fun _ h => h)
      (bounded_update hinv.bounded _ _ fun iter _ => mod_refcountSize_lt _)
    · have hrep := hinv.represents.setCount hpmq (fun count => (count + 1) % refcountSize)
        fun h => absurd h (by rw [hunlinked]; exact Bool.false_ne_true)
      rw [hcount] at hrep
      simpa [Registry.step, Registry.openName, hlinked] using hrep
    · simp [Registry.step, Registry.openName, hlinked]

omit [DecidableEq Id] in
theorem dropRef_refcount_lt (pmq : MqDes Id nameMax) : (dropRef pmq).refcount < refcountSize := by
  rw [dropRef]
  exact mod_refcountSize_lt _

variable {pmq : MqDes Id nameMax}

omit [DecidableEq Id] in
theorem dropRef_refcount (hbound : pmq.refcount < refcountSize) (hopen : pmq.refcount ≠ 0) :
    (dropRef pmq).refcount = pmq.refcount - 1 := by
  simp only [dropRef, refcountSize] at hbound ⊢
  omega

theorem MqInv.close (hinv : MqInv list notes) (hpmq : pmq ∈ list)
    (hgood : MqRegular (list, notes) (.close pmq.id)) :
    MqInv (mqClose list pmq).1 (recordMq notes list (.close pmq.id) (mqClose list pmq).1
      (mqClose list pmq).2) := by
  have hrep := hinv.represents
  have hopen := hgood pmq hpmq rfl
  have hdrop := dropRef_refcount (hinv.bounded pmq hpmq) hopen
  have hopens : notes.1.opens pmq.id - 1 = (dropRef pmq).refcount := by
    rw [hdrop, hrep.opens pmq hpmq]
  have hnewest := hinv.newest.update pmq.id dropRef dropRef_name (by simp)
  have hbounded := bounded_update hinv.bounded pmq.id dropRef fun iter _ => dropRef_refcount_lt iter
  have hstays : (pmq.unlinked = true → (dropRef pmq).refcount ≠ 0) →
      MqInv (posixMqUpdate list pmq.id dropRef) (recordMq notes list (.close pmq.id)
        (posixMqUpdate list pmq.id dropRef) .zero) := by
    intro hcount
    refine hinv.of_agrees ?_ rfl hnewest hbounded
    have hcounted := hrep.setCount hpmq
      (fun count => (count + (refcountSize - 1)) % refcountSize) hcount
    simp only [Registry.step, hopens]
    exact hcounted
  rw [mqClose]
  split
  · rename_i hzero
    split
    · rename_i hunlinked
      have hids : ((posixMqUpdate list pmq.id dropRef).map MqDes.id).Nodup := by
        rw [ids_posixMqUpdate]
        · exact hrep.ids
        · exact dropRef_id
      have hsublist : List.Sublist (posixMqDelete (posixMqUpdate list pmq.id dropRef) pmq.id)
          (posixMqUpdate list pmq.id dropRef) := List.eraseP_sublist
      refine hinv.of_agrees ?_ rfl (hnewest.sublist hsublist)
        fun other hother => hbounded other (hsublist.subset hother)
      refine hrep.erase (hids.sublist (hsublist.map MqDes.id))
        (fun other => mem_delete_update hrep.ids dropRef dropRef_id) (fun name other => ?_) ?_
      · simp only [Registry.step, Registry.setOpens]
        refine ⟨fun hlinked => ⟨hlinked, ?_⟩, fun h => h.1⟩
        rintro rfl
        obtain ⟨iter, hiter, hid, _, hlinkedIter⟩ := (hrep.linked name _).1 hlinked
        rw [eq_of_id_eq hrep.ids hiter hpmq hid, hunlinked] at hlinkedIter
        cases hlinkedIter
      · simp only [Registry.step, Registry.setOpens, hopens, hzero]
    · rename_i hlinked
      exact hstays fun h => absurd h hlinked
  · rename_i hopen
    exact hstays fun _ => hopen

theorem MqInv.unlink (hinv : MqInv list notes) (hgood : MqRegular (list, notes) (.unlink name)) :
    MqInv (mqUnlink list name).1 (recordMq notes list (.unlink name) (mqUnlink list name).1
      (mqUnlink list name).2) := by
  have hrep := hinv.represents
  rw [mqUnlink]
  cases hfind : posixMqFind list name with
  | none =>
    have hlinked : notes.1.linked name = none :=
      hrep.not_linked fun pmq hpmq hname => absurd hname (find_none hfind hpmq)
    refine hinv.of_agrees ?_ ?_ hinv.newest hinv.bounded
    · simpa [Registry.step, Registry.unlink, hlinked] using hrep
    · simp [Registry.step, Registry.unlink, hlinked]
  | some pmq =>
    obtain ⟨hpmq, rfl⟩ := find_some hfind
    have hunlinked := hgood pmq hfind
    have hlinked := hrep.linked_of_mem hpmq hunlinked
    have hstep : notes.1.step (.unlink pmq.name) = (notes.1.setLinked pmq.name none, .zero) := by
      simp only [Registry.step, Registry.unlink, hlinked]
    have hnewest := hinv.newest.update pmq.id (fun pmq => { pmq with unlinked := true })
      (fun _ => rfl) fun _ _ => rfl
    have hbounded := bounded_update hinv.bounded pmq.id (fun pmq => { pmq with unlinked := true })
      fun _ h => h
    dsimp only
    split
    · rename_i hzero
      have hids : ((posixMqUpdate list pmq.id fun pmq =>
          { pmq with unlinked := true }).map MqDes.id).Nodup := by
        rw [ids_posixMqUpdate]
        · exact hrep.ids
        · exact fun _ => rfl
      have hsublist : List.Sublist
          (posixMqDelete (posixMqUpdate list pmq.id fun pmq => { pmq with unlinked := true })
            pmq.id)
          (posixMqUpdate list pmq.id fun pmq => { pmq with unlinked := true }) :=
        List.eraseP_sublist
      refine hinv.of_agrees ?_ (by rw [hstep]) (hnewest.sublist hsublist)
        fun other hother => hbounded other (hsublist.subset hother)
      rw [hstep]
      refine hrep.erase (hids.sublist (hsublist.map MqDes.id))
        (fun other => mem_delete_update hrep.ids (fun pmq => { pmq with unlinked := true })
          fun _ => rfl) (fun name other => ?_) ?_
      · rw [Registry.setLinked]
        dsimp only
        by_cases hname : name = pmq.name
        · subst hname
          rw [Function.update_self, hlinked]
          simp [eq_comm]
        · rw [Function.update_of_ne hname]
          refine ⟨fun hother => ⟨hother, ?_⟩, fun h => h.1⟩
          rintro rfl
          obtain ⟨iter, hiter, hid, hiterName, _⟩ := (hrep.linked name _).1 hother
          rw [eq_of_id_eq hrep.ids hiter hpmq hid] at hiterName
          exact hname hiterName.symm
      · have hcount := hrep.opens pmq hpmq
        rw [hzero] at hcount
        exact (Function.update_eq_self_iff.2 hcount.symm).symm
    · rename_i hopen
      refine hinv.of_agrees ?_ (by rw [hstep]) hnewest hbounded
      rw [hstep]
      exact hrep.mark hpmq hunlinked hopen

theorem MqInv.step (hinv : MqInv list notes) (hgood : MqRegular (list, notes) act)
    (hstep : mqStep list act = some (next, event)) :
    MqInv next (recordMq notes list act next event) := by
  cases act with
  | openName name creat excl alloc =>
    simp only [mqStep] at hstep
    split_ifs at hstep with hfresh
    obtain ⟨rfl, rfl⟩ := Prod.mk.inj (Option.some.inj hstep)
    cases creat with
    | true => exact hinv.openCreate hfresh hgood
    | false => exact hinv.openExisting hgood
  | close id =>
    simp only [mqStep] at hstep
    split at hstep
    · rename_i pmq hfind
      obtain ⟨rfl, rfl⟩ : (mqClose list pmq).1 = next ∧ (mqClose list pmq).2 = event := by
        rw [Option.some.inj hstep]
        exact ⟨rfl, rfl⟩
      have hid := List.find?_some hfind
      simp only [decide_eq_true_eq] at hid
      subst hid
      exact hinv.close (List.mem_of_find?_eq_some hfind) hgood
    · cases hstep
  | unlink name =>
    simp only [mqStep] at hstep
    obtain ⟨rfl, rfl⟩ := Prod.mk.inj (Option.some.inj hstep)
    exact hinv.unlink hgood

theorem not_kept_of_create (hinv : MqInv list notes) (hfresh : ¬∃ pmq ∈ list, alloc = some pmq.id)
    (hbad : ¬MqRegular (list, notes) (.openName name true false alloc)) :
    ¬MqKept (next, recordMq notes list (.openName name true false alloc) next
      (mqOpenCreate list name false alloc).2) := by
  simp only [MqRegular, and_self, if_true, not_forall, Bool.not_eq_true] at hbad
  obtain ⟨pmq, hpmq, rfl, hunlinked⟩ := hbad
  have hlinked := hinv.represents.linked_of_mem hpmq hunlinked
  refine not_kept_of_event ?_
  simp only [Registry.step, Registry.openName, hlinked, Bool.and_false, Bool.false_eq_true,
    if_false, mqOpenCreate, Bool.false_and]
  cases alloc with
  | none => simp
  | some id =>
    simp only [ne_eq, MqEvent.opened.injEq]
    rintro rfl
    exact hfresh ⟨pmq, hpmq, rfl⟩

/-- A queue that is unlinked is in the way of a new one. -/
theorem not_kept_of_excl (hinv : MqInv list notes)
    (hbad : ¬MqRegular (list, notes) (.openName name true true alloc)) :
    ¬MqKept (next, recordMq notes list (.openName name true true alloc) next
      (mqOpenCreate list name true alloc).2) := by
  simp only [MqRegular, Bool.true_eq_false, and_false, if_false, not_forall, false_implies,
    and_true, Bool.not_eq_false] at hbad
  obtain ⟨pmq, hfind, hunlinked⟩ := hbad
  have hlinked := hinv.represents.not_linked fun other hother hname =>
    hinv.newest.unlinked hfind hunlinked hother hname
  refine not_kept_of_event ?_
  simp only [Registry.step, Registry.openName, hlinked, if_true, mqOpenCreate, hfind,
    Option.isSome_some, Bool.and_self]
  cases alloc <;> simp

/-- A queue that is unlinked is opened, or `refcount` overflows. -/
theorem not_kept_of_open (hinv : MqInv list notes) {excl : Bool}
    (hbad : ¬MqRegular (list, notes) (.openName name false excl alloc)) :
    ¬MqKept ((mqOpenExisting list name).1, recordMq notes list (.openName name false excl alloc)
      (mqOpenExisting list name).1 (mqOpenExisting list name).2) := by
  simp only [MqRegular, Bool.false_eq_true, false_and, if_false, not_forall, forall_const,
    not_and_or, Bool.not_eq_false, not_lt] at hbad
  obtain ⟨pmq, hfind, hcase⟩ := hbad
  obtain ⟨hpmq, rfl⟩ := find_some hfind
  simp only [mqOpenExisting, hfind]
  rcases Bool.eq_false_or_eq_true pmq.unlinked with hunlinked | hunlinked
  · have hlinked := hinv.represents.not_linked fun other hother hname =>
      hinv.newest.unlinked hfind hunlinked hother hname
    refine not_kept_of_event ?_
    simp [Registry.step, Registry.openName, hlinked]
  · have hfull := hcase.resolve_left (by rw [hunlinked]; exact Bool.false_ne_true)
    have hlinked := hinv.represents.linked_of_mem hpmq hunlinked
    intro hkept
    have hmem := self_mem_posixMqUpdate hpmq fun pmq =>
      { pmq with refcount := (pmq.refcount + 1) % refcountSize }
    have hcount := hkept.represents.opens _ hmem
    simp only [recordMq, Registry.step, Registry.openName, hlinked, Bool.false_and,
      Bool.false_eq_true, if_false, Registry.setOpens, Function.update_self,
      hinv.represents.opens pmq hpmq] at hcount
    have hlt := mod_refcountSize_lt (pmq.refcount + 1)
    omega

theorem not_kept_of_close (hinv : MqInv list notes) (hpmq : pmq ∈ list)
    (hbad : ¬MqRegular (list, notes) (.close pmq.id)) :
    ¬MqKept ((mqClose list pmq).1, recordMq notes list (.close pmq.id) (mqClose list pmq).1
      (mqClose list pmq).2) := by
  simp only [MqRegular, not_forall, not_not] at hbad
  obtain ⟨other, hother, hid, hzero⟩ := hbad
  rw [eq_of_id_eq hinv.represents.ids hother hpmq hid] at hzero
  have hdrop : (dropRef pmq).refcount = refcountSize - 1 := by
    simp [dropRef, hzero, refcountSize]
  have hsize := one_lt_refcountSize
  have hclose : (mqClose list pmq).1 = posixMqUpdate list pmq.id dropRef := by
    rw [mqClose, if_neg]
    omega
  intro hkept
  have hmem := self_mem_posixMqUpdate hpmq dropRef
  rw [hclose] at hkept
  have hcount := hkept.represents.opens _ hmem
  simp only [recordMq, Registry.step, Registry.setOpens, dropRef_id, Function.update_self,
    hinv.represents.opens pmq hpmq, hzero] at hcount
  omega

theorem not_kept_of_unlink (hinv : MqInv list notes)
    (hbad : ¬MqRegular (list, notes) (.unlink name)) :
    ¬MqKept (next, recordMq notes list (.unlink name) next (mqUnlink list name).2) := by
  simp only [MqRegular, not_forall, Bool.not_eq_false] at hbad
  obtain ⟨pmq, hfind, hunlinked⟩ := hbad
  have hlinked := hinv.represents.not_linked fun other hother hname =>
    hinv.newest.unlinked hfind hunlinked hother hname
  refine not_kept_of_event ?_
  simp only [Registry.step, Registry.unlink, hlinked, mqUnlink, hfind]
  split <;> simp

theorem not_kept_of_irregular (hinv : MqInv list notes)
    (hbad : ¬MqRegular (list, notes) act) (hstep : mqStep list act = some (next, event)) :
    ¬MqKept (next, recordMq notes list act next event) := by
  cases act with
  | openName name creat excl alloc =>
    simp only [mqStep] at hstep
    split_ifs at hstep with hfresh
    obtain ⟨rfl, rfl⟩ := Prod.mk.inj (Option.some.inj hstep)
    cases creat with
    | false => exact not_kept_of_open hinv hbad
    | true =>
      cases excl with
      | false => exact not_kept_of_create hinv hfresh hbad
      | true => exact not_kept_of_excl hinv hbad
  | close id =>
    simp only [mqStep] at hstep
    split at hstep
    · rename_i pmq hfind
      obtain ⟨rfl, rfl⟩ : (mqClose list pmq).1 = next ∧ (mqClose list pmq).2 = event := by
        rw [Option.some.inj hstep]
        exact ⟨rfl, rfl⟩
      have hid := List.find?_some hfind
      simp only [decide_eq_true_eq] at hid
      subst hid
      exact not_kept_of_close hinv (List.mem_of_find?_eq_some hfind) hbad
    · cases hstep
  | unlink name =>
    simp only [mqStep] at hstep
    obtain ⟨rfl, rfl⟩ := Prod.mk.inj (Option.some.inj hstep)
    exact not_kept_of_unlink hinv hbad

end Steps

/-- The list is the registry and every call returns what it should, in every state of a run,
exactly when each step is regular. -/
theorem mq_registry_iff {trace : List (MqAction Id nameMax × MqEvent Id)}
    {last : MqList Id nameMax} (hrun : mqMachine.Run [] trace last) :
    (∃ notes, mqRecorded.Run mqInit trace (last, notes)) ∧
    ∀ notes, mqRecorded.Run mqInit trace (last, notes) →
      ((mqRecorded.RunWith (fun state _ => MqKept state) mqInit trace (last, notes) ∧
          MqKept (last, notes)) ↔
        mqRecorded.RunWith MqRegular mqInit trace (last, notes)) := by
  refine ⟨hrun.recorded recordMq _, fun notes hrecorded => ?_⟩
  refine hrecorded.always_iff (fun state => MqInv state.1 state.2) MqKept
    (fun _ hinv => ⟨hinv.represents, hinv.agreed⟩) ?_ ?_ mqInv_init
  · rintro ⟨list, notes⟩ act ⟨next, after⟩ event hinv hgood hstep
    obtain ⟨hstep, hnotes⟩ := Machine.recorded_step.1 hstep
    rw [show after = _ from hnotes]
    exact hinv.step hgood hstep
  · rintro ⟨list, notes⟩ act ⟨next, after⟩ event hinv hbad hstep
    obtain ⟨hstep, hnotes⟩ := Machine.recorded_step.1 hstep
    rw [show after = _ from hnotes]
    exact not_kept_of_irregular hinv hbad hstep

instance (st : MqList Id nameMax × MqNotes Id nameMax) :
    (act : MqAction Id nameMax) → Decidable (MqRegular st act)
  | .openName name creat excl _ =>
    if hcreat : creat = true ∧ excl = false then
      decidable_of_iff (∀ pmq ∈ st.1, pmq.name = name → pmq.unlinked = true)
        (by simp [MqRegular, hcreat])
    else
      match hfind : posixMqFind st.1 name with
      | none => isTrue (by simp [MqRegular, hcreat, hfind])
      | some pmq =>
        decidable_of_iff (pmq.unlinked = false ∧ (creat = false → pmq.refcount + 1 < refcountSize))
          (by simp [MqRegular, hcreat, hfind])
  | .close id => inferInstanceAs (Decidable (∀ pmq ∈ st.1, pmq.id = id → pmq.refcount ≠ 0))
  | .unlink name =>
    match hfind : posixMqFind st.1 name with
    | none => isTrue (by simp [MqRegular, hfind])
    | some pmq => decidable_of_iff (pmq.unlinked = false) (by simp [MqRegular, hfind])

/-- A queue is opened twice, unlinked and closed, and its name is used again. -/
def scheduleReuse (name : QueueName nameMax) (first second : Id) : List (MqAction Id nameMax) :=
  [.openName name true false (some first), .openName name false false none, .unlink name,
    .close first, .close first, .openName name false false none,
    .openName name true true (some second)]

/-- The name of the queues below. -/
def queueName : QueueName 8 :=
  ⟨['q'], Nat.succ_lt_succ (Nat.zero_lt_succ 6)⟩

theorem isSome_scheduleReuse : (mqRecorded.exec MqRegular mqInit
    (scheduleReuse queueName 0 1 : List (MqAction ℕ 8))).isSome = true := by
  decide

theorem mq_registry_scheduleReuse : ∃ trace, ∃ last : MqList ℕ 8 × MqNotes ℕ 8,
    mqRecorded.RunWith (fun state _ => MqKept state) mqInit trace last ∧
      trace.map Prod.snd = [.opened 0, .opened 0, .zero, .zero, .zero, .enoent, .opened 1] := by
  have hrun := Machine.runWith_of_isSome _ isSome_scheduleReuse
  exact ⟨_, _, (((mq_registry_iff hrun.of_recorded).2 _ hrun.run).2 hrun).1, by decide⟩

/-- `O_CREAT` on a name that exists. -/
def scheduleTwice (name : QueueName nameMax) (first second : Id) : List (MqAction Id nameMax) :=
  [.openName name true false (some first), .openName name true false (some second)]

/-- A name that is unlinked is opened. -/
def scheduleUnlinked (name : QueueName nameMax) (first : Id) : List (MqAction Id nameMax) :=
  [.openName name true false (some first), .unlink name, .openName name false false none]

theorem isSome_scheduleTwice : (mqRecorded.exec (fun _ _ => True) mqInit
    (scheduleTwice queueName 0 1 : List (MqAction ℕ 8))).isSome = true := by
  decide

theorem isSome_scheduleUnlinked : (mqRecorded.exec (fun _ _ => True) mqInit
    (scheduleUnlinked queueName 0 : List (MqAction ℕ 8))).isSome = true := by
  decide

/-- A second queue is created under the name, and a queue is opened after its name has been
unlinked. -/
theorem mq_registry_broken :
    (∃ trace, ∃ last : MqList ℕ 8 × MqNotes ℕ 8, mqRecorded.Run mqInit trace last ∧
      trace.map Prod.snd = [.opened 0, .opened 1] ∧ ¬MqKept last) ∧
    ∃ trace, ∃ last : MqList ℕ 8 × MqNotes ℕ 8, mqRecorded.Run mqInit trace last ∧
      trace.map Prod.snd = [.opened 0, .zero, .opened 0] ∧ ¬MqKept last := by
  constructor
  · refine ⟨_, _, Machine.runWith_of_isSome _ isSome_scheduleTwice, by decide,
      fun hkept => ?_⟩
    exact absurd hkept.agreed (by decide)
  · refine ⟨_, _, Machine.runWith_of_isSome _ isSome_scheduleUnlinked, by decide,
      fun hkept => ?_⟩
    exact absurd hkept.agreed (by decide)

end Refinement

end RtThread.Pthreads
