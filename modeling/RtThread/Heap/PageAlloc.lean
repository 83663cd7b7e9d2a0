import RtThread.Core.Extents
import RtThread.Core.Machine
import RtThread.Heap.SmallMem

set_option linter.all false

/-!
# The page allocator of `slab.c`

The free pages of the slab heap are kept in runs.  The first page of a run holds its length
and the pointer to the next run, and `rt_page_list` points to the first run.  An address is
a page number here, and 0 is `RT_NULL`: every page that is passed is aligned, and the end of
the range is an address too, so that no sum of a page and a length wraps.

The page list is the separated list of extents of the general library, and the two loops,
which write through a pointer to the link they followed, take cells from it and give cells
back.
-/

namespace RtThread.PageAlloc

open Function
open RtThread.Core
open RtThread.SmallMem (Fault rtAssert rtAssert_bind)

/-! ## The loops -/

structure PageHead where
  next : ℕ
  page : ℕ

/-- The page list, the heads in memory and the end of the range, which bounds every walk. -/
structure PageHeap where
  rtPageList : ℕ
  head : ℕ → PageHead
  stop : ℕ

/-- The variable `prev` points to: `rt_page_list` or the `next` field of a page. -/
inductive Link
  | list
  | next (page : ℕ)

namespace PageHeap

/-- The value `*prev`. -/
def deref (heap : PageHeap) : Link → ℕ
  | .list => heap.rtPageList
  | .next page => (heap.head page).next

def setHead (heap : PageHeap) (page : ℕ) (head : PageHead) : PageHeap :=
  { heap with head := update heap.head page head }

/-- The assignment `*prev = value`. -/
def assign (heap : PageHeap) (prev : Link) (value : ℕ) : PageHeap :=
  match prev with
  | .list => { heap with rtPageList := value }
  | .next page => heap.setHead page ⟨value, (heap.head page).page⟩

end PageHeap

/-- The run at `n` is linked between `*prev` and `b`. -/
def linkRun (heap : PageHeap) (prev : Link) (b n npages : ℕ) : PageHeap :=
  (heap.setHead n ⟨b, npages⟩).assign prev n

/-- The loop of `rt_page_alloc`. -/
def allocFrom (heap : PageHeap) (npages : ℕ) : ℕ → Link → Except Fault (PageHeap × ℕ)
  | 0, _ => .error .endless
  | fuel + 1, prev =>
    let b := heap.deref prev
    if b = 0 then .ok (heap, 0)
    else if npages < (heap.head b).page then
      -- the rest of the run takes its place
      .ok (linkRun heap prev (heap.head b).next (b + npages) ((heap.head b).page - npages), b)
    else if (heap.head b).page = npages then
      .ok (heap.assign prev (heap.head b).next, b)
    else allocFrom heap npages fuel (.next b)

def rtPageAlloc (heap : PageHeap) (npages : ℕ) : Except Fault (PageHeap × ℕ) :=
  if npages = 0 then .ok (heap, 0)
  else allocFrom heap npages (heap.stop + 1) .list

/-- The run at `b` grows by the pages behind it, and by the next run if it now reaches it. -/
def growRun (heap : PageHeap) (b npages : ℕ) : PageHeap :=
  let next := (heap.head b).next
  let page := (heap.head b).page + npages
  if b + page = next then
    heap.setHead b ⟨(heap.head next).next, page + (heap.head next).page⟩
  else heap.setHead b ⟨next, page⟩

/-- The loop of `rt_page_free`. -/
def freeFrom (heap : PageHeap) (n npages : ℕ) : ℕ → Link → Except Fault PageHeap
  | 0, _ => .error .endless
  | fuel + 1, prev =>
    let b := heap.deref prev
    if b = 0 then .ok (linkRun heap prev b n npages)
    else do
      rtAssert (0 < (heap.head b).page)
      rtAssert (n < b ∨ b + (heap.head b).page ≤ n)
      if b + (heap.head b).page = n then return growRun heap b npages
      if b = n + npages then
        return linkRun heap prev (heap.head b).next n ((heap.head b).page + npages)
      if n + npages < b then return linkRun heap prev b n npages
      freeFrom heap n npages fuel (.next b)

def rtPageFree (heap : PageHeap) (addr npages : ℕ) : Except Fault PageHeap := do
  rtAssert (addr ≠ 0)
  rtAssert (npages ≠ 0)
  freeFrom heap addr npages (heap.stop + 1) .list

def rtPageInit (addr npages : ℕ) (head : ℕ → PageHead) : Except Fault PageHeap := do
  rtAssert (addr ≠ 0)
  rtAssert (npages ≠ 0)
  rtPageFree ⟨0, head, addr + npages⟩ addr npages

/-! ## The page list -/

/-- The pointer leads to exactly these runs. -/
def Listed (heap : PageHeap) : ℕ → List Extent → Prop
  | b, [] => b = 0
  | b, run :: rest =>
    b = run.first ∧ b ≠ 0 ∧ (heap.head b).page = run.count ∧ Listed heap (heap.head b).next rest

/-- The link comes before a page. -/
def Link.Below : Link → ℕ → Prop
  | .list, _ => True
  | .next link, page => link < page

/-- What the writes behind a link leave as it was. -/
def Kept (heap heap' : PageHeap) : Link → Prop
  | .list => True
  | .next link =>
    heap'.rtPageList = heap.rtPageList ∧ (heap'.head link).page = (heap.head link).page ∧
      ∀ lower < link, heap'.head lower = heap.head lower

variable {heap heap' : PageHeap} {prev : Link} {runs rest after : List Extent} {run : Extent}
variable {b n npages fuel page : ℕ}

@[simp]
theorem setHead_self (heap : PageHeap) (page : ℕ) (head : PageHead) :
    (heap.setHead page head).head page = head :=
  update_self ..

theorem setHead_of_ne (heap : PageHeap) {other : ℕ} (head : PageHead) (hne : other ≠ page) :
    (heap.setHead page head).head other = heap.head other :=
  update_of_ne hne ..

@[simp]
theorem deref_assign (heap : PageHeap) (prev : Link) (value : ℕ) :
    (heap.assign prev value).deref prev = value := by
  cases prev with
  | list => rfl
  | next link => simp [PageHeap.assign, PageHeap.deref]

/-- An assignment through a link leaves the heads behind it as they are. -/
theorem head_assign (value : ℕ) (hbelow : prev.Below page) :
    (heap.assign prev value).head page = heap.head page := by
  cases prev with
  | list => rfl
  | next link => exact setHead_of_ne heap _ (Nat.ne_of_gt hbelow)

theorem kept_assign (value : ℕ) : Kept heap (heap.assign prev value) prev := by
  cases prev with
  | list => trivial
  | next link =>
    refine ⟨rfl, by simp [PageHeap.assign], fun lower hlower => ?_⟩
    exact setHead_of_ne heap _ (Nat.ne_of_lt hlower)

@[simp]
theorem stop_assign (heap : PageHeap) (prev : Link) (value : ℕ) :
    (heap.assign prev value).stop = heap.stop := by
  cases prev <;> rfl

/-- A list that does not see the pages that were written is still there. -/
theorem Listed.congr (hlisted : Listed heap b runs)
    (hsame : ∀ run ∈ runs, heap'.head run.first = heap.head run.first) : Listed heap' b runs := by
  induction runs generalizing b with
  | nil => exact hlisted
  | cons run rest ih =>
    obtain ⟨rfl, hnull, hpage, hrest⟩ := hlisted
    obtain ⟨hhead, hsame⟩ := List.forall_mem_cons.1 hsame
    refine ⟨rfl, hnull, by rw [hhead]; exact hpage, ?_⟩
    rw [hhead]
    exact ih hrest hsame

theorem Listed.assign (hlisted : Listed heap b runs) (value : ℕ)
    (hbelow : ∀ run ∈ runs, prev.Below run.first) : Listed (heap.assign prev value) b runs :=
  hlisted.congr fun run hrun => head_assign value (hbelow run hrun)

theorem listed_linkRun (hlisted : Listed heap b rest) (hnull : n ≠ 0) (hbelow : prev.Below n)
    (hrest : ∀ run ∈ rest, prev.Below run.first ∧ n < run.first) :
    Listed (linkRun heap prev b n npages) ((linkRun heap prev b n npages).deref prev)
      (⟨n, npages⟩ :: rest) := by
  have hhead : (linkRun heap prev b n npages).head n = ⟨b, npages⟩ := by
    rw [linkRun, head_assign n hbelow, setHead_self]
  refine ⟨deref_assign .., by rwa [linkRun, deref_assign], ?_, ?_⟩
  · rw [linkRun, deref_assign, ← linkRun, hhead]
  · rw [linkRun, deref_assign, ← linkRun, hhead]
    refine hlisted.congr fun run hrun => ?_
    rw [linkRun, head_assign n (hrest run hrun).1,
      setHead_of_ne heap _ (Nat.ne_of_gt (hrest run hrun).2)]

theorem kept_linkRun (hbelow : prev.Below n) : Kept heap (linkRun heap prev b n npages) prev := by
  cases prev with
  | list => trivial
  | next link =>
    have hlink : link < n := hbelow
    refine ⟨rfl, ?_, fun lower hlower => ?_⟩
    · simp [linkRun, PageHeap.assign, setHead_of_ne heap _ (Nat.ne_of_lt hlink)]
    · rw [linkRun, PageHeap.assign, setHead_of_ne _ _ (Nat.ne_of_lt hlower),
        setHead_of_ne _ _ (by omega)]

/-- What a walk does behind the first run, seen from the link before it. -/
theorem Kept.climb (hkept : Kept heap heap' (.next run.first))
    (hlisted : Listed heap (heap.deref prev) (run :: rest)) (hbelow : prev.Below run.first)
    (hafter : Listed heap' (heap'.deref (.next run.first)) after) :
    Listed heap' (heap'.deref prev) (run :: after) ∧ Kept heap heap' prev := by
  obtain ⟨hlist, hpage, hlower⟩ := hkept
  obtain ⟨hfirst, hnull, hcount, -⟩ := hlisted
  have hderef : heap'.deref prev = run.first := by
    rw [← hfirst]
    cases prev with
    | list => exact hlist
    | next link => rw [PageHeap.deref, PageHeap.deref, hlower link hbelow]
  refine ⟨⟨hderef, by rwa [hderef, ← hfirst], by rw [hderef, hpage, ← hfirst]; exact hcount,
    ?_⟩, ?_⟩
  · rw [hderef]
    exact hafter
  · cases prev with
    | list => trivial
    | next link =>
      have hlink : link < run.first := hbelow
      exact ⟨hlist, by rw [hlower link hlink], fun lower hlt => hlower lower (by omega)⟩

/-- The loop of `rt_page_alloc` takes pages from the first run that is long enough. -/
theorem allocFrom_spec (hseparated : Separated runs) (hpos : 0 < npages)
    (hlisted : Listed heap (heap.deref prev) runs) (hbelow : ∀ run ∈ runs, prev.Below run.first)
    (hfuel : runs.length < fuel) :
    (takeCells npages runs = none ∧ allocFrom heap npages fuel prev = .ok (heap, 0)) ∨
      ∃ first after heap', takeCells npages runs = some (first, after) ∧
        allocFrom heap npages fuel prev = .ok (heap', first) ∧ first ≠ 0 ∧
        Listed heap' (heap'.deref prev) after ∧ Kept heap heap' prev ∧ heap'.stop = heap.stop := by
  induction runs generalizing fuel prev with
  | nil =>
    obtain ⟨fuel, rfl⟩ := Nat.exists_eq_add_one.2 (Nat.zero_lt_of_lt hfuel)
    exact .inl ⟨rfl, if_pos hlisted⟩
  | cons run rest ih =>
    obtain ⟨fuel, rfl⟩ := Nat.exists_eq_add_one.2 (Nat.zero_lt_of_lt hfuel)
    obtain ⟨hrun, hgap, hseparated⟩ := separated_cons.1 hseparated
    obtain ⟨hprev, hbelow⟩ := List.forall_mem_cons.1 hbelow
    obtain ⟨hfirst, hnull, hcount, hrest⟩ := id hlisted
    have hlater : ∀ later ∈ rest, (Link.next run.first).Below later.first :=
      fun later hlater => by
        have hlt := hgap later hlater
        exact Nat.lt_of_le_of_lt (Nat.le_add_right ..) hlt
    rw [allocFrom, if_neg hnull, takeCells, hcount, hfirst]
    rw [hfirst] at hrest hnull
    split
    · next hlong =>
        have hbelow' : prev.Below (run.first + npages) := by
          cases prev with
          | list => trivial
          | next link => exact Nat.lt_add_right npages hprev
        refine .inr ⟨_, _, _, rfl, rfl, hnull, ?_, kept_linkRun hbelow', stop_assign ..⟩
        refine listed_linkRun hrest (by omega) hbelow' fun later hmem => ⟨hbelow later hmem, ?_⟩
        have hlt := hgap later hmem
        simp only [Extent.stop] at hlt
        omega
    · split
      · refine .inr ⟨_, _, _, rfl, rfl, hnull, ?_, kept_assign _, stop_assign ..⟩
        rw [deref_assign]
        exact hrest.assign _ hbelow
      · have hfuel : rest.length < fuel := Nat.lt_of_succ_lt_succ hfuel
        have hrest : Listed heap (heap.deref (.next run.first)) rest := hrest
        rcases ih hseparated hrest hlater hfuel with
          ⟨hnone, halloc⟩ | ⟨first, after, heap', htake, halloc, hnonnull, hafter, hkept, hstop⟩
        · exact .inl ⟨by rw [hnone]; rfl, halloc⟩
        · obtain ⟨hlisted', hkept'⟩ := hkept.climb hlisted hprev hafter
          exact .inr ⟨first, run :: after, heap', by rw [htake]; rfl, halloc, hnonnull, hlisted',
            hkept', hstop⟩

/-- A run takes in the pages behind it, and the next run if they reach it. -/
theorem growRun_spec (npages : ℕ) (hlisted : Listed heap (heap.deref prev) (run :: rest))
    (hprev : prev.Below run.first) (hseparated : Separated (run :: rest)) :
    Listed (growRun heap run.first npages) ((growRun heap run.first npages).deref prev)
        (mergeNext ⟨run.first, run.count + npages⟩ rest) ∧
      Kept heap (growRun heap run.first npages) prev ∧
      (growRun heap run.first npages).stop = heap.stop := by
  obtain ⟨hfirst, hnull, hcount, hrest⟩ := hlisted
  obtain ⟨hrun, hgap, -⟩ := separated_cons.1 hseparated
  rw [hfirst] at hnull hcount hrest
  have hwrite : ∀ head, (heap.setHead run.first head).deref prev = run.first ∧
      Kept heap (heap.setHead run.first head) prev := by
    intro head
    cases prev with
    | list => exact ⟨hfirst, trivial⟩
    | next link =>
      have hlink : link < run.first := hprev
      have hsame : ∀ lower ≤ link,
          (heap.setHead run.first head).head lower = heap.head lower := fun lower hlower =>
        setHead_of_ne heap head (by omega)
      refine ⟨?_, rfl, by rw [hsame link le_rfl], fun lower hlt => hsame lower hlt.le⟩
      rw [PageHeap.deref, hsame link le_rfl]
      exact hfirst
  have hbehind : ∀ head, ∀ later ∈ rest,
      (heap.setHead run.first head).head later.first = heap.head later.first := by
    intro head later hlater
    have hlt := hgap later hlater
    simp only [Extent.stop] at hlt
    exact setHead_of_ne heap head (by omega)
  cases rest with
  | nil =>
    have hnext : (heap.head run.first).next = 0 := hrest
    rw [growRun, if_neg (by omega), hnext, hcount]
    obtain ⟨hderef, hkept⟩ := hwrite ⟨0, run.count + npages⟩
    exact ⟨⟨hderef, by rwa [hderef], by rw [hderef, setHead_self],
      by rw [hderef, setHead_self]; rfl⟩, hkept, rfl⟩
  | cons later rest =>
    obtain ⟨hnext, hlater, hlength, hmore⟩ := hrest
    rw [growRun, mergeNext, hnext, hcount]
    rw [hnext] at hlength hmore hlater
    simp only [Extent.stop, ← Nat.add_assoc]
    split
    · next htouch =>
        obtain ⟨hderef, hkept⟩ :=
          hwrite ⟨(heap.head later.first).next, run.count + npages + (heap.head later.first).page⟩
        refine ⟨⟨hderef, by rwa [hderef], by rw [hderef, setHead_self, hlength], ?_⟩, hkept, rfl⟩
        rw [hderef, setHead_self]
        exact hmore.congr fun run hrun => hbehind _ run (List.mem_cons_of_mem _ hrun)
    · obtain ⟨hderef, hkept⟩ := hwrite ⟨later.first, run.count + npages⟩
      refine ⟨⟨hderef, by rwa [hderef], by rw [hderef, setHead_self], ?_⟩, hkept, rfl⟩
      rw [hderef, setHead_self]
      have hlisted : Listed heap later.first (later :: rest) := ⟨rfl, hlater, hlength, hmore⟩
      exact hlisted.congr (hbehind _)

theorem freeFrom_spec (hseparated : Separated runs) (hpos : 0 < npages) (hnull : n ≠ 0)
    (hapart : Apart ⟨n, npages⟩ runs) (hlisted : Listed heap (heap.deref prev) runs)
    (hbelow : ∀ run ∈ runs, prev.Below run.first) (hn : prev.Below n)
    (hfuel : runs.length < fuel) :
    ∃ heap', freeFrom heap n npages fuel prev = .ok heap' ∧
      Listed heap' (heap'.deref prev) (giveCells ⟨n, npages⟩ runs) ∧ Kept heap heap' prev ∧
      heap'.stop = heap.stop := by
  induction runs generalizing fuel prev with
  | nil =>
    obtain ⟨fuel, rfl⟩ := Nat.exists_eq_add_one.2 (Nat.zero_lt_of_lt hfuel)
    refine ⟨_, if_pos hlisted, ?_, kept_linkRun hn, stop_assign ..⟩
    exact listed_linkRun hlisted hnull hn (by simp)
  | cons run rest ih =>
    obtain ⟨fuel, rfl⟩ := Nat.exists_eq_add_one.2 (Nat.zero_lt_of_lt hfuel)
    obtain ⟨hrun, hgap, hseparated'⟩ := separated_cons.1 hseparated
    obtain ⟨hprev, hbelow'⟩ := List.forall_mem_cons.1 hbelow
    obtain ⟨hside, hapart⟩ := List.forall_mem_cons.1 hapart
    obtain ⟨hfirst, hb, hcount, hrest⟩ := id hlisted
    simp only [Extent.stop] at hside hgap
    rw [freeFrom, if_neg hb, hcount, hfirst, rtAssert_bind hrun, rtAssert_bind (by omega)]
    rw [hfirst] at hrest
    by_cases hgrow : run.first + run.count = n
    · obtain ⟨hlisted', hkept, hstop⟩ := growRun_spec npages hlisted hprev hseparated
      have hgive : giveCells ⟨n, npages⟩ (run :: rest) =
          mergeNext ⟨run.first, run.count + npages⟩ rest := if_pos hgrow
      rw [if_pos hgrow, hgive]
      exact ⟨_, rfl, hlisted', hkept, hstop⟩
    rw [if_neg hgrow]
    by_cases htouch : run.first = n + npages
    · have hgive : giveCells ⟨n, npages⟩ (run :: rest) = ⟨n, run.count + npages⟩ :: rest :=
        (if_neg hgrow).trans (if_pos htouch)
      rw [if_pos htouch, hgive]
      refine ⟨_, rfl, ?_, kept_linkRun hn, stop_assign ..⟩
      refine listed_linkRun hrest hnull hn fun later hlater => ⟨hbelow' later hlater, ?_⟩
      have hlt := hgap later hlater
      omega
    rw [if_neg htouch]
    by_cases hbefore : n + npages < run.first
    · have hgive : giveCells ⟨n, npages⟩ (run :: rest) = ⟨n, npages⟩ :: run :: rest :=
        (if_neg hgrow).trans ((if_neg htouch).trans (if_pos hbefore))
      rw [if_pos hbefore, hgive]
      refine ⟨_, rfl, ?_, kept_linkRun hn, stop_assign ..⟩
      rw [hfirst] at hlisted
      refine listed_linkRun hlisted hnull hn fun later hlater => ⟨hbelow later hlater, ?_⟩
      rcases List.mem_cons.1 hlater with rfl | hlater
      · omega
      · have hlt := hgap later hlater
        omega
    have hgive : giveCells ⟨n, npages⟩ (run :: rest) = run :: giveCells ⟨n, npages⟩ rest :=
      (if_neg hgrow).trans ((if_neg htouch).trans (if_neg hbefore))
    rw [if_neg hbefore, hgive]
    have hlater : ∀ later ∈ rest, (Link.next run.first).Below later.first :=
      fun later hlater => Nat.lt_of_le_of_lt (Nat.le_add_right ..) (hgap later hlater)
    have hn' : (Link.next run.first).Below n := by
      change run.first < n
      omega
    have hrest : Listed heap (heap.deref (.next run.first)) rest := hrest
    obtain ⟨heap', hfree, hafter, hkept, hstop⟩ :=
      ih hseparated' hapart hrest hlater hn' (Nat.lt_of_succ_lt_succ hfuel)
    obtain ⟨hlisted', hkept'⟩ := hkept.climb hlisted hprev hafter
    exact ⟨heap', hfree, hlisted', hkept', hstop⟩

/-- The page list holds these runs. -/
structure Holds (heap : PageHeap) (runs : List Extent) : Prop where
  listed : Listed heap heap.rtPageList runs
  separated : Separated runs
  stop_le : ∀ run ∈ runs, run.stop ≤ heap.stop

theorem Holds.length_lt (hholds : Holds heap runs) : runs.length < heap.stop + 1 := by
  have hlength := add_length_le hholds.separated (fun run _ => Nat.zero_le run.first)
    hholds.stop_le (Nat.zero_le _)
  omega

theorem rtPageAlloc_spec (hholds : Holds heap runs) (hpos : 0 < npages) :
    (takeCells npages runs = none ∧ rtPageAlloc heap npages = .ok (heap, 0)) ∨
      ∃ first after heap', takeCells npages runs = some (first, after) ∧
        rtPageAlloc heap npages = .ok (heap', first) ∧ first ≠ 0 ∧ Holds heap' after ∧
        heap'.stop = heap.stop := by
  have hlisted : Listed heap (heap.deref .list) runs := hholds.listed
  rw [rtPageAlloc, if_neg (Nat.ne_of_gt hpos)]
  rcases allocFrom_spec hholds.separated hpos hlisted (fun _ _ => trivial) hholds.length_lt with
    hnone | ⟨first, after, heap', htake, halloc, hnull, hlisted', -, hstop⟩
  · exact .inl hnone
  · have hseparated := separated_takeCells hholds.separated htake
    refine .inr ⟨first, after, heap', htake, halloc, hnull, ⟨hlisted', hseparated, ?_⟩, hstop⟩
    rw [stop_le_iff hseparated, hstop]
    intro cell hcell
    refine (stop_le_iff hholds.separated).1 hholds.stop_le cell ?_
    exact (mem_cellsOf_takeCells hholds.separated hpos htake).1.2 (.inr hcell)

theorem rtPageFree_spec (hholds : Holds heap runs) (hpos : 0 < npages) (hnull : n ≠ 0)
    (hapart : Apart ⟨n, npages⟩ runs) (hstop : n + npages ≤ heap.stop) :
    ∃ heap', rtPageFree heap n npages = .ok heap' ∧ Holds heap' (giveCells ⟨n, npages⟩ runs) ∧
      heap'.stop = heap.stop := by
  have hlisted : Listed heap (heap.deref .list) runs := hholds.listed
  rw [rtPageFree, rtAssert_bind hnull, rtAssert_bind (Nat.ne_of_gt hpos)]
  obtain ⟨heap', hfree, hlisted', -, hsame⟩ := freeFrom_spec hholds.separated hpos hnull hapart
    hlisted (fun _ _ => trivial) trivial hholds.length_lt
  have hseparated := separated_giveCells hholds.separated hpos hapart
  refine ⟨heap', hfree, ⟨hlisted', hseparated, ?_⟩, hsame⟩
  rw [stop_le_iff hseparated, hsame]
  intro cell hcell
  rcases mem_cellsOf_giveCells.1 hcell with ⟨-, hlt⟩ | hcell
  · exact hlt.trans_le hstop
  · exact (stop_le_iff hholds.separated).1 hholds.stop_le cell hcell

/-! ## The callers -/

/-- The page heap and the runs its callers hold. -/
structure State where
  heap : PageHeap
  live : List Extent

inductive Action
  | alloc (npages : ℕ)
  | free (run : Extent)

inductive Event
  | returned (page : ℕ)
  | faulted (fault : Fault)

def step (st : State) : Action → Option (State × Event)
  | .alloc npages =>
    match rtPageAlloc st.heap npages with
    | .ok (heap, page) =>
      some (⟨heap, if page = 0 then st.live else ⟨page, npages⟩ :: st.live⟩,
        .returned page)
    | .error fault => some (st, .faulted fault)
  | .free run =>
    if run ∈ st.live then
      match rtPageFree st.heap run.first run.count with
      | .ok heap => some (⟨heap, st.live.erase run⟩, .returned 0)
      | .error fault => some (st, .faulted fault)
    else none

def machine : Machine State Action Event where
  step := step

/-- The free runs and the live runs share out the range. -/
structure Parts (range : Extent) (runs live : List Extent) : Prop where
  live_pos : ∀ run ∈ live, 0 < run.count
  live_disjoint : live.Pairwise fun left right => Disjoint left.cells right.cells
  cover : ∀ cell, cell ∈ range.cells ↔ cell ∈ cellsOf runs ∨ cell ∈ cellsOf live
  disjoint : ∀ cell ∈ cellsOf runs, cell ∉ cellsOf live

variable {range : Extent} {live : List Extent}

theorem Parts.take {first : ℕ} (hparts : Parts range runs live) (hseparated : Separated runs)
    (hpos : 0 < npages) (htake : takeCells npages runs = some (first, after)) :
    Parts range after (⟨first, npages⟩ :: live) := by
  have hcells := fun cell => @mem_cellsOf_takeCells runs npages cell first after hseparated
    hpos htake
  refine ⟨List.forall_mem_cons.2 ⟨hpos, hparts.live_pos⟩,
    List.pairwise_cons.2 ⟨fun run hrun => ?_, hparts.live_disjoint⟩, fun cell => ?_,
    fun cell hcell => ?_⟩
  · rw [Set.disjoint_left]
    intro cell htaken hcell
    exact hparts.disjoint cell ((hcells cell).1.2 (.inl htaken)) ⟨run, hrun, hcell⟩
  · rw [hparts.cover, (hcells cell).1, mem_cellsOf_cons]
    tauto
  · rw [mem_cellsOf_cons, not_or]
    exact ⟨fun htaken => (hcells cell).2 ⟨htaken, hcell⟩,
      hparts.disjoint cell ((hcells cell).1.2 (.inr hcell))⟩

theorem Parts.apart (hparts : Parts range runs live) (hseparated : Separated runs)
    (hrun : run ∈ live) : Apart run runs := by
  intro free hfree
  have hpos := hparts.live_pos run hrun
  have hfree_pos := hseparated.1 free hfree
  by_contra hmeet
  -- the larger of the two beginnings is a page of both
  have hcell : max run.first free.first ∈ free.cells ∧ max run.first free.first ∈ run.cells := by
    simp only [Extent.mem_cells, Extent.stop] at hmeet ⊢
    omega
  exact hparts.disjoint _ ⟨free, hfree, hcell.1⟩ ⟨run, hrun, hcell.2⟩

theorem Parts.give (hparts : Parts range runs live) (hrun : run ∈ live) :
    Parts range (giveCells run runs) (live.erase run) := by
  have hperm := List.perm_cons_erase hrun
  have hdisjoint : (run :: live.erase run).Pairwise fun left right =>
      Disjoint left.cells right.cells :=
    (hperm.pairwise_iff fun {_ _} h => h.symm).1 hparts.live_disjoint
  obtain ⟨hapart, hlive⟩ := List.pairwise_cons.1 hdisjoint
  refine ⟨fun other hother => hparts.live_pos other (List.mem_of_mem_erase hother), hlive,
    fun cell => ?_, fun cell hcell => ?_⟩
  · rw [hparts.cover, mem_cellsOf_perm hperm, mem_cellsOf_cons, mem_cellsOf_giveCells]
    tauto
  · rintro ⟨other, hother, hmem⟩
    rcases mem_cellsOf_giveCells.1 hcell with hfreed | hfree
    · exact Set.disjoint_left.1 (hapart other hother) hfreed hmem
    · exact hparts.disjoint cell hfree ⟨other, List.mem_of_mem_erase hother, hmem⟩

/-- The page list of a heap whose pages are partly live. -/
structure Inv (range : Extent) (heap : PageHeap) (live runs : List Extent) : Prop where
  holds : Holds heap runs
  parts : Parts range runs live
  first_pos : 0 < range.first
  stop_eq : heap.stop = range.stop

theorem Parts.perm {live' : List Extent} (hparts : Parts range runs live)
    (hperm : live.Perm live') : Parts range runs live' where
  live_pos run hrun := hparts.live_pos run (hperm.mem_iff.2 hrun)
  live_disjoint := (hperm.pairwise_iff fun {_ _} h => h.symm).1 hparts.live_disjoint
  cover cell := by rw [hparts.cover, mem_cellsOf_perm hperm]
  disjoint cell hcell := by
    rw [← mem_cellsOf_perm hperm]
    exact hparts.disjoint cell hcell

theorem Inv.perm {live' : List Extent} (hinv : Inv range heap live runs)
    (hperm : live.Perm live') : Inv range heap live' runs :=
  ⟨hinv.holds, hinv.parts.perm hperm, hinv.first_pos, hinv.stop_eq⟩

theorem Inv.nodup (hinv : Inv range heap live runs) : live.Nodup := by
  refine hinv.parts.live_disjoint.imp_of_mem fun {left right} hleft _ hdisjoint heq => ?_
  have hpos := hinv.parts.live_pos left hleft
  have hmem : left.first ∈ left.cells := by
    simp only [Extent.mem_cells, Extent.stop]
    omega
  exact Set.disjoint_left.1 hdisjoint hmem (heq ▸ hmem)

theorem Inv.eq_of_mem {run' : Extent} (hinv : Inv range heap live runs) (hrun : run ∈ live)
    (hrun' : run' ∈ live) (hpage : page ∈ run.cells) (hpage' : page ∈ run'.cells) : run = run' := by
  by_contra hne
  have hsymm : Std.Symm fun left right : Extent => Disjoint left.cells right.cells :=
    ⟨fun _ _ h => h.symm⟩
  have hdisjoint := hinv.parts.live_disjoint.forall hrun hrun' hne
  exact Set.disjoint_left.1 hdisjoint hpage hpage'

theorem Inv.alloc (hinv : Inv range heap live runs) (hpos : 0 < npages) :
    ((∀ run ∈ runs, run.count < npages) ∧ rtPageAlloc heap npages = .ok (heap, 0)) ∨
      ∃ heap' first after, rtPageAlloc heap npages = .ok (heap', first) ∧ first ≠ 0 ∧
        (∃ run ∈ runs, npages ≤ run.count) ∧ Inv range heap' (⟨first, npages⟩ :: live) after := by
  rcases rtPageAlloc_spec hinv.holds hpos with
    ⟨hnone, halloc⟩ | ⟨first, after, heap', htake, halloc, hnull, hholds, hstop⟩
  · exact .inl ⟨takeCells_eq_none_iff.1 hnone, halloc⟩
  · have hfits : ∃ run ∈ runs, npages ≤ run.count := by
      by_contra hshort
      rw [takeCells_eq_none_iff.2 (by simpa using hshort)] at htake
      contradiction
    exact .inr ⟨heap', first, after, halloc, hnull, hfits, hholds,
      hinv.parts.take hinv.holds.separated hpos htake, hinv.first_pos, hstop.trans hinv.stop_eq⟩

theorem Inv.mem_range (hinv : Inv range heap live runs) (hrun : run ∈ live) :
    range.first ≤ run.first ∧ run.stop ≤ range.stop := by
  have hpos := hinv.parts.live_pos run hrun
  have hin : ∀ cell ∈ run.cells, cell ∈ range.cells := fun cell hcell =>
    (hinv.parts.cover cell).2 (.inr ⟨run, hrun, hcell⟩)
  have hfirst := hin run.first (by simp only [Extent.mem_cells, Extent.stop]; omega)
  have hlast := hin (run.stop - 1) (by simp only [Extent.mem_cells, Extent.stop]; omega)
  simp only [Extent.mem_cells, Extent.stop] at *
  omega

theorem Inv.free (hinv : Inv range heap live runs) (hrun : run ∈ live) :
    ∃ heap', rtPageFree heap run.first run.count = .ok heap' ∧
      Inv range heap' (live.erase run) (giveCells run runs) := by
  obtain ⟨hfirst, hstop⟩ := hinv.mem_range hrun
  have hfirst_pos := hinv.first_pos
  have hnull : run.first ≠ 0 := by omega
  obtain ⟨heap', hfree, hholds, hsame⟩ := rtPageFree_spec hinv.holds
    (hinv.parts.live_pos run hrun) hnull (hinv.parts.apart hinv.holds.separated hrun)
    (by rw [hinv.stop_eq]; exact hstop)
  exact ⟨heap', hfree, hholds, hinv.parts.give hrun, hfirst_pos, hsame.trans hinv.stop_eq⟩

theorem inv_rtPageInit {head : ℕ → PageHead} (hinit : rtPageInit n npages head = .ok heap) :
    Inv ⟨n, npages⟩ heap [] [⟨n, npages⟩] := by
  by_cases hargs : n ≠ 0 ∧ npages ≠ 0
  · obtain ⟨hnull, hnpages⟩ := hargs
    have hempty : Holds ⟨0, head, n + npages⟩ [] := ⟨rfl, ⟨by simp, .nil⟩, by simp⟩
    obtain ⟨heap', hfree, hholds, hstop⟩ :=
      rtPageFree_spec hempty (Nat.pos_of_ne_zero hnpages) hnull (by simp [Apart]) le_rfl
    rw [rtPageInit, rtAssert_bind hnull, rtAssert_bind hnpages, hfree] at hinit
    obtain rfl := Except.ok.inj hinit
    exact ⟨hholds, ⟨by simp, .nil, by simp [cellsOf], by simp [cellsOf]⟩, Nat.pos_of_ne_zero hnull,
      hstop⟩
  · rcases not_and_or.1 hargs with hnull | hnpages
    · rw [rtPageInit, rtAssert, if_neg hnull] at hinit
      contradiction
    · rw [rtPageInit, rtAssert, rtAssert, if_neg hnpages] at hinit
      split at hinit <;> contradiction

/-- No call fails, and the runs keep sharing out the range. -/
theorem step_inv {st next : State} {act : Action} {event : Event}
    (hinv : Inv range st.heap st.live runs)
    (hstep : step st act = some (next, event)) :
    (∀ fault, event ≠ .faulted fault) ∧ ∃ runs', Inv range next.heap next.live runs' := by
  cases act with
  | alloc npages =>
    rw [step] at hstep
    rcases Nat.eq_zero_or_pos npages with rfl | hpos
    · rw [rtPageAlloc, if_pos rfl] at hstep
      cases hstep
      exact ⟨by simp, runs, hinv⟩
    · rcases hinv.alloc hpos with
        ⟨-, halloc⟩ | ⟨heap', first, after, halloc, hnull, -, hinv'⟩
      · rw [halloc] at hstep
        cases hstep
        exact ⟨by simp, runs, hinv⟩
      · rw [halloc] at hstep
        cases hstep
        refine ⟨by simp, after, ?_⟩
        rw [if_neg hnull]
        exact hinv'
  | free run =>
    rw [step] at hstep
    split at hstep
    · next hrun =>
        obtain ⟨heap', hfree, hinv'⟩ := hinv.free hrun
        rw [hfree] at hstep
        cases hstep
        exact ⟨by simp, _, hinv'⟩
    · contradiction

/-- After every sequence of calls on live runs the page list is sorted and coalesced, its
runs and the live runs partition the range, no call has failed, and a request for pages
returns `RT_NULL` exactly when every run is too short for it. -/
theorem page_runs_partition {head : ℕ → PageHead} (hinit : rtPageInit n npages head = .ok heap)
    {trace : List (Action × Event)} {last : State}
    (hrun : machine.Run ⟨heap, []⟩ trace last) :
    (∀ entry ∈ trace, ∀ fault, entry.2 ≠ .faulted fault) ∧
      ∃ runs, Listed last.heap last.heap.rtPageList runs ∧ Separated runs ∧
        Parts ⟨n, npages⟩ runs last.live ∧
        ∀ request, 1 ≤ request → ∃ heap' page, rtPageAlloc last.heap request = .ok (heap', page) ∧
          (page = 0 ↔ ∀ run ∈ runs, run.count < request) := by
  have hall : (∀ entry ∈ trace, ∀ fault, entry.2 ≠ .faulted fault) ∧
      ∃ runs, Inv ⟨n, npages⟩ last.heap last.live runs := by
    refine hrun.traceInvariant (fun trace state =>
      (∀ entry ∈ trace, ∀ fault, entry.2 ≠ .faulted fault) ∧
        ∃ runs, Inv ⟨n, npages⟩ state.heap state.live runs) ?_ ⟨by simp, _, inv_rtPageInit hinit⟩
    rintro past state action next event ⟨hpast, runs, hinv⟩ - hstep
    obtain ⟨hevent, hnext⟩ := step_inv hinv hstep
    refine ⟨fun entry hentry => ?_, hnext⟩
    rcases List.mem_append.1 hentry with hentry | hentry
    · exact hpast entry hentry
    · obtain rfl := List.mem_singleton.1 hentry
      exact hevent
  obtain ⟨hevents, runs, hinv⟩ := hall
  refine ⟨hevents, runs, hinv.holds.listed, hinv.holds.separated, hinv.parts, ?_⟩
  intro request hpos
  rcases hinv.alloc hpos with
    ⟨hshort, halloc⟩ | ⟨heap', first, after, halloc, hnull, ⟨run, hmem, hfits⟩, -⟩
  · exact ⟨last.heap, 0, halloc, iff_of_true rfl hshort⟩
  · refine ⟨heap', first, halloc, iff_of_false hnull fun hshort => ?_⟩
    exact absurd (hshort run hmem) (by omega)

/-- Eight free pages. -/
def eightPages : PageHeap :=
  ⟨16, update (fun _ => ⟨0, 0⟩) 16 ⟨0, 8⟩, 24⟩

/-- Runs of two, three and one pages are taken, and given back so that the last one joins
the runs on both sides. -/
theorem page_runs_partition_joined :
    ∃ trace last, machine.Run ⟨eightPages, []⟩ trace last ∧ trace.length = 6 ∧ last.live = [] ∧
      ∃ runs, Listed last.heap last.heap.rtPageList runs ∧ Parts ⟨16, 8⟩ runs [] := by
  have hinit : rtPageInit 16 8 (fun _ => ⟨0, 0⟩) = .ok eightPages := rfl
  have hrun : machine.Run ⟨eightPages, []⟩ _ _ :=
    Machine.runWith_of_exec
      [.alloc 2, .alloc 3, .alloc 1, .free ⟨16, 2⟩, .free ⟨21, 1⟩, .free ⟨18, 3⟩] rfl
  obtain ⟨-, runs, hlisted, -, hparts, -⟩ := page_runs_partition hinit hrun
  exact ⟨_, _, hrun, rfl, rfl, runs, hlisted, hparts⟩

end RtThread.PageAlloc
