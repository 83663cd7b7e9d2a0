import RtThread.Finsh.Heap

set_option linter.all false

/-!
# The two lists of the shell heap

What the loops over the lists do to a heap whose lists are known: one specification for each
function, with the lists as lists of addresses.
-/

namespace RtThread.Finsh

open Function
open RtThread.Core

/-- The lists consist of these blocks, no two of them the same. -/
structure Lists (heap : FinshHeap) (cells : HeapList → List ℕ) : Prop where
  chain : ∀ list, Chain heap.next (heap.head list) (cells list)
  nodup : ∀ list, (cells list).Nodup
  apart : ∀ list other, list ≠ other → ∀ node ∈ cells list, node ∉ cells other

/-- Lengths and data are what they were. -/
structure SameBlocks (heap after : FinshHeap) : Prop where
  length : after.length = heap.length
  data : after.data = heap.data

variable {cfg : HeapConfig} {heap : FinshHeap} {cells : HeapList → List ℕ} {list : HeapList}
  {left right : List ℕ} {header node last fuel : ℕ} {link start : Option ℕ}

theorem SameBlocks.trans {after later : FinshHeap} (hfirst : SameBlocks heap after)
    (hsecond : SameBlocks after later) : SameBlocks heap later :=
  ⟨hsecond.length.trans hfirst.length, hsecond.data.trans hfirst.data⟩

/-! ## Fields -/

@[simp]
theorem next_setNext (heap : FinshHeap) (node : ℕ) (link : Option ℕ) :
    (heap.setNext node link).next = update heap.next node link := by
  funext other
  by_cases heq : other = node
  · subst heq
    simp [FinshHeap.setNext, FinshHeap.next]
  · simp [FinshHeap.setNext, FinshHeap.next, update_of_ne heq]

@[simp]
theorem length_setNext (heap : FinshHeap) (node : ℕ) (link : Option ℕ) :
    (heap.setNext node link).length = heap.length := by
  funext other
  by_cases heq : other = node
  · subst heq
    simp [FinshHeap.setNext, FinshHeap.length]
  · simp [FinshHeap.setNext, FinshHeap.length, update_of_ne heq]

@[simp]
theorem next_setLength (heap : FinshHeap) (node length : ℕ) :
    (heap.setLength node length).next = heap.next := by
  funext other
  by_cases heq : other = node
  · subst heq
    simp [FinshHeap.setLength, FinshHeap.next]
  · simp [FinshHeap.setLength, FinshHeap.next, update_of_ne heq]

@[simp]
theorem length_setLength (heap : FinshHeap) (node length : ℕ) :
    (heap.setLength node length).length = update heap.length node length := by
  funext other
  by_cases heq : other = node
  · subst heq
    simp [FinshHeap.setLength, FinshHeap.length]
  · simp [FinshHeap.setLength, FinshHeap.length, update_of_ne heq]

@[simp]
theorem head_setNext (heap : FinshHeap) (node : ℕ) (link : Option ℕ) :
    (heap.setNext node link).head = heap.head := rfl

@[simp]
theorem head_setLength (heap : FinshHeap) (node length : ℕ) :
    (heap.setLength node length).head = heap.head := rfl

@[simp]
theorem head_setHead (heap : FinshHeap) (list : HeapList) (start : Option ℕ) :
    (heap.setHead list start).head = update heap.head list start := by
  funext other
  cases list <;> cases other <;> rfl

@[simp]
theorem next_setHead (heap : FinshHeap) (list : HeapList) (start : Option ℕ) :
    (heap.setHead list start).next = heap.next := by
  cases list <;> rfl

@[simp]
theorem length_setHead (heap : FinshHeap) (list : HeapList) (start : Option ℕ) :
    (heap.setHead list start).length = heap.length := by
  cases list <;> rfl

@[simp]
theorem data_setHead (heap : FinshHeap) (list : HeapList) (start : Option ℕ) :
    (heap.setHead list start).data = heap.data := by
  cases list <;> rfl

@[simp]
theorem data_setNext (heap : FinshHeap) (node : ℕ) (link : Option ℕ) :
    (heap.setNext node link).data = heap.data := rfl

theorem setNext_self (hlink : heap.next node = link) : heap.setNext node link = heap := by
  have hblock : (⟨heap.length node, link⟩ : BlockHeader) = heap.block node := by
    rw [← hlink]
    rfl
  rw [FinshHeap.setNext, hblock, update_eq_self]

theorem sameBlocks_setNext (heap : FinshHeap) (node : ℕ) (link : Option ℕ) :
    SameBlocks heap (heap.setNext node link) :=
  ⟨length_setNext .., rfl⟩

theorem sameBlocks_setHead (heap : FinshHeap) (list : HeapList) (start : Option ℕ) :
    SameBlocks heap (heap.setHead list start) :=
  ⟨length_setHead .., data_setHead ..⟩

/-! ## Lists -/

namespace Lists

variable (hlists : Lists heap cells)
include hlists

/-- The pointer of a block in no list can be written. -/
theorem setNext (hnew : ∀ other, node ∉ cells other) (link : Option ℕ) :
    Lists (heap.setNext node link) cells where
  chain other := by
    rw [next_setNext, head_setNext]
    exact (hlists.chain other).update_of_not_mem link (hnew other)
  nodup := hlists.nodup
  apart := hlists.apart

theorem setLength (node length : ℕ) : Lists (heap.setLength node length) cells where
  chain other := by
    rw [next_setLength, head_setLength]
    exact hlists.chain other
  nodup := hlists.nodup
  apart := hlists.apart

/-- One list is replaced, by blocks of its own or blocks that are in no list. -/
theorem replace {after : FinshHeap} {fresh : List ℕ} (hnodup : fresh.Nodup)
    (hfresh : ∀ node ∈ fresh, ∀ other, other ≠ list → node ∉ cells other)
    (hchain : Chain after.next (after.head list) fresh)
    (hothers : ∀ other, other ≠ list → Chain after.next (after.head other) (cells other)) :
    Lists after (update cells list fresh) where
  chain other := by
    by_cases heq : other = list
    · subst heq
      rw [update_self]
      exact hchain
    · rw [update_of_ne heq]
      exact hothers other heq
  nodup other := by
    by_cases heq : other = list
    · subst heq
      rw [update_self]
      exact hnodup
    · rw [update_of_ne heq]
      exact hlists.nodup other
  apart first second hne node hmem := by
    by_cases hfirst : first = list
    · subst hfirst
      rw [update_self] at hmem
      rw [update_of_ne hne.symm]
      exact hfresh node hmem second hne.symm
    · rw [update_of_ne hfirst] at hmem
      by_cases hsecond : second = list
      · subst hsecond
        rw [update_self]
        intro hmem'
        exact hfresh node hmem' first hfirst hmem
      · rw [update_of_ne hsecond]
        exact hlists.apart first second hne node hmem

theorem setHead {fresh : List ℕ} (hchain : Chain heap.next start fresh) (hnodup : fresh.Nodup)
    (hfresh : ∀ node ∈ fresh, ∀ other, other ≠ list → node ∉ cells other) :
    Lists (heap.setHead list start) (update cells list fresh) := by
  refine hlists.replace hnodup hfresh ?_ fun other hne => ?_
  · rw [next_setHead, head_setHead, update_self]
    exact hchain
  · rw [next_setHead, head_setHead, update_of_ne hne]
    exact hlists.chain other

/-- The pointer of a block in a list is set to lead to blocks of the list or of none. -/
theorem relink {rest : List ℕ} (hcells : cells list = left ++ node :: right)
    (hlink : Chain heap.next link rest) (hnodup : (left ++ node :: rest).Nodup)
    (hrest : ∀ block ∈ rest, ∀ other, other ≠ list → block ∉ cells other) :
    Lists (heap.setNext node link) (update cells list (left ++ node :: rest)) := by
  have hkept : ∀ block ∈ left ++ node :: right, ∀ other, other ≠ list → block ∉ cells other :=
    fun block hblock other hne => hlists.apart list other hne.symm block (hcells ▸ hblock)
  have hchain := hcells ▸ hlists.chain list
  obtain ⟨-, hpart, hcross⟩ := List.nodup_append.1 hnodup
  refine hlists.replace hnodup ?_ ?_ ?_
  · intro block hblock
    rcases List.mem_append.1 hblock with hblock | hblock
    · exact hkept block (List.mem_append_left _ hblock)
    · rcases List.mem_cons.1 hblock with rfl | hblock
      · exact hkept block (List.mem_append_right left List.mem_cons_self)
      · exact hrest block hblock
  · rw [next_setNext]
    refine hchain.relink ?_ hlink (List.nodup_cons.1 hpart).1
    intro hmem
    exact hcross node hmem node List.mem_cons_self rfl
  · intro other hne
    rw [next_setNext, head_setNext]
    exact (hlists.chain other).update_of_not_mem link
      (hkept node (List.mem_append_right left List.mem_cons_self) other hne)

end Lists

/-! ## Inserting a block -/

/-- The loop stops at the last block in front of the new one. -/
theorem insertBehind_spec (hchain : Chain heap.next (some node) (node :: left ++ right))
    (hleft : ∀ block ∈ left, block < header) (hright : ∀ block ∈ right, header < block)
    (hend : right = [] → heap.next header = none) (hfuel : left.length < fuel) :
    insertBehind heap header fuel node =
      some ((heap.setNext header right.head?).setNext ((node :: left).getLast (by simp))
        (some header)) := by
  induction left generalizing node fuel with
  | nil =>
    obtain ⟨fuel, rfl⟩ := Nat.exists_eq_add_one_of_ne_zero (by omega : fuel ≠ 0)
    have hnext : heap.next node = right.head? := hchain.2.head_eq
    rw [insertBehind, hnext]
    cases right with
    | nil =>
      rw [List.head?_nil, setNext_self (hend rfl)]
      rfl
    | cons first rest =>
      simp only [List.head?_cons, if_pos (hright first List.mem_cons_self)]
      rfl
  | cons next left ih =>
    obtain ⟨fuel, rfl⟩ := Nat.exists_eq_add_one_of_ne_zero (by omega : fuel ≠ 0)
    have hnext : heap.next node = some next := hchain.2.head_eq
    have hlt : ¬ header < next := (hleft next List.mem_cons_self).not_gt
    rw [insertBehind, hnext]
    simp only [if_neg hlt]
    refine (ih (hnext ▸ hchain.2) (fun block hblock => hleft block
      (List.mem_cons_of_mem next hblock)) ?_).trans ?_
    · rw [List.length_cons] at hfuel
      omega
    · rw [List.getLast_cons_cons]

theorem finshBlockInsert_spec (hlists : Lists heap cells) (hcells : cells list = left ++ right)
    (hleft : ∀ block ∈ left, block < header) (hright : ∀ block ∈ right, header < block)
    (hnew : ∀ other, header ∉ cells other) (hend : right = [] → heap.next header = none)
    (hfuel : left.length ≤ cfg.heapMax) :
    ∃ after, finshBlockInsert cfg heap list header = some after ∧
      Lists after (update cells list (left ++ header :: right)) ∧
      SameBlocks heap after := by
  have hchain := hcells ▸ hlists.chain list
  have hnot : header ∉ left ++ right := hcells ▸ hnew list
  have hnodup : (left ++ header :: right).Nodup :=
    List.nodup_middle.2 (List.nodup_cons.2 ⟨hnot, hcells ▸ hlists.nodup list⟩)
  have hkept : ∀ block ∈ right, ∀ other, other ≠ list → block ∉ cells other :=
    fun block hblock other hne => hlists.apart list other hne.symm block
      (hcells ▸ List.mem_append_right left hblock)
  have hfresh : ∀ block ∈ header :: right, ∀ other, other ≠ list → block ∉ cells other := by
    intro block hblock
    rcases List.mem_cons.1 hblock with rfl | hblock
    · exact fun other _ => hnew other
    · exact hkept block hblock
  -- the block leads to what follows it, before anything leads to the block
  have hset := hlists.setNext hnew right.head?
  have htail : Chain (heap.setNext header right.head?).next (some header) (header :: right) := by
    refine ⟨rfl, ?_⟩
    rw [next_setNext, update_self]
    exact hchain.drop.update_of_not_mem _ fun hmem => hnot (List.mem_append_right left hmem)
  rcases List.eq_nil_or_concat left with rfl | ⟨front, last, rfl⟩
  · refine ⟨(heap.setNext header right.head?).setHead list (some header), ?_,
      hset.setHead htail hnodup hfresh,
      (sameBlocks_setNext heap header _).trans (sameBlocks_setHead _ list _)⟩
    have hhead : heap.head list = right.head? := hchain.head_eq
    rw [finshBlockInsert, hhead]
    cases right with
    | nil => rw [List.head?_nil, setNext_self (hend rfl)]
    | cons first rest => simp only [List.head?_cons, if_pos (hright first List.mem_cons_self)]
  · rw [List.concat_eq_append] at *
    refine ⟨(heap.setNext header right.head?).setNext last (some header), ?_, ?_,
      (sameBlocks_setNext heap header _).trans (sameBlocks_setNext _ last _)⟩
    · obtain ⟨first, rest, hsplit⟩ := List.exists_cons_of_ne_nil
        (List.append_ne_nil_of_right_ne_nil front (List.cons_ne_nil last []))
      have hlast : (first :: rest).getLast (List.cons_ne_nil first rest) = last := by
        simp only [← hsplit, List.getLast_append_singleton]
      rw [hsplit] at hleft hchain hfuel
      have hhead : heap.head list = some first := hchain.head_eq
      rw [hhead] at hchain
      have hfits : rest.length < cfg.fuel := by
        rw [List.length_cons] at hfuel
        rw [HeapConfig.fuel]
        omega
      obtain ⟨hfirst, hrest⟩ := List.forall_mem_cons.1 hleft
      rw [finshBlockInsert, hhead]
      simp only [if_neg hfirst.not_gt]
      rw [insertBehind_spec hchain hrest hright hend hfits, hlast]
    · have hcells' : cells list = front ++ last :: right := by
        rw [hcells, List.append_assoc, List.singleton_append]
      have happend : front ++ [last] ++ header :: right = front ++ last :: header :: right := by
        rw [List.append_assoc, List.singleton_append]
      rw [happend] at hnodup ⊢
      exact hset.relink hcells' htail hnodup hfresh

/-! ## Removing a block -/

/-- A pointer to a list does not lead to what comes later in it. -/
theorem start_ne_of_before (hchain : Chain heap.next start (left ++ last :: right))
    (hnot : header ∉ left ++ [last]) : start ≠ some header := by
  rw [hchain.head_eq]
  intro heq
  have hhead : (left ++ [last]).head? = some header := by
    rw [← heq]
    cases left with
    | nil => rfl
    | cons next left => rfl
  exact hnot (List.mem_of_mem_head? hhead)

theorem removeBehind_spec (hchain : Chain heap.next start (left ++ last :: header :: right))
    (hnot : header ∉ left ++ [last]) (hfuel : left.length < fuel) :
    removeBehind heap header fuel start = some (heap.setNext last right.head?) := by
  induction left generalizing start fuel with
  | nil =>
    obtain ⟨fuel, rfl⟩ := Nat.exists_eq_add_one_of_ne_zero (by omega : fuel ≠ 0)
    obtain ⟨rfl, hnext, hrest⟩ := hchain
    rw [removeBehind, if_pos hnext, hrest.head_eq]
  | cons node left ih =>
    obtain ⟨fuel, rfl⟩ := Nat.exists_eq_add_one_of_ne_zero (by omega : fuel ≠ 0)
    obtain ⟨rfl, htail⟩ := hchain
    rw [List.cons_append, List.mem_cons, not_or] at hnot
    rw [List.length_cons] at hfuel
    rw [removeBehind, if_neg (start_ne_of_before htail hnot.2)]
    exact ih htail hnot.2 (by omega)

theorem finshBlockRemove_spec (hlists : Lists heap cells)
    (hcells : cells list = left ++ header :: right) (hfuel : left.length ≤ cfg.heapMax) :
    ∃ after, finshBlockRemove cfg heap list header = some after ∧
      Lists after (update cells list (left ++ right)) ∧ SameBlocks heap after := by
  have hchain := hcells ▸ hlists.chain list
  have hnodup := hcells ▸ hlists.nodup list
  have hkept : ∀ block ∈ left ++ header :: right, ∀ other, other ≠ list →
      block ∉ cells other :=
    fun block hblock other hne => hlists.apart list other hne.symm block (hcells ▸ hblock)
  obtain ⟨hnot, hrest⟩ := List.nodup_cons.1 (List.nodup_middle.1 hnodup)
  rcases List.eq_nil_or_concat left with rfl | ⟨front, last, rfl⟩
  · have hhead : heap.head list = some header := hchain.head_eq
    have hset := hlists.setHead hchain.2 hrest fun block hblock =>
      hkept block (List.mem_cons_of_mem header hblock)
    refine ⟨_, by rw [finshBlockRemove, if_pos hhead], hset.setNext ?_ none,
      (sameBlocks_setHead ..).trans (sameBlocks_setNext ..)⟩
    intro other
    by_cases heq : other = list
    · subst heq
      rw [update_self]
      exact hnot
    · rw [update_of_ne heq]
      exact hkept header List.mem_cons_self other heq
  · rw [List.concat_eq_append] at *
    have happend : ∀ rest, front ++ [last] ++ rest = front ++ last :: rest := fun rest => by
      rw [List.append_assoc, List.singleton_append]
    rw [happend] at hchain hrest hcells hkept ⊢
    have hbefore : header ∉ front ++ [last] := fun hmem => hnot (List.mem_append_left right hmem)
    have hhead : heap.head list ≠ some header := start_ne_of_before hchain hbefore
    have hfits : front.length < cfg.fuel := by
      rw [List.length_append] at hfuel
      rw [HeapConfig.fuel]
      omega
    have hdrop : Chain heap.next right.head? right := by
      have htail : Chain heap.next (heap.head list) (front ++ [last, header] ++ right) := by
        simpa using hchain
      exact htail.drop
    refine ⟨_, by rw [finshBlockRemove, if_neg hhead, removeBehind_spec hchain hbefore hfits],
      hlists.relink hcells hdrop hrest fun block hblock => hkept block ?_,
      sameBlocks_setNext ..⟩
    exact List.mem_append_right front (List.mem_cons_of_mem last
      (List.mem_cons_of_mem header hblock))

/-! ## Splitting a block -/

/-- The block behind the split is linked behind the one in front of it. -/
theorem finshBlockSplit_spec {size fresh : ℕ} (hlists : Lists heap cells)
    (hcells : cells list = left ++ header :: right)
    (hfresh : header + cfg.headerSize + size = fresh) (hnew : ∀ other, fresh ∉ cells other) :
    Lists (finshBlockSplit cfg heap header size)
        (update cells list (left ++ header :: fresh :: right)) ∧
      (finshBlockSplit cfg heap header size).length =
        update (update heap.length fresh
          (heap.length header - cfg.headerSize - size)) header size ∧
      (finshBlockSplit cfg heap header size).data = heap.data := by
  have hchain := hcells ▸ hlists.chain list
  have hold := hcells ▸ hlists.nodup list
  have hnot : fresh ∉ left ++ header :: right := hcells ▸ hnew list
  have hsplit : finshBlockSplit cfg heap header size =
      (((heap.setLength fresh (heap.length header - cfg.headerSize - size)).setLength header
        size).setNext fresh right.head?).setNext header (some fresh) := by
    rw [finshBlockSplit, hfresh, ← hchain.next_eq]
    simp only [next_setLength]
  have hperm : (left ++ header :: fresh :: right).Perm (fresh :: (left ++ header :: right)) :=
    ((List.Perm.swap fresh header right).append_left left).trans List.perm_middle
  have hset := ((hlists.setLength fresh (heap.length header - cfg.headerSize - size)).setLength
    header size).setNext hnew right.head?
  have hright : fresh ∉ right := fun hmem =>
    hnot (List.mem_append_right left (List.mem_cons_of_mem header hmem))
  rw [hsplit]
  refine ⟨hset.relink hcells ?_ ?_ ?_, ?_, rfl⟩
  · refine ⟨rfl, ?_⟩
    rw [next_setNext, update_self, next_setLength, next_setLength]
    rw [← hchain.next_eq]
    exact hchain.drop.2.update_of_not_mem _ hright
  · exact hperm.nodup_iff.2 (List.nodup_cons.2 ⟨hnot, hold⟩)
  · intro block hblock other hne
    rcases List.mem_cons.1 hblock with rfl | hblock
    · exact hnew other
    · exact hlists.apart list other hne.symm block
        (hcells ▸ List.mem_append_right left (List.mem_cons_of_mem header hblock))
  · simp only [length_setNext, length_setLength]

/-! ## Looking for a block -/

theorem findPrevious_spec (hchain : Chain heap.next start (left ++ last :: header :: right))
    (hnot : header ∉ left ++ [last]) (hfuel : left.length < fuel) :
    findPrevious heap header fuel start = some (some last) := by
  induction left generalizing start fuel with
  | nil =>
    obtain ⟨fuel, rfl⟩ := Nat.exists_eq_add_one_of_ne_zero (by omega : fuel ≠ 0)
    obtain ⟨rfl, hnext, -⟩ := hchain
    rw [findPrevious, if_pos hnext]
  | cons node left ih =>
    obtain ⟨fuel, rfl⟩ := Nat.exists_eq_add_one_of_ne_zero (by omega : fuel ≠ 0)
    obtain ⟨rfl, htail⟩ := hchain
    rw [List.cons_append, List.mem_cons, not_or] at hnot
    rw [List.length_cons] at hfuel
    rw [findPrevious, if_neg (start_ne_of_before htail hnot.2)]
    exact ih htail hnot.2 (by omega)

/-- The neighbours in the list are the ones that are merged. -/
theorem finshBlockMerge_spec (hlists : Lists heap cells)
    (hcells : cells list = left ++ header :: right) (hfuel : left.length ≤ cfg.heapMax) :
    finshBlockMerge cfg heap list header =
      some (mergeNodes cfg heap header left.getLast? right.head?) := by
  have hchain := hcells ▸ hlists.chain list
  have hnodup := hcells ▸ hlists.nodup list
  obtain ⟨hnot, -⟩ := List.nodup_cons.1 (List.nodup_middle.1 hnodup)
  rw [finshBlockMerge, hchain.next_eq]
  rcases List.eq_nil_or_concat left with rfl | ⟨front, last, rfl⟩
  · have hhead : heap.head list = some header := hchain.head_eq
    rw [if_pos hhead]
    rfl
  · rw [List.concat_eq_append] at *
    have happend : ∀ rest, front ++ [last] ++ rest = front ++ last :: rest := fun rest => by
      rw [List.append_assoc, List.singleton_append]
    rw [happend] at hchain
    have hbefore : header ∉ front ++ [last] := fun hmem => hnot (List.mem_append_left right hmem)
    have hhead : heap.head list ≠ some header := start_ne_of_before hchain hbefore
    have hfits : front.length < cfg.fuel := by
      rw [List.length_append] at hfuel
      rw [HeapConfig.fuel]
      omega
    rw [if_neg hhead, findPrevious_spec hchain hbefore hfits, List.getLast?_concat]
    rfl

theorem firstFit_spec {fits : ℕ → Bool} {blocks : List ℕ} (hchain : Chain heap.next start blocks)
    (hfuel : blocks.length < fuel) :
    firstFit fits heap fuel start = some (blocks.find? fun block => fits (heap.length block)) := by
  induction blocks generalizing start fuel with
  | nil =>
    obtain ⟨fuel, rfl⟩ := Nat.exists_eq_add_one_of_ne_zero (by omega : fuel ≠ 0)
    rw [hchain.head_eq]
    rfl
  | cons block blocks ih =>
    obtain ⟨fuel, rfl⟩ := Nat.exists_eq_add_one_of_ne_zero (by omega : fuel ≠ 0)
    rw [List.length_cons] at hfuel
    rw [hchain.1, firstFit, List.find?_cons]
    cases fits (heap.length block) with
    | true => rfl
    | false => exact ih hchain.2 (by omega)

end RtThread.Finsh
