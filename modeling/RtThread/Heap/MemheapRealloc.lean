import RtThread.Heap.MemheapInvariant

set_option linter.all false

/-!
# `rt_memheap_realloc`

A live item grows into a free successor, is moved, stays as it is, or gives its end back.
The test for growing is made in words, with a signed size of the successor, so it can pass
where the successor is too short; the specification asks for the sizes to be enough.
-/

namespace RtThread.Memheap

open RtThread.Core RtThread.Core.Tile
open RtThread.SmallMem (HeapConfig Fault rtAssert rtAssert_bind ok_bind rtMemcpy)

variable {cfg : HeapConfig} {heap heap' : RtMemheap} {tiles before rest : List Tile}
variable {pending free live : List ℕ} {left right tile : Tile} {item gone fresh : ℕ}

variable {newsize : ℕ}

/-- An item grows into its successor, and the rest of the successor is built again. -/
theorem growItem_spec {gone : ℕ}
    (hinv : Inv cfg heap (before ++ ⟨item, true⟩ :: ⟨gone, false⟩ :: right :: rest) free live)
    (hlow : memitemSize cfg heap item < newsize)
    (hhigh : newsize ≤ memitemSize cfg heap gone + memitemSize cfg heap item) :
    Inv cfg (growItem cfg heap item newsize)
        (before ++ ⟨item, true⟩ :: ⟨item + rtMemheapSize cfg + newsize, false⟩ :: right :: rest)
        ((item + rtMemheapSize cfg + newsize) :: free.erase gone) live ∧
      Follows heap (growItem cfg heap item newsize) := by
  have hlayout := hinv.layout
  have htiling := hlayout.tiling
  have hmoved : Tiling cfg heap
      ((before ++ [⟨item, true⟩]) ++ ⟨gone, false⟩ :: right :: rest) := by
    simpa using htiling
  have hsize := rtMemheapSize_ge cfg
  have hitem : memitemSize cfg heap item = gone - item - rtMemheapSize cfg :=
    htiling.memitemSize_eq
  have hgone : memitemSize cfg heap gone = right.address - gone - rtMemheapSize cfg :=
    hmoved.memitemSize_eq
  have hleft : item + rtMemheapSize cfg ≤ gone := htiling.spaced.next_le
  have hmem : right ∈ before ++ ⟨item, true⟩ :: ⟨gone, false⟩ :: right :: rest := by simp
  have hbound := (htiling.bounds hmem).2
  have hfits := htiling.pool.fits
  have hadd : cfg.add (cfg.add item (rtMemheapSize cfg)) newsize =
      item + rtMemheapSize cfg + newsize := add_add_eq (by omega)
  have hnext : heap.next item = gone := htiling.next_eq.1
  have hfree : gone ∈ free := hlayout.free_perm.mem_iff.2 (by simp [mem_unused])
  set missing := cfg.sub newsize (memitemSize cfg heap item) with hmissing
  have hunlinked :=
    (hlayout.setAvailable (cfg.sub heap.availableSize missing)).noteUsed.unlink hfree
  have hdropped := hunlinked.drop
  have hlowFresh : item + rtMemheapSize cfg ≤ item + rtMemheapSize cfg + newsize :=
    Nat.le_add_right ..
  have hhighFresh : item + rtMemheapSize cfg + newsize + rtMemheapSize cfg ≤
    right.address := by
    omega
  have hsplit := hdropped.split hlowFresh hhighFresh
  have hequation : growItem cfg heap item newsize = linkFree (splitItem (mergeNext (unlinkFree
      (noteUsed (setAvailable heap (cfg.sub heap.availableSize missing))) gone) item) item
      (item + rtMemheapSize cfg + newsize)) (item + rtMemheapSize cfg + newsize) := by
    rw [growItem, hnext, hadd]
    have hremove := hunlinked.tiling.removeItem_eq
    exact congrArg (fun heap => linkFree (splitItem heap item _) _) hremove
  have hlink : Layout cfg (growItem cfg heap item newsize)
      (before ++ ⟨item, true⟩ :: ⟨item + rtMemheapSize cfg + newsize, false⟩ :: right :: rest) []
      ((item + rtMemheapSize cfg + newsize) :: free.erase gone) := by
    rw [hequation]
    exact hsplit.link
  have hfollows : Follows heap (growItem cfg heap item newsize) := by
    rw [growItem]
    exact .linkFree (.splitItem (.removeItem (.unlinkFree (follows_noteUsed rfl rfl rfl))))
  refine ⟨Inv.of_follows hlink ?_ ?_ hfollows ?_, hfollows⟩
  · obtain ⟨hfront, -, hback⟩ := coalesced_append_cons_cons.1 hinv.coalesced
    obtain ⟨hneighbour, hback⟩ := List.isChain_cons_cons.1 hback
    exact coalesced_append_cons_cons.2
      ⟨hfront, .inl rfl, List.isChain_cons_cons.2 ⟨hneighbour, hback⟩⟩
  · have hold := hinv.available
    have hle := htiling.freeBytes_le
    have havailable : (growItem cfg heap item newsize).availableSize =
        u32 (cfg.sub heap.availableSize missing) := by
      rw [growItem, noteUsed_eq]
      rfl
    rw [havailable]
    refine u32_eq hlink.tiling ?_
    rw [freeBytes_append_cons_cons true, freeBytes_cons_cons] at hold hle ⊢
    simp only [Bool.false_eq_true, if_false, if_true] at hold hle ⊢
    have hmissingEq : missing = newsize - memitemSize cfg heap item :=
      cfg.sub_eq hlow.le (by omega)
    rw [cfg.sub_eq (by omega) (by omega)]
    omega
  · simpa using hinv.live_perm

/-- The last lines of a shrinking `rt_memheap_realloc`: the new item is linked and counted. -/
theorem giveBack_spec {shrunk : RtMemheap} {next : Tile}
    (hinv : Inv cfg heap tiles free live)
    (hlayout : Layout cfg shrunk (before ++ ⟨item, true⟩ :: ⟨fresh, false⟩ :: next :: rest)
      [fresh] pending)
    (hcoalesced : Coalesced (before ++ ⟨item, true⟩ :: ⟨fresh, false⟩ :: next :: rest))
    (hpayloads : payloads (rtMemheapSize cfg)
        (before ++ ⟨item, true⟩ :: ⟨fresh, false⟩ :: next :: rest) =
      payloads (rtMemheapSize cfg) tiles)
    (hstart : shrunk.startAddr = heap.startAddr) (hpool : shrunk.poolSize = heap.poolSize)
    (hmax : shrunk.maxUsedSize = heap.maxUsedSize)
    (havailable : shrunk.availableSize + (next.address - fresh - rtMemheapSize cfg) =
      freeBytes (rtMemheapSize cfg) (before ++ ⟨item, true⟩ :: ⟨fresh, false⟩ :: next :: rest))
    (hle : heap.availableSize ≤ freeBytes (rtMemheapSize cfg)
      (before ++ ⟨item, true⟩ :: ⟨fresh, false⟩ :: next :: rest)) :
    let linked := linkFree shrunk fresh
    let final := setAvailable linked (linked.availableSize + memitemSize cfg linked fresh)
    Inv cfg final (before ++ ⟨item, true⟩ :: ⟨fresh, false⟩ :: next :: rest) (fresh :: pending)
      live ∧ Follows heap final := by
  intro linked final
  have hlinked : Layout cfg linked _ [] (fresh :: pending) := hlayout.link
  have hmoved : Tiling cfg linked
      ((before ++ [⟨item, true⟩]) ++ ⟨fresh, false⟩ :: next :: rest) := by
    simpa using hlinked.tiling
  have hsize : memitemSize cfg linked fresh = next.address - fresh - rtMemheapSize cfg :=
    hmoved.memitemSize_eq
  have hfinal : final.availableSize = freeBytes (rtMemheapSize cfg)
      (before ++ ⟨item, true⟩ :: ⟨fresh, false⟩ :: next :: rest) := by
    refine u32_eq hlinked.tiling ?_
    rw [hsize]
    exact havailable
  have hgrown : Grown cfg heap final
      (before ++ ⟨item, true⟩ :: ⟨fresh, false⟩ :: next :: rest) :=
    ⟨hstart, hpool, hmax, hfinal, hfinal ▸ hle⟩
  have hlayout' := hlinked.setAvailable (linked.availableSize + memitemSize cfg linked fresh)
  have hfollows := hgrown.follows hinv hlayout'.tiling
  exact ⟨Inv.of_follows hlayout' hcoalesced hfinal hfollows (hpayloads ▸ hinv.live_perm), hfollows⟩

theorem shrinkItem_spec (hinv : Inv cfg heap (before ++ ⟨item, true⟩ :: right :: rest) free live)
    (hroom : newsize + rtMemheapSize cfg ≤ memitemSize cfg heap item) :
    ∃ tiles' free', Inv cfg (shrinkItem cfg heap item newsize) tiles' free' live ∧
      Follows heap (shrinkItem cfg heap item newsize) ∧
      addresses tiles' ⊆ (item + newsize + rtMemheapSize cfg) ::
        addresses (before ++ ⟨item, true⟩ :: right :: rest) := by
  have hlayout := hinv.layout
  have htiling := hlayout.tiling
  have hsize := rtMemheapSize_ge cfg
  have hitem : memitemSize cfg heap item = right.address - item - rtMemheapSize cfg :=
    htiling.memitemSize_eq
  have hmem : right ∈ before ++ ⟨item, true⟩ :: right :: rest := by simp
  have hbound := (htiling.bounds hmem).2
  have hfits := htiling.pool.fits
  have hold := hinv.available
  have hbytes := htiling.freeBytes_le
  obtain ⟨hfront, -, hback⟩ := coalesced_append_cons_cons.1 hinv.coalesced
  have hadd : cfg.add (cfg.add item newsize) (rtMemheapSize cfg) =
      item + newsize + rtMemheapSize cfg := add_add_eq (by omega)
  rw [shrinkItem, hadd]
  have hlow : item + rtMemheapSize cfg ≤ item + newsize + rtMemheapSize cfg := by omega
  have hhigh : item + newsize + rtMemheapSize cfg + rtMemheapSize cfg ≤ right.address := by
    omega
  generalize item + newsize + rtMemheapSize cfg = fresh at *
  have hsplit : Layout cfg (splitItem heap item fresh)
      ((before ++ [⟨item, true⟩]) ++ ⟨fresh, false⟩ :: right :: rest) [fresh] free := by
    simpa using hlayout.split hlow hhigh
  have hnext : (splitItem heap item fresh).next fresh = right.address := hsplit.tiling.next_eq.1
  have hright : right ∈ (before ++ [⟨item, true⟩]) ++ ⟨fresh, false⟩ :: right :: rest := by simp
  have hused := hsplit.tiling.isUsed_iff hright
  rw [hnext]
  split
  · next hcase =>
    have hplaces : addresses (before ++ ⟨item, true⟩ :: ⟨fresh, false⟩ :: right :: rest) ⊆
        fresh :: addresses (before ++ ⟨item, true⟩ :: right :: rest) :=
      addresses_insert_subset ⟨fresh, false⟩ rfl (List.Subset.refl _)
    refine ⟨_, _, and_assoc.1 ⟨giveBack_spec hinv (by simpa using hsplit) ?_ (by simp) rfl rfl rfl
      ?_ ?_, hplaces⟩⟩
    · exact coalesced_append_cons_cons.2
        ⟨hfront, .inl rfl, List.isChain_cons_cons.2 ⟨.inr (hused.1 hcase), hback⟩⟩
    · change heap.availableSize + _ = _
      rw [freeBytes_append_cons_cons true] at hold
      rw [freeBytes_append_cons_cons true, freeBytes_cons_cons, hold]
      simp only [Bool.false_eq_true, if_false, if_true]
      omega
    · rw [freeBytes_append_cons_cons true] at hold
      rw [freeBytes_append_cons_cons true, freeBytes_cons_cons, hold]
      simp only [Bool.false_eq_true, if_false, if_true]
      omega
  · next hcase =>
    obtain ⟨gone, used⟩ := right
    obtain rfl : used = false := by rwa [hused, Bool.not_eq_true] at hcase
    obtain ⟨next, rest, rfl⟩ := hlayout.exists_after
    have hmoved : Tiling cfg (splitItem heap item fresh) ((before ++ [⟨item, true⟩] ++
        [⟨fresh, false⟩]) ++ ⟨gone, false⟩ :: next :: rest) := by
      simpa using hsplit.tiling
    have hgone : memitemSize cfg (splitItem heap item fresh) gone =
        next.address - gone - rtMemheapSize cfg := hmoved.memitemSize_eq
    have hne : gone ∉ [fresh] := by
      rw [List.mem_singleton]
      dsimp only at hhigh
      omega
    have hjoined := (hsplit.setAvailable (cfg.sub (splitItem heap item fresh).availableSize
      (memitemSize cfg (splitItem heap item fresh) gone))).join hne
    obtain ⟨hneighbour, hback⟩ := List.isChain_cons_cons.1 hback
    have hsmall := htiling.pool.small
    rw [freeBytes_append_cons_cons true, freeBytes_cons_cons] at hold hbytes
    simp only [Bool.false_eq_true, if_false, if_true] at hold hbytes
    have hrest : u32 (cfg.sub heap.availableSize
        (memitemSize cfg (splitItem heap item fresh) gone)) =
          freeBytes (rtMemheapSize cfg) (before ++ [⟨item, true⟩]) +
            freeBytes (rtMemheapSize cfg) (next :: rest) := by
      have hsub : cfg.sub heap.availableSize
          (memitemSize cfg (splitItem heap item fresh) gone) =
            freeBytes (rtMemheapSize cfg) (before ++ [⟨item, true⟩]) +
              freeBytes (rtMemheapSize cfg) (next :: rest) := by
        rw [hgone, cfg.sub_eq (by omega) (by omega)]
        omega
      rw [hsub, u32, Nat.mod_eq_of_lt (by omega)]
    have hsum : freeBytes (rtMemheapSize cfg)
        (before ++ ⟨item, true⟩ :: ⟨fresh, false⟩ :: next :: rest) =
          freeBytes (rtMemheapSize cfg) (before ++ [⟨item, true⟩]) +
            (next.address - fresh - rtMemheapSize cfg) +
            freeBytes (rtMemheapSize cfg) (next :: rest) := by
      rw [freeBytes_append_cons_cons true, freeBytes_cons_cons]
      simp only [Bool.false_eq_true, if_false, if_true]
      omega
    have hplaces : addresses (before ++ ⟨item, true⟩ :: ⟨fresh, false⟩ :: next :: rest) ⊆
        fresh :: addresses (before ++ ⟨item, true⟩ :: ⟨gone, false⟩ :: next :: rest) :=
      addresses_insert_subset ⟨fresh, false⟩ rfl (List.subset_cons_self _ _)
    refine ⟨_, _, and_assoc.1 ⟨giveBack_spec hinv (by simpa using hjoined) ?_ (by simp) rfl rfl rfl
      ?_ ?_, hplaces⟩⟩
    · exact coalesced_append_cons_cons.2
        ⟨hfront, .inl rfl, List.isChain_cons_cons.2 ⟨hneighbour, hback⟩⟩
    · change u32 (cfg.sub heap.availableSize
        (memitemSize cfg (splitItem heap item fresh) gone)) + _ = _
      rw [hrest, hsum]
      omega
    · rw [hsum, hold]
      dsimp only at hhigh
      omega

/-- When the test for growing passes, the successor is long enough. -/
def RoomToGrow (cfg : HeapConfig) (heap : RtMemheap) (ptr newsize : ℕ) : Prop :=
  let header := cfg.sub ptr (rtMemheapSize cfg)
  Enlarges cfg heap ptr newsize → Grows cfg heap header (requestSize cfg newsize) →
    requestSize cfg newsize ≤
      memitemSize cfg heap (heap.next header) + memitemSize cfg heap header

instance (heap : RtMemheap) (ptr newsize : ℕ) : Decidable (RoomToGrow cfg heap ptr newsize) :=
  inferInstanceAs (Decidable (_ → _ → _))

/-- What a call of `rt_memheap_realloc` leaves behind. -/
structure Reallocated (cfg : HeapConfig) (heap : RtMemheap) (live : List ℕ) (ptr newsize : ℕ)
    (heap' : RtMemheap) (newPtr : ℕ) : Prop where
  inv : ∃ tiles free, Inv cfg heap' tiles free (afterRealloc live ptr newsize newPtr)
  startAddr : heap'.startAddr = heap.startAddr
  poolSize : heap'.poolSize = heap.poolSize
  maxUsed : heap'.maxUsedSize =
    (usedDuring cfg heap ptr newsize ++ [usedSize heap']).foldl max heap.maxUsedSize

variable {ptr : ℕ}

theorem Reallocated.of_follows {newPtr : ℕ}
    (hinv : Inv cfg heap' tiles free (afterRealloc live ptr newsize newPtr))
    (hfollows : Follows heap heap') (hduring : usedDuring cfg heap ptr newsize = []) :
    Reallocated cfg heap live ptr newsize heap' newPtr where
  inv := ⟨tiles, free, hinv⟩
  startAddr := hfollows.startAddr
  poolSize := hfollows.poolSize
  maxUsed := by
    rw [hduring]
    exact hfollows.maxUsed

theorem usedDuring_of_not_enlarges (hnot : ¬ Enlarges cfg heap ptr newsize) :
    usedDuring cfg heap ptr newsize = [] := by
  rw [usedDuring, if_neg fun hand => hnot hand.1]

theorem Inv.follows_self (hinv : Inv cfg heap tiles free live) : Follows heap heap :=
  ⟨rfl, rfl, (max_eq_left hinv.used_le).symm⟩

theorem Inv.ne_zero (hinv : Inv cfg heap tiles free live) (hptr : ptr ∈ live) : ptr ≠ 0 := by
  obtain ⟨before, item, next, rest, -, rfl⟩ := hinv.exists_item hptr
  have hsize := rtMemheapSize_ge cfg
  omega

theorem Inv.erase_zero (hinv : Inv cfg heap tiles free live) : live.erase 0 = live :=
  List.erase_of_not_mem fun hmem => hinv.ne_zero hmem rfl

theorem Inv.perm_live {live' : List ℕ} (hinv : Inv cfg heap tiles free live)
    (hperm : live.Perm live') : Inv cfg heap tiles free live' :=
  { hinv with live_perm := (hperm.symm.cons _).trans hinv.live_perm }

theorem Inv.afterRealloc_self (hinv : Inv cfg heap' tiles free live) (hptr : ptr ∈ live)
    (hnewsize : newsize ≠ 0) : Inv cfg heap' tiles free (afterRealloc live ptr newsize ptr) := by
  rw [afterRealloc, if_neg hnewsize, if_neg (hinv.ne_zero hptr)]
  exact hinv.perm_live (List.perm_cons_erase hptr)

theorem moveItem_spec (oldsize : ℕ) (hinv : Inv cfg heap tiles free live) (hptr : ptr ∈ live)
    (hnewsize : newsize ≠ 0)
    (hduring : ∀ heap' newPtr, rtMemheapAlloc cfg heap (requestSize cfg newsize) =
      .ok (heap', newPtr) → usedDuring cfg heap ptr newsize = [usedSize heap']) :
    ∃ heap' newPtr, moveItem cfg heap ptr oldsize (requestSize cfg newsize) =
      .ok (heap', newPtr) ∧ Reallocated cfg heap live ptr newsize heap' newPtr := by
  rcases rtMemheapAlloc_spec hinv (requestSize cfg newsize) with
    hfail | ⟨heap', newPtr, tiles', free', halloc, hne, hinv', hfollows⟩
  · refine ⟨heap, 0, ?_, ⟨tiles, free, ?_⟩, rfl, rfl, ?_⟩
    · rw [moveItem, hfail]
      rfl
    · rwa [afterRealloc, if_neg hnewsize, if_pos rfl]
    · have hle := hinv.used_le
      rw [hduring _ _ hfail]
      simp [hle]
  · set length := if oldsize < requestSize cfg newsize then oldsize
      else requestSize cfg newsize with hlength
    have hcopied : Inv cfg { heap' with data := rtMemcpy heap'.data newPtr ptr length }
        tiles' free' (newPtr :: live) := hinv'.writeData _
    obtain ⟨final, tiles'', free'', hfree, hinv'', hfollows', -⟩ :=
      rtMemheapFree_spec hcopied (List.mem_cons_of_mem newPtr hptr)
    have hother : newPtr ≠ ptr := by
      rintro rfl
      exact (List.nodup_cons.1 (List.nodup_cons.1 hinv'.live_nodup).2).1 hptr
    refine ⟨final, newPtr, ?_, ⟨tiles'', free'', ?_⟩, ?_, ?_, ?_⟩
    · rw [moveItem, halloc, ok_bind]
      dsimp only
      rw [if_neg hne, hfree]
      rfl
    · rw [List.erase_cons_tail (by simpa using hother)] at hinv''
      rwa [afterRealloc, if_neg hnewsize, if_neg hne]
    · exact hfollows'.startAddr.trans hfollows.startAddr
    · exact hfollows'.poolSize.trans hfollows.poolSize
    · rw [hduring _ _ halloc, hfollows'.maxUsed]
      exact congrArg (max · (usedSize final)) hfollows.maxUsed

theorem Tiling.sub_header (htiling : Tiling cfg heap (before ++ tile :: rest)) :
    cfg.sub (tile.address + rtMemheapSize cfg) (rtMemheapSize cfg) = tile.address := by
  have htile : tile ∈ before ++ tile :: rest := by simp
  have hbound := (htiling.bounds htile).2
  have hfits := htiling.pool.fits
  have hsize := rtMemheapSize_ge cfg
  rcases Nat.lt_or_ge (tile.address + rtMemheapSize cfg) cfg.wordSize with hlt | hge
  · rw [cfg.sub_eq (Nat.le_add_left ..) hlt, Nat.add_sub_cancel]
  · have heq : tile.address + rtMemheapSize cfg = cfg.wordSize := by omega
    rw [HeapConfig.sub, heq, Nat.add_mod_left, Nat.mod_eq_of_lt (by omega)]
    omega

/-- The item of a live pointer grows, is moved, stays or shrinks. -/
theorem rtMemheapRealloc_live_cases
    (hinv : Inv cfg heap (before ++ ⟨item, true⟩ :: right :: rest) free live)
    (hnewsize : newsize ≠ 0) (hroom : RoomToGrow cfg heap (item + rtMemheapSize cfg) newsize) :
    let request := requestSize cfg newsize
    let result := rtMemheapRealloc cfg heap (item + rtMemheapSize cfg) newsize
    (Grows cfg heap item request ∧ memitemSize cfg heap item < request ∧
      (∃ gone next rest', right = ⟨gone, false⟩ ∧ rest = next :: rest' ∧
        request ≤ memitemSize cfg heap gone + memitemSize cfg heap item) ∧
      result = .ok (growItem cfg heap item request, item + rtMemheapSize cfg)) ∨
    (¬ Grows cfg heap item request ∧ memitemSize cfg heap item < request ∧
      result = moveItem cfg heap (item + rtMemheapSize cfg) (memitemSize cfg heap item)
        request) ∨
    (request ≤ memitemSize cfg heap item ∧
      result = .ok (heap, item + rtMemheapSize cfg)) ∨
    (request + rtMemheapSize cfg ≤ memitemSize cfg heap item ∧
      result = .ok (shrinkItem cfg heap item request, item + rtMemheapSize cfg)) := by
  intro request result
  have htiling := hinv.layout.tiling
  have hsize := rtMemheapSize_ge cfg
  have hmem : right ∈ before ++ ⟨item, true⟩ :: right :: rest := by simp
  have hbound := (htiling.bounds hmem).2
  have hfits := htiling.pool.fits
  have hle : item + rtMemheapSize cfg ≤ right.address := htiling.spaced.next_le
  have hitemSize : memitemSize cfg heap item = right.address - item - rtMemheapSize cfg :=
    htiling.memitemSize_eq
  have hnext : heap.next item = right.address := htiling.next_eq.1
  have hzero : item + rtMemheapSize cfg ≠ 0 := by omega
  have hheader : cfg.sub (item + rtMemheapSize cfg) (rtMemheapSize cfg) = item :=
    htiling.sub_header
  have hresult : result = if memitemSize cfg heap item < request then do
        rtAssert (item < heap.next item)
        if Grows cfg heap item request then
          return (growItem cfg heap item request, item + rtMemheapSize cfg)
        else
          moveItem cfg heap (item + rtMemheapSize cfg) (memitemSize cfg heap item) request
      else if memitemSize cfg heap item ≤
          cfg.add (cfg.add request (rtMemheapSize cfg)) rtMemheapMinialloc then
        .ok (heap, item + rtMemheapSize cfg)
      else .ok (shrinkItem cfg heap item request, item + rtMemheapSize cfg) := by
    change rtMemheapRealloc cfg heap (item + rtMemheapSize cfg) newsize = _
    rw [rtMemheapRealloc, if_neg hnewsize]
    rw [if_neg hzero, hheader]
  rw [hresult]
  by_cases hlow : memitemSize cfg heap item < request
  · rw [if_pos hlow, rtAssert_bind (by omega)]
    by_cases hgrows : Grows cfg heap item request
    · left
      rw [if_pos hgrows]
      have henough : request ≤
          memitemSize cfg heap (heap.next item) + memitemSize cfg heap item := by
        rw [RoomToGrow, hheader] at hroom
        refine hroom ⟨hnewsize, hzero, ?_⟩ hgrows
        rwa [hheader]
      rw [hnext] at henough
      obtain ⟨gone, used⟩ := right
      obtain rfl : used = false := by
        have hunused := hgrows.1
        rw [hnext] at hunused
        rwa [htiling.isUsed_iff hmem, Bool.not_eq_true] at hunused
      obtain ⟨next, rest, rfl⟩ := hinv.layout.exists_after
      exact ⟨hgrows, hlow, ⟨gone, next, rest, rfl, rfl, henough⟩, rfl⟩
    · right
      left
      rw [if_neg hgrows]
      exact ⟨hgrows, hlow, rfl⟩
  · right
    right
    have hneed : cfg.add (cfg.add request (rtMemheapSize cfg)) rtMemheapMinialloc =
        request + rtMemheapSize cfg + rtMemheapMinialloc :=
      add_add_eq (by rw [rtMemheapMinialloc]; omega)
    rw [if_neg hlow, hneed]
    split
    · exact .inl ⟨not_lt.1 hlow, rfl⟩
    · next hcut => exact .inr ⟨by omega, rfl⟩

theorem rtMemheapRealloc_live_spec (hinv : Inv cfg heap tiles free live) (hptr : ptr ∈ live)
    (hnewsize : newsize ≠ 0) (hroom : RoomToGrow cfg heap ptr newsize) :
    ∃ heap' newPtr, rtMemheapRealloc cfg heap ptr newsize = .ok (heap', newPtr) ∧
      Reallocated cfg heap live ptr newsize heap' newPtr := by
  have hzero := hinv.ne_zero hptr
  obtain ⟨before, item, next, rest, rfl, rfl⟩ := hinv.exists_item hptr
  have hheader : cfg.sub (item + rtMemheapSize cfg) (rtMemheapSize cfg) = item :=
    hinv.layout.tiling.sub_header
  have henlarges : Enlarges cfg heap (item + rtMemheapSize cfg) newsize ↔
      memitemSize cfg heap item < requestSize cfg newsize := by
    rw [Enlarges, hheader]
    tauto
  rcases rtMemheapRealloc_live_cases hinv hnewsize hroom with
    ⟨hgrows, hlow, ⟨gone, right, rest, rfl, rfl, henough⟩, hresult⟩ | ⟨hnot, hlow, hresult⟩ |
      ⟨hle, hresult⟩ | ⟨hle, hresult⟩
  · have hduring : usedDuring cfg heap (item + rtMemheapSize cfg) newsize = [] := by
      rw [usedDuring, hheader, if_neg fun hand => hand.2 hgrows]
    obtain ⟨hinv', hfollows⟩ := growItem_spec hinv hlow henough
    exact ⟨_, _, hresult, .of_follows (hinv'.afterRealloc_self hptr hnewsize) hfollows hduring⟩
  · rw [hresult]
    refine moveItem_spec _ hinv hptr hnewsize fun heap' newPtr halloc => ?_
    rw [usedDuring, hheader, if_pos ⟨henlarges.2 hlow, hnot⟩, halloc]
  · have hduring := usedDuring_of_not_enlarges (henlarges.not.2 hle.not_gt)
    exact ⟨_, _, hresult,
      .of_follows (hinv.afterRealloc_self hptr hnewsize) hinv.follows_self hduring⟩
  · have hfit := (Nat.le_add_right _ _).trans hle
    have hduring := usedDuring_of_not_enlarges (henlarges.not.2 hfit.not_gt)
    obtain ⟨tiles', free', hinv', hfollows, -⟩ := shrinkItem_spec hinv hle
    exact ⟨_, _, hresult, .of_follows (hinv'.afterRealloc_self hptr hnewsize) hfollows hduring⟩

theorem rtMemheapRealloc_spec (hinv : Inv cfg heap tiles free live) (hholds : ptr = 0 ∨ ptr ∈ live)
    (hroom : RoomToGrow cfg heap ptr newsize) :
    ∃ heap' newPtr, rtMemheapRealloc cfg heap ptr newsize = .ok (heap', newPtr) ∧
      Reallocated cfg heap live ptr newsize heap' newPtr := by
  by_cases hnewsize : newsize = 0
  · subst hnewsize
    have hduring : usedDuring cfg heap ptr 0 = [] :=
      usedDuring_of_not_enlarges fun hand => hand.1 rfl
    have hequation : rtMemheapRealloc cfg heap ptr 0 =
        rtMemheapFree cfg heap ptr >>= fun heap => return (heap, 0) := if_pos rfl
    rw [hequation]
    rcases hholds with rfl | hptr
    · have hafter : Inv cfg heap tiles free (afterRealloc live 0 0 0) := by
        rwa [afterRealloc, if_pos rfl, hinv.erase_zero]
      exact ⟨heap, 0, rfl, .of_follows hafter hinv.follows_self hduring⟩
    · obtain ⟨heap', tiles', free', hfree, hinv', hfollows, -⟩ := rtMemheapFree_spec hinv hptr
      rw [hfree]
      exact ⟨heap', 0, rfl, .of_follows hinv' hfollows hduring⟩
  · rcases hholds with rfl | hptr
    · have hduring : usedDuring cfg heap 0 newsize = [] :=
        usedDuring_of_not_enlarges fun hand => hand.2.1 rfl
      have hequation : rtMemheapRealloc cfg heap 0 newsize =
          rtMemheapAlloc cfg heap (requestSize cfg newsize) := by
        rw [rtMemheapRealloc, if_neg hnewsize]
        exact if_pos rfl
      rw [hequation]
      rcases rtMemheapAlloc_spec hinv (requestSize cfg newsize) with
        hfail | ⟨heap', newPtr, tiles', free', halloc, hne, hinv', hfollows⟩
      · have hafter : Inv cfg heap tiles free (afterRealloc live 0 newsize 0) := by
          rwa [afterRealloc, if_neg hnewsize, if_pos rfl]
        exact ⟨heap, 0, hfail, .of_follows hafter hinv.follows_self hduring⟩
      · have hafter : Inv cfg heap' tiles' free' (afterRealloc live 0 newsize newPtr) := by
          rwa [afterRealloc, if_neg hnewsize, if_neg hne, hinv.erase_zero]
        exact ⟨heap', newPtr, halloc, .of_follows hafter hfollows hduring⟩
    · exact rtMemheapRealloc_live_spec hinv hptr hnewsize hroom

end RtThread.Memheap
