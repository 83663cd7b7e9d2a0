import RtThread.Drivers.RingBlk

set_option linter.all false

/-!
# Queues of ring blocks

`rt_rbb_blk_queue_get` selects a run of blocks by walking the list, and describes the run by
its first descriptor and a count.  `rt_rbb_blk_queue_len` and `rt_rbb_blk_queue_free` walk the
descriptors from there through the block set.  The queue is right exactly when the run lies in
one piece both in the buffer and in the block set.
-/

namespace RtThread.RingBlk

open RtThread.Core

/-- `rt_rbb_blk_queue_len`. -/
def rtRbbBlkQueueLen (setup : Setup) (rbb : RtRbb) (queue : RtRbbBlkQueue) : ℕ :=
  (List.range' queue.blocks queue.blkNum).foldl
    (fun total block => setup.add total (rbb.blkSet block).size) 0

/-- `rt_rbb_blk_queue_buf`. -/
def rtRbbBlkQueueBuf (rbb : RtRbb) (queue : RtRbbBlkQueue) : ℕ :=
  (rbb.blkSet queue.blocks).buf

/-- The loop of `rt_rbb_next_blk_queue_len`, from its `last_block` on. -/
def nextQueueLenLoop (setup : Setup) (rbb : RtRbb) : Option ℕ → ℕ → List ℕ → ℕ
  | _, dataLen, [] => dataLen
  | none, dataLen, node :: rest =>
    if (rbb.blkSet node).status = .put then
      nextQueueLenLoop setup rbb (some node) (setup.add dataLen (rbb.blkSet node).size) rest
    else nextQueueLenLoop setup rbb none dataLen rest
  | some lastBlock, dataLen, node :: rest =>
    if (rbb.blkSet node).status ≠ .put ∨
        (rbb.blkSet lastBlock).buf > (rbb.blkSet node).buf then dataLen
    else nextQueueLenLoop setup rbb (some node) (setup.add dataLen (rbb.blkSet node).size) rest

def rtRbbNextBlkQueueLen (setup : Setup) (rbb : RtRbb) : ℕ :=
  nextQueueLenLoop setup rbb none 0 rbb.blkList

/-- The blocks that a call of `rt_rbb_blk_queue_get` took off the list. -/
def selected (before after : RtRbb) : List ℕ :=
  before.blkList.filter fun block => block ∉ after.blkList

def totalSize (rbb : RtRbb) (blocks : List ℕ) : ℕ :=
  (blocks.map fun block => (rbb.blkSet block).size).sum

/-- The bytes of the blocks. -/
def footprint (rbb : RtRbb) (blocks : List ℕ) : Finset ℕ :=
  blocks.toFinset.biUnion fun block => (rbb.blkSet block).range

/-- A queue of `size > 0` bytes is as it should be: it is no longer than asked for, its blocks
fill `size` bytes from its buffer on, its length is `size`, and freeing it frees exactly its
blocks. -/
def QueueConsistent (setup : Setup) (rbb : RtRbb) (queueDataLen : ℕ) : Prop :=
  let (after, size, queue) := rtRbbBlkQueueGet setup rbb queueDataLen
  let blocks := selected rbb after
  0 < size → size ≤ queueDataLen ∧ ∃ handle, queue = some handle ∧
    totalSize after blocks = size ∧
    footprint after blocks =
      Finset.Ico (rtRbbBlkQueueBuf after handle) (rtRbbBlkQueueBuf after handle + size) ∧
    rtRbbBlkQueueLen setup after handle = size ∧
    ∃ freed, rtRbbBlkQueueFree setup after handle = .ok freed ∧
      ∀ block < setup.blkMaxNum,
        ((after.blkSet block).Used ∧ ¬ (freed.blkSet block).Used ↔ block ∈ blocks)

/-! ## The run of blocks that are taken -/

/-- The blocks that follow in the run: they are put, do not lie below the last one, and fit
into the length that was asked for. -/
def runAfter (setup : Setup) (rbb : RtRbb) (queueDataLen : ℕ) : ℕ → ℕ → List ℕ → List ℕ
  | _, _, [] => []
  | lastBuf, total, node :: rest =>
    if (rbb.blkSet node).status = .put ∧ lastBuf ≤ (rbb.blkSet node).buf ∧
        setup.add total (rbb.blkSet node).size ≤ queueDataLen then
      node :: runAfter setup rbb queueDataLen (rbb.blkSet node).buf
        (setup.add total (rbb.blkSet node).size) rest
    else []

/-- The first run of put blocks on the list. -/
def putRun (setup : Setup) (rbb : RtRbb) (queueDataLen : ℕ) : List ℕ :=
  match rbb.blkList.dropWhile fun block => (rbb.blkSet block).status ≠ .put with
  | [] => []
  | first :: rest => first :: runAfter setup rbb queueDataLen (rbb.blkSet first).buf
      (setup.add 0 (rbb.blkSet first).size) rest

/-- The blocks that are not empty follow each other from `start` on, without a gap. -/
def Joined (rbb : RtRbb) : ℕ → List ℕ → Prop
  | _, [] => True
  | start, block :: rest =>
    if (rbb.blkSet block).size = 0 then Joined rbb start rest
    else (rbb.blkSet block).buf = start ∧ Joined rbb (rbb.blkSet block).stop rest

instance (rbb : RtRbb) : (start : ℕ) → (blocks : List ℕ) → Decidable (Joined rbb start blocks)
  | _, [] => isTrue trivial
  | start, block :: rest =>
    have : Decidable (Joined rbb start rest) := instDecidableJoined rbb start rest
    have : Decidable (Joined rbb (rbb.blkSet block).stop rest) :=
      instDecidableJoined rbb (rbb.blkSet block).stop rest
    inferInstanceAs (Decidable (if (rbb.blkSet block).size = 0 then Joined rbb start rest
      else (rbb.blkSet block).buf = start ∧ Joined rbb (rbb.blkSet block).stop rest))

/-- The run starts with a block that is not too long, leaves no gap in the buffer, does not
overflow a size, and has its descriptors side by side in the block set. -/
def RunInOnePiece (setup : Setup) (rbb : RtRbb) (queueDataLen : ℕ) : Prop :=
  match putRun setup rbb queueDataLen with
  | [] => True
  | first :: rest =>
    totalSize rbb (first :: rest) % 2 ^ setup.wordBits = 0 ∨
      (rbb.blkSet first).size ≤ queueDataLen ∧
      Joined rbb (rbb.blkSet first).buf (first :: rest) ∧
      totalSize rbb (first :: rest) < 2 ^ setup.wordBits ∧
      ∀ index < (first :: rest).length, first + index ∈ first :: rest

instance (setup : Setup) (rbb : RtRbb) (queueDataLen : ℕ) :
    Decidable (RunInOnePiece setup rbb queueDataLen) := by
  unfold RunInOnePiece
  exact match putRun setup rbb queueDataLen with
    | [] => inferInstance
    | _ :: _ => inferInstance

/-- The buffer after the blocks of the run were taken. -/
def taken (rbb : RtRbb) (run : List ℕ) : RtRbb where
  blkSet block :=
    if block ∈ run then { rbb.blkSet block with status := .get } else rbb.blkSet block
  blkList := rbb.blkList.filter fun block => block ∉ run

variable {setup : Setup} {rbb rbb' : RtRbb} {block node queueDataLen : ℕ} {run nodes : List ℕ}

theorem taken_nil (rbb : RtRbb) : taken rbb [] = rbb := by
  simp [taken]

theorem taken_taken (rbb : RtRbb) (node : ℕ) (run : List ℕ) :
    taken (taken rbb [node]) run = taken rbb (node :: run) := by
  simp only [taken, List.filter_filter, List.mem_cons, RtRbb.mk.injEq]
  refine ⟨?_, ?_⟩
  · funext block
    by_cases hrun : block ∈ run
    · by_cases hnode : block = node <;> simp [hrun, hnode]
    · simp [hrun]
  · refine List.filter_congr fun block _ => ?_
    simp [Bool.and_comm]

theorem takeBlock_rbb (setup : Setup) {scan : QueueScan} (node : ℕ)
    (hnodup : scan.rbb.blkList.Nodup) :
    (takeBlock setup scan node).rbb = taken scan.rbb [node] := by
  simp only [takeBlock, setStatus, setBlk, taken, RtRbb.mk.injEq]
  refine ⟨?_, ?_⟩
  · funext block
    by_cases hblock : block = node
    · simp [hblock]
    · simp [hblock]
  · rw [hnodup.erase_eq_filter]
    refine List.filter_congr fun block _ => ?_
    simp [bne, beq_eq_decide]

theorem runAfter_congr (hsame : ∀ block ∈ nodes, rbb'.blkSet block = rbb.blkSet block)
    (lastBuf total : ℕ) : runAfter setup rbb' queueDataLen lastBuf total nodes =
      runAfter setup rbb queueDataLen lastBuf total nodes := by
  induction nodes generalizing lastBuf total with
  | nil => rfl
  | cons node rest ih =>
    simp only [runAfter, hsame node List.mem_cons_self,
      ih fun block hmem => hsame block (List.mem_cons_of_mem _ hmem)]

theorem taken_nodup (hnodup : rbb.blkList.Nodup) (run : List ℕ) : (taken rbb run).blkList.Nodup :=
  hnodup.filter _

theorem runAfter_taken (hnot : node ∉ nodes) (lastBuf total : ℕ) :
    runAfter setup (taken rbb [node]) queueDataLen lastBuf total nodes =
      runAfter setup rbb queueDataLen lastBuf total nodes := by
  refine runAfter_congr ?_ lastBuf total
  intro block hmem
  have hne : block ≠ node := fun heq => hnot (heq ▸ hmem)
  simp [taken, hne]

/-- The loop once it has its first block: it takes the rest of the run. -/
theorem queueGetLoop_some {scan : QueueScan} {lastBlock : ℕ} (hnodes : nodes.Nodup)
    (hnodup : scan.rbb.blkList.Nodup) (hlast : scan.lastBlock = some lastBlock) :
    let run := runAfter setup scan.rbb queueDataLen (scan.rbb.blkSet lastBlock).buf
      scan.dataTotalSize nodes
    let after := queueGetLoop setup queueDataLen scan nodes
    after.rbb = taken scan.rbb run ∧
      after.dataTotalSize = run.foldl
        (fun total block => setup.add total (scan.rbb.blkSet block).size) scan.dataTotalSize ∧
      after.queue = scan.queue.map fun queue =>
        { queue with blkNum := queue.blkNum + run.length } := by
  induction nodes generalizing scan lastBlock with
  | nil =>
    refine ⟨(taken_nil _).symm, rfl, ?_⟩
    simp [queueGetLoop, runAfter]
  | cons node rest ih =>
    rw [List.nodup_cons] at hnodes
    simp only [queueGetLoop, hlast, runAfter]
    by_cases htake : (scan.rbb.blkSet node).status = .put ∧
        (scan.rbb.blkSet lastBlock).buf ≤ (scan.rbb.blkSet node).buf ∧
        setup.add scan.dataTotalSize (scan.rbb.blkSet node).size ≤ queueDataLen
    · have hgo : ¬ ((scan.rbb.blkSet node).status ≠ .put ∨
          (scan.rbb.blkSet lastBlock).buf > (scan.rbb.blkSet node).buf ∨
          setup.add scan.dataTotalSize (scan.rbb.blkSet node).size > queueDataLen) := by
        rw [not_or, not_or, not_not, not_lt, not_lt]
        exact htake
      rw [if_neg hgo, if_pos htake]
      have hrbb := takeBlock_rbb setup node hnodup
      have hbuf : ((taken scan.rbb [node]).blkSet node).buf = (scan.rbb.blkSet node).buf := by
        simp [taken]
      have hsize : ∀ block, ((taken scan.rbb [node]).blkSet block).size =
          (scan.rbb.blkSet block).size := by
        intro block
        simp only [taken]
        split <;> rfl
      have hrest := @ih (takeBlock setup scan node) node hnodes.2
        (hrbb ▸ taken_nodup hnodup [node]) rfl
      simp only [hrbb, hbuf, hsize, runAfter_taken hnodes.1, taken_taken] at hrest
      obtain ⟨hafter, htotal, hqueue⟩ := hrest
      refine ⟨hafter, htotal, ?_⟩
      rw [hqueue, takeBlock, Option.map_map]
      congr 1
      funext queue
      simp only [Function.comp, List.length_cons, RtRbbBlkQueue.mk.injEq, true_and]
      omega
    · have hstop : (scan.rbb.blkSet node).status ≠ .put ∨
          (scan.rbb.blkSet lastBlock).buf > (scan.rbb.blkSet node).buf ∨
          setup.add scan.dataTotalSize (scan.rbb.blkSet node).size > queueDataLen := by
        rw [not_and_or, not_and_or, not_le, not_le] at htake
        exact htake
      rw [if_pos hstop, if_neg htake]
      refine ⟨(taken_nil _).symm, rfl, ?_⟩
      simp

theorem foldl_add (setup : Setup) (rbb : RtRbb) (blocks : List ℕ) (total : ℕ) :
    blocks.foldl (fun total block => setup.add total (rbb.blkSet block).size)
        (total % 2 ^ setup.wordBits) =
      (total + totalSize rbb blocks) % 2 ^ setup.wordBits := by
  induction blocks generalizing total with
  | nil => rfl
  | cons block rest ih =>
    have hadd : setup.add (total % 2 ^ setup.wordBits) (rbb.blkSet block).size =
        (total + (rbb.blkSet block).size) % 2 ^ setup.wordBits := Nat.mod_add_mod ..
    rw [List.foldl_cons, hadd, ih, totalSize, totalSize, List.map_cons, List.sum_cons,
      Nat.add_assoc]

theorem foldl_add_zero (setup : Setup) (rbb : RtRbb) (blocks : List ℕ) :
    blocks.foldl (fun total block => setup.add total (rbb.blkSet block).size) 0 =
      totalSize rbb blocks % 2 ^ setup.wordBits := by
  have hfold := foldl_add setup rbb blocks 0
  rwa [Nat.zero_mod, Nat.zero_add] at hfold

/-- The loop before it has a first block: it skips the blocks that are not put. -/
theorem queueGetLoop_none {scan : QueueScan} (hlast : scan.lastBlock = none) :
    queueGetLoop setup queueDataLen scan nodes =
      queueGetLoop setup queueDataLen scan
        (nodes.dropWhile fun block => (scan.rbb.blkSet block).status ≠ .put) := by
  induction nodes with
  | nil => rfl
  | cons node rest ih =>
    by_cases hput : (scan.rbb.blkSet node).status = .put
    · rw [List.dropWhile_cons_of_neg (by simpa using hput)]
    · rw [List.dropWhile_cons_of_pos (by simpa using hput), ← ih]
      simp only [queueGetLoop, hlast, if_neg hput]

theorem queueGetLoop_first (setup : Setup) (queueDataLen : ℕ) {first : ℕ} {rest : List ℕ}
    (hnodes : (first :: rest).Nodup) (hnodup : rbb.blkList.Nodup)
    (hput : (rbb.blkSet first).status = .put) :
    let run := first :: runAfter setup rbb queueDataLen (rbb.blkSet first).buf
      (setup.add 0 (rbb.blkSet first).size) rest
    let after := queueGetLoop setup queueDataLen
      { rbb := rbb, lastBlock := none, dataTotalSize := 0, queue := none } (first :: rest)
    after.rbb = taken rbb run ∧
      after.dataTotalSize = run.foldl
        (fun total block => setup.add total (rbb.blkSet block).size) 0 ∧
      after.queue = some { blocks := first, blkNum := run.length } := by
  rw [List.nodup_cons] at hnodes
  let scan : QueueScan :=
    { rbb := rbb
      lastBlock := none
      dataTotalSize := 0
      queue := some { blocks := first, blkNum := 0 } }
  have hrbb : (takeBlock setup scan first).rbb = taken rbb [first] :=
    takeBlock_rbb setup first hnodup
  have hbuf : ((taken rbb [first]).blkSet first).buf = (rbb.blkSet first).buf := by
    simp [taken]
  have hsize : ∀ block, ((taken rbb [first]).blkSet block).size = (rbb.blkSet block).size := by
    intro block
    simp only [taken]
    split <;> rfl
  have hrest := @queueGetLoop_some setup queueDataLen rest (takeBlock setup scan first) first
    hnodes.2 (hrbb ▸ taken_nodup hnodup [first]) rfl
  simp only [hrbb, hbuf, hsize, runAfter_taken hnodes.1, taken_taken] at hrest
  simp only [queueGetLoop, if_pos hput]
  refine ⟨hrest.1, hrest.2.1, ?_⟩
  rw [hrest.2.2, takeBlock]
  simp only [scan, Option.map_some, List.length_cons, Option.some.injEq,
    RtRbbBlkQueue.mk.injEq, true_and]
  omega

theorem status_of_dropWhile {first : ℕ} {rest : List ℕ}
    (hdrop : (nodes.dropWhile fun block => decide ((rbb.blkSet block).status ≠ .put)) =
      first :: rest) : (rbb.blkSet first).status = .put := by
  have hhead := List.head?_dropWhile_not
    (fun block => decide ((rbb.blkSet block).status ≠ .put)) nodes
  rw [hdrop] at hhead
  simpa using hhead

/-- `rt_rbb_blk_queue_get` takes the first run of put blocks. -/
theorem rtRbbBlkQueueGet_eq (hnodup : rbb.blkList.Nodup) (queueDataLen : ℕ) :
    let run := putRun setup rbb queueDataLen
    rtRbbBlkQueueGet setup rbb queueDataLen =
      (taken rbb run, totalSize rbb run % 2 ^ setup.wordBits,
        run.head?.map fun first => { blocks := first, blkNum := run.length }) := by
  intro run
  have hrun : run = putRun setup rbb queueDataLen := rfl
  rw [rtRbbBlkQueueGet, queueGetLoop_none rfl]
  rw [putRun] at hrun
  rcases hdrop : rbb.blkList.dropWhile fun block => decide ((rbb.blkSet block).status ≠ .put)
    with _ | ⟨first, rest⟩
  · rw [hdrop] at hrun
    rw [hrun, taken_nil]
    rfl
  · rw [hdrop] at hrun
    have hsub : (first :: rest).Sublist rbb.blkList := hdrop ▸ List.dropWhile_sublist _
    have hput := status_of_dropWhile hdrop
    have hfirst := queueGetLoop_first setup queueDataLen (hnodup.sublist hsub) hnodup hput
    rw [hfirst.1, hfirst.2.1, hfirst.2.2, foldl_add_zero, hrun]
    rfl

theorem nextQueueLenLoop_some (setup : Setup) (rbb : RtRbb) (lastBlock total : ℕ)
    (nodes : List ℕ) :
    nextQueueLenLoop setup rbb (some lastBlock) total nodes =
      (runAfter setup rbb (2 ^ setup.wordBits - 1) (rbb.blkSet lastBlock).buf total nodes).foldl
        (fun total block => setup.add total (rbb.blkSet block).size) total := by
  induction nodes generalizing lastBlock total with
  | nil => rfl
  | cons node rest ih =>
    have hword : setup.add total (rbb.blkSet node).size ≤ 2 ^ setup.wordBits - 1 :=
      Nat.le_sub_one_of_lt (Nat.mod_lt _ (Nat.two_pow_pos _))
    rw [nextQueueLenLoop, runAfter]
    by_cases htake : (rbb.blkSet node).status = .put ∧
        (rbb.blkSet lastBlock).buf ≤ (rbb.blkSet node).buf
    · rw [if_neg (by rw [not_or, not_not, not_lt]; exact htake),
        if_pos ⟨htake.1, htake.2, hword⟩, List.foldl_cons, ih]
    · rw [if_pos (by rwa [not_and_or, not_le] at htake),
        if_neg fun hall => htake ⟨hall.1, hall.2.1⟩]
      rfl

/-- `rt_rbb_next_blk_queue_len` announces the queue that a call without a limit gets. -/
theorem rtRbbNextBlkQueueLen_eq (setup : Setup) (hnodup : rbb.blkList.Nodup) :
    rtRbbNextBlkQueueLen setup rbb =
      (rtRbbBlkQueueGet setup rbb (2 ^ setup.wordBits - 1)).2.1 := by
  have hskip : ∀ nodes : List ℕ, nextQueueLenLoop setup rbb none 0 nodes =
      nextQueueLenLoop setup rbb none 0
        (nodes.dropWhile fun block => decide ((rbb.blkSet block).status ≠ .put)) := by
    intro nodes
    induction nodes with
    | nil => rfl
    | cons node rest ih =>
      by_cases hput : (rbb.blkSet node).status = .put
      · rw [List.dropWhile_cons_of_neg (by simpa using hput)]
      · rw [List.dropWhile_cons_of_pos (by simpa using hput), ← ih, nextQueueLenLoop,
          if_neg hput]
  rw [rtRbbNextBlkQueueLen, hskip, rtRbbBlkQueueGet_eq hnodup, ← foldl_add_zero, putRun]
  split
  · next hdrop =>
    rw [hdrop]
    rfl
  · next first rest hdrop =>
    have hput := status_of_dropWhile hdrop
    rw [hdrop, nextQueueLenLoop, if_pos hput, nextQueueLenLoop_some]
    rfl

/-- The blocks of a run come from the list, in its order. -/
theorem runAfter_sublist (setup : Setup) (rbb : RtRbb) (queueDataLen lastBuf total : ℕ)
    (nodes : List ℕ) :
    (runAfter setup rbb queueDataLen lastBuf total nodes).Sublist nodes := by
  induction nodes generalizing lastBuf total with
  | nil => exact List.Sublist.refl _
  | cons node rest ih =>
    rw [runAfter]
    split
    · exact (ih _ _).cons_cons node
    · exact List.nil_sublist _

theorem putRun_sublist (setup : Setup) (rbb : RtRbb) (queueDataLen : ℕ) :
    (putRun setup rbb queueDataLen).Sublist rbb.blkList := by
  have hdrop := List.dropWhile_sublist (l := rbb.blkList)
    fun block => decide ((rbb.blkSet block).status ≠ .put)
  rw [putRun]
  split
  · exact List.nil_sublist _
  · next first rest heq =>
    rw [heq] at hdrop
    exact ((runAfter_sublist ..).cons_cons first).trans hdrop

theorem runAfter_up (setup : Setup) (rbb : RtRbb) (queueDataLen lastBuf total : ℕ)
    (nodes : List ℕ) :
    (∀ block ∈ runAfter setup rbb queueDataLen lastBuf total nodes,
        lastBuf ≤ (rbb.blkSet block).buf) ∧
      (runAfter setup rbb queueDataLen lastBuf total nodes).Pairwise
        fun left right => (rbb.blkSet left).buf ≤ (rbb.blkSet right).buf := by
  induction nodes generalizing lastBuf total with
  | nil => exact ⟨fun _ hmem => absurd hmem List.not_mem_nil, List.Pairwise.nil⟩
  | cons node rest ih =>
    rw [runAfter]
    split
    · next htake =>
      obtain ⟨hge, hup⟩ := ih (rbb.blkSet node).buf
        (setup.add total (rbb.blkSet node).size)
      refine ⟨?_, hup.cons hge⟩
      intro block hmem
      rcases List.mem_cons.1 hmem with rfl | hmem
      · exact htake.2.1
      · exact htake.2.1.trans (hge block hmem)
    · exact ⟨fun _ hmem => absurd hmem List.not_mem_nil, List.Pairwise.nil⟩

/-- The total of a run stays within the length once the first block does. -/
theorem foldl_runAfter_le (setup : Setup) (rbb : RtRbb) {queueDataLen lastBuf total : ℕ}
    (nodes : List ℕ) (hle : total ≤ queueDataLen) :
    (runAfter setup rbb queueDataLen lastBuf total nodes).foldl
      (fun total block => setup.add total (rbb.blkSet block).size) total ≤ queueDataLen := by
  induction nodes generalizing lastBuf total with
  | nil => exact hle
  | cons node rest ih =>
    rw [runAfter]
    split
    · next htake => exact ih htake.2.2
    · exact hle

/-! ## The bytes of a run -/

theorem footprint_cons (rbb : RtRbb) (block : ℕ) (rest : List ℕ) :
    footprint rbb (block :: rest) = (rbb.blkSet block).range ∪ footprint rbb rest := by
  rw [footprint, List.toFinset_cons, Finset.biUnion_insert]
  rfl

theorem totalSize_cons (rbb : RtRbb) (block : ℕ) (rest : List ℕ) :
    totalSize rbb (block :: rest) = (rbb.blkSet block).size + totalSize rbb rest := by
  rw [totalSize, List.map_cons, List.sum_cons]
  rfl

theorem card_range (blk : RtRbbBlk) : blk.range.card = blk.size := by
  rw [RtRbbBlk.range, Nat.card_Ico, RtRbbBlk.stop, Nat.add_sub_cancel_left]

theorem range_eq_empty {blk : RtRbbBlk} (hzero : blk.size = 0) : blk.range = ∅ := by
  rw [← Finset.card_eq_zero, card_range, hzero]

theorem card_footprint_le (rbb : RtRbb) (blocks : List ℕ) :
    (footprint rbb blocks).card ≤ totalSize rbb blocks := by
  induction blocks with
  | nil => exact le_rfl
  | cons block rest ih =>
    rw [footprint_cons, totalSize_cons]
    calc ((rbb.blkSet block).range ∪ footprint rbb rest).card
        ≤ (rbb.blkSet block).range.card + (footprint rbb rest).card := Finset.card_union_le ..
      _ ≤ (rbb.blkSet block).size + totalSize rbb rest :=
          Nat.add_le_add (card_range _).le ih

theorem footprint_of_joined {start : ℕ} {blocks : List ℕ} (hjoined : Joined rbb start blocks) :
    footprint rbb blocks = Finset.Ico start (start + totalSize rbb blocks) := by
  induction blocks generalizing start with
  | nil => exact (Finset.Ico_self start).symm
  | cons block rest ih =>
    rw [Joined] at hjoined
    rw [footprint_cons, totalSize_cons]
    split at hjoined
    · next hzero => rw [range_eq_empty hzero, Finset.empty_union, ih hjoined, hzero, Nat.zero_add]
    · rw [ih hjoined.2, ← hjoined.1, RtRbbBlk.range, RtRbbBlk.stop, ← Nat.add_assoc]
      exact Finset.Ico_union_Ico_eq_Ico (Nat.le_add_right _ _) (Nat.le_add_right _ _)

/-- Blocks that go up and fill as many bytes as they have leave no gap: the first of them
that is not empty holds the first byte, and the others are left with the rest. -/
theorem joined_of_footprint {start : ℕ} {blocks : List ℕ}
    (hup : blocks.Pairwise fun left right => (rbb.blkSet left).buf ≤ (rbb.blkSet right).buf)
    (hfill : footprint rbb blocks = Finset.Ico start (start + totalSize rbb blocks)) :
    Joined rbb start blocks := by
  induction blocks generalizing start with
  | nil => trivial
  | cons block rest ih =>
    rw [List.pairwise_cons] at hup
    rw [footprint_cons, totalSize_cons] at hfill
    rw [Joined]
    split
    · next hzero =>
      rw [range_eq_empty hzero, Finset.empty_union, hzero, Nat.zero_add] at hfill
      exact ih hup.2 hfill
    · next hpos =>
      have hfirst : (rbb.blkSet block).buf ∈ (rbb.blkSet block).range := by
        rw [RtRbbBlk.range, Finset.mem_Ico, RtRbbBlk.stop]
        omega
      have hge : start ≤ (rbb.blkSet block).buf := by
        have hmem := Finset.mem_union_left (footprint rbb rest) hfirst
        rw [hfill, Finset.mem_Ico] at hmem
        exact hmem.1
      have hle : (rbb.blkSet block).buf ≤ start := by
        have hmem : start ∈ (rbb.blkSet block).range ∪ footprint rbb rest := by
          rw [hfill, Finset.mem_Ico]
          omega
        rcases Finset.mem_union.1 hmem with hmem | hmem
        · exact (Finset.mem_Ico.1 hmem).1
        · obtain ⟨other, hother, hmem⟩ := Finset.mem_biUnion.1 hmem
          exact (hup.1 other (List.mem_toFinset.1 hother)).trans (Finset.mem_Ico.1 hmem).1
      have hstart := hle.antisymm hge
      refine ⟨hstart, ih hup.2 ?_⟩
      have hstop : (rbb.blkSet block).stop = start + (rbb.blkSet block).size := by
        rw [RtRbbBlk.stop, hstart]
      refine (Finset.eq_of_subset_of_card_le ?_ ?_).symm
      · intro byte hbyte
        rw [Finset.mem_Ico] at hbyte
        have hmem : byte ∈ (rbb.blkSet block).range ∪ footprint rbb rest := by
          rw [hfill, Finset.mem_Ico]
          omega
        refine (Finset.mem_union.1 hmem).resolve_left ?_
        rw [RtRbbBlk.range, Finset.mem_Ico]
        omega
      · rw [Nat.card_Ico, Nat.add_sub_cancel_left]
        exact card_footprint_le rbb rest

/-! ## Freeing a queue -/

theorem rtRbbBlkFree_used {rbb'' : RtRbb} (hfree : rtRbbBlkFree setup rbb block = .ok rbb'') :
    block < setup.blkMaxNum ∧ (rbb.blkSet block).Used ∧ ¬ (rbb''.blkSet block).Used := by
  rw [rtRbbBlkFree] at hfree
  split at hfree
  · next hlt =>
    split at hfree
    · contradiction
    · next hused =>
      obtain rfl := Except.ok.inj hfree
      refine ⟨hlt, hused, not_not.2 ?_⟩
      simp [setStatus, setBlk]
  · contradiction

theorem freeBlocks_used {blocks : List ℕ} (hnodup : rbb.blkList.Nodup)
    (hfree : freeBlocks setup rbb blocks = .ok rbb') :
    ∀ block ∈ blocks, block < setup.blkMaxNum ∧ (rbb.blkSet block).Used ∧
      ¬ (rbb'.blkSet block).Used := by
  induction blocks generalizing rbb with
  | nil => exact fun _ hmem => absurd hmem List.not_mem_nil
  | cons first rest ih =>
    rw [freeBlocks] at hfree
    split at hfree
    · contradiction
    · next next hfirst =>
      have hshrinks := Shrinks.rtRbbBlkFree hnodup hfirst
      have hnext := hnodup.sublist hshrinks.list
      obtain ⟨hlt, hused, hunused⟩ := rtRbbBlkFree_used hfirst
      intro block hmem
      rcases List.mem_cons.1 hmem with rfl | hmem
      · exact ⟨hlt, hused, fun hafter => hunused ((Shrinks.freeBlocks hnext hfree).used _ hafter)⟩
      · obtain ⟨hlt, hused, hunused⟩ := ih hnext hfree block hmem
        exact ⟨hlt, hshrinks.used _ hused, hunused⟩

/-- Blocks in use can all be freed, and no other block is. -/
theorem freeBlocks_ok {blocks : List ℕ} (hblocks : blocks.Nodup)
    (hused : ∀ block ∈ blocks, block < setup.blkMaxNum ∧ (rbb.blkSet block).Used) :
    ∃ freed, freeBlocks setup rbb blocks = .ok freed ∧
      ∀ block ∉ blocks, (freed.blkSet block).status = (rbb.blkSet block).status := by
  induction blocks generalizing rbb with
  | nil => exact ⟨rbb, rfl, fun _ _ => rfl⟩
  | cons first rest ih =>
    rw [List.nodup_cons] at hblocks
    obtain ⟨hlt, hfirst⟩ := hused first List.mem_cons_self
    let next := setStatus { rbb with blkList := rbb.blkList.erase first } first .unused
    have hnext : rtRbbBlkFree setup rbb first = .ok next := by
      rw [rtRbbBlkFree, if_pos hlt, if_neg hfirst]
    have hother : ∀ block, block ≠ first → next.blkSet block = rbb.blkSet block :=
      fun block hne => Function.update_of_ne hne ..
    have hrest : ∀ block ∈ rest, block < setup.blkMaxNum ∧ (next.blkSet block).Used := by
      intro block hmem
      rw [hother block fun heq => hblocks.1 (heq ▸ hmem)]
      exact hused block (List.mem_cons_of_mem _ hmem)
    obtain ⟨freed, hfreed, hsame⟩ := ih hblocks.2 hrest
    refine ⟨freed, by rw [freeBlocks, hnext]; exact hfreed, ?_⟩
    intro block hnot
    rw [List.mem_cons, not_or] at hnot
    rw [hsame block hnot.2, hother block hnot.1]

/-! ## The queue -/

theorem selected_perm (hnodup : rbb.blkList.Nodup) (hsub : run.Sublist rbb.blkList) :
    (selected rbb (taken rbb run)).Perm run := by
  refine (List.perm_ext_iff_of_nodup (hnodup.filter _) (hnodup.sublist hsub)).2 ?_
  intro block
  have hlist : block ∈ run → block ∈ rbb.blkList := fun hmem => hsub.subset hmem
  simp only [taken, List.mem_filter, decide_eq_true_eq]
  tauto

theorem totalSize_perm {left right : List ℕ} (hperm : left.Perm right) :
    totalSize rbb left = totalSize rbb right :=
  (hperm.map _).sum_eq

theorem footprint_perm {left right : List ℕ} (hperm : left.Perm right) :
    footprint rbb left = footprint rbb right := by
  rw [footprint, footprint, List.toFinset_eq_of_perm _ _ hperm]

theorem taken_buf (rbb : RtRbb) (run : List ℕ) (block : ℕ) :
    ((taken rbb run).blkSet block).buf = (rbb.blkSet block).buf := by
  simp only [taken]
  split <;> rfl

theorem taken_size (rbb : RtRbb) (run : List ℕ) (block : ℕ) :
    ((taken rbb run).blkSet block).size = (rbb.blkSet block).size := by
  simp only [taken]
  split <;> rfl

theorem totalSize_taken (rbb : RtRbb) (run blocks : List ℕ) :
    totalSize (taken rbb run) blocks = totalSize rbb blocks := by
  simp only [totalSize, taken_size]

theorem footprint_taken (rbb : RtRbb) (run blocks : List ℕ) :
    footprint (taken rbb run) blocks = footprint rbb blocks := by
  simp only [footprint, RtRbbBlk.range, RtRbbBlk.stop, taken_buf, taken_size]

/-- Descriptors side by side: the walk through the block set meets the blocks of the run. -/
theorem range'_perm {first : ℕ} (hside : ∀ index < run.length, first + index ∈ run) :
    (List.range' first run.length).Perm run := by
  have hsubset : List.range' first run.length ⊆ run := by
    intro block hmem
    obtain ⟨hge, hlt⟩ := List.mem_range'_1.1 hmem
    have hindex := hside (block - first) (by omega)
    rwa [Nat.add_sub_cancel' hge] at hindex
  refine (List.subperm_of_subset List.nodup_range' hsubset).perm_of_length_le ?_
  rw [List.length_range']

theorem putRun_up (setup : Setup) (rbb : RtRbb) (queueDataLen : ℕ) :
    (putRun setup rbb queueDataLen).Pairwise
      fun left right => (rbb.blkSet left).buf ≤ (rbb.blkSet right).buf := by
  rw [putRun]
  split
  · exact List.Pairwise.nil
  · next first rest _ =>
    obtain ⟨hge, hup⟩ := runAfter_up setup rbb queueDataLen (rbb.blkSet first).buf
      (setup.add 0 (rbb.blkSet first).size) rest
    exact hup.cons hge

theorem totalSize_putRun_le {first : ℕ} {rest : List ℕ} (hlisted : Listed setup rbb)
    (hrun : putRun setup rbb queueDataLen = first :: rest)
    (hfirst : (rbb.blkSet first).size ≤ queueDataLen) :
    totalSize rbb (first :: rest) % 2 ^ setup.wordBits ≤ queueDataLen := by
  have hmem : first ∈ rbb.blkList :=
    (putRun_sublist setup rbb queueDataLen).subset (hrun ▸ List.mem_cons_self)
  have hadd : setup.add 0 (rbb.blkSet first).size = (rbb.blkSet first).size := by
    have hsize := hlisted.size_lt first hmem
    have hword := Nat.pow_le_pow_right (Nat.zero_lt_two) setup.wordBits_ge
    rw [setup.add_eq (by omega), Nat.zero_add]
  rw [putRun] at hrun
  split at hrun
  · contradiction
  · next nodes _ =>
    obtain ⟨rfl, rfl⟩ := List.cons.inj hrun
    rw [← foldl_add_zero, List.foldl_cons]
    exact foldl_runAfter_le setup rbb nodes (hadd.trans_le hfirst)

/-- Freeing the queue of a run frees exactly the run when its descriptors lie side by side. -/
theorem free_taken_iff (first : ℕ) (hlisted : Listed setup rbb) (hsub : run.Sublist rbb.blkList) :
    (∃ freed, rtRbbBlkQueueFree setup (taken rbb run) { blocks := first, blkNum := run.length } =
        .ok freed ∧ ∀ block < setup.blkMaxNum,
          (((taken rbb run).blkSet block).Used ∧ ¬ (freed.blkSet block).Used ↔ block ∈ run)) ↔
      ∀ index < run.length, first + index ∈ run := by
  have hafter := taken_nodup hlisted.nodup run
  constructor
  · rintro ⟨freed, hfree, hexact⟩ index hindex
    have hmem : first + index ∈ List.range' first run.length :=
      List.mem_range'_1.2 ⟨Nat.le_add_right _ _, Nat.add_lt_add_left hindex _⟩
    obtain ⟨hlt, hused⟩ := freeBlocks_used hafter hfree _ hmem
    exact (hexact _ hlt).1 hused
  · intro hside
    have hperm := range'_perm hside
    have hused : ∀ block ∈ run, block < setup.blkMaxNum ∧
        ((taken rbb run).blkSet block).Used := by
      intro block hmem
      refine ⟨hlisted.lt_max block (hsub.subset hmem), ?_⟩
      simp only [taken, if_pos hmem]
      exact RtRbbStatus.noConfusion
    obtain ⟨freed, hfree, hsame⟩ := freeBlocks_ok List.nodup_range'
      fun block hmem => hused block (hperm.mem_iff.1 hmem)
    refine ⟨freed, hfree, ?_⟩
    intro block hlt
    constructor
    · rintro ⟨hbefore, hunused⟩
      by_contra hnot
      rw [RtRbbBlk.Used, hsame block fun hmem => hnot (hperm.mem_iff.1 hmem)] at hunused
      exact hunused hbefore
    · intro hmem
      exact (freeBlocks_used hafter hfree block (hperm.mem_iff.2 hmem)).2

theorem queueConsistent_iff (hlisted : Listed setup rbb) (queueDataLen : ℕ) :
    QueueConsistent setup rbb queueDataLen ↔ RunInOnePiece setup rbb queueDataLen := by
  have hsub := putRun_sublist setup rbb queueDataLen
  have hup := putRun_up setup rbb queueDataLen
  have hperm := selected_perm hlisted.nodup hsub
  have hle := @totalSize_putRun_le setup rbb queueDataLen
  rw [QueueConsistent, RunInOnePiece, rtRbbBlkQueueGet_eq hlisted.nodup]
  dsimp only
  rw [totalSize_perm hperm, footprint_perm hperm, totalSize_taken, footprint_taken]
  rcases hrun : putRun setup rbb queueDataLen with _ | ⟨first, rest⟩
  · simp [totalSize]
  · rw [hrun] at hsub hup hperm
    have hfree := free_taken_iff first hlisted hsub
    simp only [hperm.mem_iff, List.head?_cons, Option.map_some, Option.some.injEq,
      exists_eq_left', hfree, rtRbbBlkQueueBuf, taken_buf]
    by_cases hzero : totalSize rbb (first :: rest) % 2 ^ setup.wordBits = 0
    · simp [hzero]
    · simp only [hzero, false_or, Nat.pos_of_ne_zero hzero, true_imp_iff]
      constructor
      · rintro ⟨hsize, htotal, hfill, -, hside⟩
        rw [← htotal] at hfill hsize
        refine ⟨?_, joined_of_footprint hup hfill, ?_, hside⟩
        · exact (Nat.le_add_right _ _).trans ((totalSize_cons rbb first rest).ge.trans hsize)
        · rw [htotal]
          exact Nat.mod_lt _ (Nat.two_pow_pos _)
      · rintro ⟨hfirst, hjoined, hlt, hside⟩
        refine ⟨hle hlisted hrun hfirst, (Nat.mod_eq_of_lt hlt).symm, ?_, ?_, hside⟩
        · rw [Nat.mod_eq_of_lt hlt]
          exact footprint_of_joined hjoined
        · rw [rtRbbBlkQueueLen, foldl_add_zero, totalSize_taken,
            totalSize_perm (range'_perm hside)]

/-- Two blocks are put, behind one that is still being filled. -/
def schedulePut : List Action :=
  [.alloc 8, .alloc 24, .alloc 16, .put 1, .put 2]

theorem isSome_schedulePut : ((rbbMachine setup64).exec (fun _ _ => True)
    (initial setup64 blankSet) schedulePut).isSome = true := by
  decide

/-- In every state that can be reached, `rt_rbb_next_blk_queue_len` announces what
`rt_rbb_blk_queue_get` takes when it is given no limit. -/
theorem queue_announced_of_run {blockSet : ℕ → RtRbbBlk} {trace : List (Action × Event)}
    {last : State} (hrun : (rbbMachine setup).Run (initial setup blockSet) trace last) :
    rtRbbNextBlkQueueLen setup last.rbb =
      (rtRbbBlkQueueGet setup last.rbb (2 ^ setup.wordBits - 1)).2.1 :=
  rtRbbNextBlkQueueLen_eq setup (listed_of_run hrun).nodup

/-- 40 bytes are announced. -/
theorem queue_announced_of_run_schedulePut : ∃ trace last,
    (rbbMachine setup64).Run (initial setup64 blankSet) trace last ∧ trace.length = 5 ∧
      rtRbbNextBlkQueueLen setup64 last.rbb = 40 ∧
      rtRbbNextBlkQueueLen setup64 last.rbb =
        (rtRbbBlkQueueGet setup64 last.rbb (2 ^ setup64.wordBits - 1)).2.1 := by
  have hrun := Machine.runWith_of_isSome schedulePut isSome_schedulePut
  exact ⟨_, _, hrun, by decide, by decide, queue_announced_of_run hrun⟩

/-- The middle one of three blocks is freed early; the two others are taken as one queue. -/
def scheduleGap : List Action :=
  [.alloc 8, .alloc 8, .alloc 8, .put 0, .put 2, .free 1]

theorem isSome_scheduleGap : ((rbbMachine setup64).exec (fun _ _ => True)
    (initial setup64 blankSet) scheduleGap).isSome = true := by
  decide

end RtThread.RingBlk
