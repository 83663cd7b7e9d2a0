import Mathlib.Data.Nat.Digits.Lemmas
import Mathlib.Logic.Function.Iterate
import Mathlib.Order.Interval.Set.Basic

set_option linter.all false

/-!
# Filling, copying and moving memory

`rt_memset`, `rt_memcpy` and `rt_memmove` of `kservice.c`, without `RT_USING_TINY_SIZE`.  The
first two go four words, one word or one byte at a time; a turn with a word does the same as
that many turns with a byte, so all loops are compared with the loop over single bytes.
-/

namespace RtThread.MemoryCopy

open Function

abbrev Memory := ℕ → UInt8

/-- The width of `long`, of a pointer and of `rt_ubase_t`, and the order of the bytes in a
`long`. -/
structure Target where
  longSize : ℕ
  longSize_eq : longSize = 4 ∨ longSize = 8
  bigEndian : Bool

namespace Target

variable (target : Target)

/-- The number of addresses, and of the values of `unsigned long`. -/
def space : ℕ :=
  2 ^ (8 * target.longSize)

/-- Pointer arithmetic wraps around at the end of the address space. -/
def add (p n : ℕ) : ℕ :=
  (p + n) % target.space

def sub (p n : ℕ) : ℕ :=
  (p + (target.space - n)) % target.space

/-- The byte of a `long` at a distance from its address, counted from the lowest one. -/
def place (i : ℕ) : ℕ :=
  if target.bigEndian then target.longSize - 1 - i else i

def byteOf (value i : ℕ) : UInt8 :=
  UInt8.ofNat (value / 256 ^ target.place i)

def loadLong (mem : Memory) (p : ℕ) : ℕ :=
  Nat.ofDigits 256
    (((List.range target.longSize).map fun i => mem (p + target.place i)).map UInt8.toNat)

def storeLong (mem : Memory) (p value : ℕ) : Memory :=
  fun a => if p ≤ a ∧ a < p + target.longSize then target.byteOf value (a - p) else mem a

def unaligned (p : ℕ) : Bool :=
  p % target.longSize ≠ 0

/-- The word that `rt_memset` stores: by shifts of 8 and 16 bits where a `long` has four bytes,
else by a loop. -/
def fillWord (d : ℕ) : ℕ :=
  if target.longSize = 4 then
    let buffer := (d <<< 8 ||| d) % target.space
    buffer ||| (buffer <<< 16) % target.space
  else (fun buffer => (buffer <<< 8) % target.space ||| d)^[target.longSize] 0

end Target

/-- The memory and the two pointers; `rt_memset` uses only the first one. -/
structure Cursor where
  mem : Memory
  dst : ℕ
  src : ℕ

/-- `while (count >= size) { ..; count -= size; }`, with the count that is left. -/
def whileAtLeast (size : ℕ) (turn : Cursor → Cursor) (count : ℕ) (st : Cursor) : Cursor × ℕ :=
  if 0 < size ∧ size ≤ count then whileAtLeast size turn (count - size) (turn st) else (st, count)
termination_by count

/-- `while (count--)`. -/
def whileCount (turn : Cursor → Cursor) : ℕ → Cursor → Cursor
  | 0, st => st
  | count + 1, st => whileCount turn count (turn st)

section Operations

variable (target : Target)

/-! ## `rt_memset` -/

/-- `*m++ = (char)d`. -/
def setByte (d : ℕ) (st : Cursor) : Cursor :=
  { st with
    mem := update st.mem st.dst (UInt8.ofNat d)
    dst := target.add st.dst 1 }

/-- `*aligned_addr++ = buffer`. -/
def setLong (buffer : ℕ) (st : Cursor) : Cursor :=
  { st with
    mem := target.storeLong st.mem st.dst buffer
    dst := target.add st.dst target.longSize }

def rtMemset (mem : Memory) (s : ℕ) (c : Int) (count : ℕ) : Memory :=
  let d := (c % 256).toNat
  let st : Cursor := ⟨mem, s, s⟩
  if target.longSize ≤ count ∧ !target.unaligned s then
    let buffer := target.fillWord d
    let (st, count) := whileAtLeast (4 * target.longSize) (setLong target buffer)^[4] count st
    let (st, count) := whileAtLeast target.longSize (setLong target buffer) count st
    (whileCount (setByte target d) count st).mem
  else (whileCount (setByte target d) count st).mem

/-! ## `rt_memcpy` -/

/-- `*dst_ptr++ = *src_ptr++`. -/
def copyByte (st : Cursor) : Cursor where
  mem := update st.mem st.dst (st.mem st.src)
  dst := target.add st.dst 1
  src := target.add st.src 1

/-- `*aligned_dst++ = *aligned_src++`. -/
def copyLong (st : Cursor) : Cursor where
  mem := target.storeLong st.mem st.dst (target.loadLong st.mem st.src)
  dst := target.add st.dst target.longSize
  src := target.add st.src target.longSize

/-- There is no result where `int len = count` is negative. -/
def rtMemcpy (mem : Memory) (dst src count : ℕ) : Option Memory :=
  let len := count % 2 ^ 32
  let st : Cursor := ⟨mem, dst, src⟩
  if 2 ^ 31 ≤ len then none
  else if 4 * target.longSize ≤ len ∧ !(target.unaligned src || target.unaligned dst) then
    let (st, len) := whileAtLeast (4 * target.longSize) (copyLong target)^[4] len st
    let (st, len) := whileAtLeast target.longSize (copyLong target) len st
    some (whileCount (copyByte target) len st).mem
  else some (whileCount (copyByte target) len st).mem

/-! ## `rt_memmove` -/

/-- `*(--tmp) = *(--s)`. -/
def copyByteDown (st : Cursor) : Cursor :=
  let dst := target.sub st.dst 1
  let src := target.sub st.src 1
  ⟨update st.mem dst (st.mem src), dst, src⟩

def rtMemmove (mem : Memory) (dest src n : ℕ) : Memory :=
  if src < dest ∧ dest < target.add src n then
    (whileCount (copyByteDown target) n ⟨mem, target.add dest n, target.add src n⟩).mem
  else (whileCount (copyByte target) n ⟨mem, dest, src⟩).mem

end Operations

/-! ## What the loops do -/

/-- A range of the memory gets new bytes. -/
def paste (mem : Memory) (dst count : ℕ) (bytes : ℕ → UInt8) : Memory :=
  fun a => if dst ≤ a ∧ a < dst + count then bytes (a - dst) else mem a

variable {target : Target} {mem : Memory} {dst src count n d : ℕ} {bytes : ℕ → UInt8}
  {st : Cursor} {turn : Cursor → Cursor}

theorem paste_zero : paste mem dst 0 bytes = mem := by
  funext a
  exact if_neg (by omega)

theorem paste_of_mem {a : ℕ} (hlow : dst ≤ a) (hhigh : a < dst + count) :
    paste mem dst count bytes a = bytes (a - dst) :=
  if_pos ⟨hlow, hhigh⟩

theorem paste_of_notMem {a : ℕ} (hout : a < dst ∨ dst + count ≤ a) :
    paste mem dst count bytes a = mem a :=
  if_neg (by omega)

theorem paste_succ :
    update (paste mem dst count bytes) (dst + count) (bytes count) =
      paste mem dst (count + 1) bytes := by
  funext a
  by_cases hlast : a = dst + count
  · subst hlast
    rw [update_self, paste_of_mem (by omega) (by omega), Nat.add_sub_cancel_left]
  · rw [update_of_ne hlast]
    by_cases hin : dst ≤ a ∧ a < dst + count
    · rw [paste_of_mem hin.1 hin.2, paste_of_mem hin.1 (by omega)]
    · rw [paste_of_notMem (by omega), paste_of_notMem (by omega)]

theorem whileCount_eq (turn : Cursor → Cursor) (count : ℕ) (st : Cursor) :
    whileCount turn count st = turn^[count] st := by
  induction count generalizing st with
  | zero => rfl
  | succ count ih => rw [whileCount, ih, iterate_succ_apply]

/-- The quotient tells the number of turns, and the rest is left. -/
theorem whileAtLeast_eq (turn : Cursor → Cursor) {size : ℕ} (hsize : 0 < size) (count : ℕ)
    (st : Cursor) :
    whileAtLeast size turn count st = (turn^[count / size] st, count % size) := by
  induction count using Nat.strong_induction_on generalizing st with
  | _ count ih =>
    rw [whileAtLeast]
    split_ifs with hmore
    · obtain ⟨-, hle⟩ := hmore
      rw [ih _ (by omega), Nat.div_eq_sub_div hsize hle, Nat.mod_eq_sub_mod hle,
        iterate_succ_apply]
    · rw [Nat.div_eq_of_lt (by omega), Nat.mod_eq_of_lt (by omega)]
      rfl

namespace Target

theorem longSize_pos (target : Target) : 0 < target.longSize := by
  rcases target.longSize_eq with hsize | hsize <;> omega

theorem space_pos (target : Target) : 0 < target.space :=
  Nat.two_pow_pos _

theorem add_eq {p : ℕ} (hfits : p + n < target.space) : target.add p n = p + n :=
  Nat.mod_eq_of_lt hfits

theorem add_add (p m n : ℕ) : target.add (target.add p m) n = target.add p (m + n) := by
  rw [add, add, add, Nat.mod_add_mod, Nat.add_assoc]

theorem sub_add_succ {p : ℕ} (hfits : p + n < target.space) :
    target.sub (target.add p (n + 1)) 1 = p + n := by
  have hpos := target.space_pos
  have hsum : p + (n + 1) + (target.space - 1) = p + n + target.space := by omega
  rw [sub, add, Nat.mod_add_mod, hsum, Nat.add_mod_right, Nat.mod_eq_of_lt hfits]

end Target

/-! ## Words -/

theorem place_lt (target : Target) {i : ℕ} (hi : i < target.longSize) :
    target.place i < target.longSize := by
  rw [Target.place]
  split_ifs <;> omega

theorem place_place (target : Target) {i : ℕ} (hi : i < target.longSize) :
    target.place (target.place i) = i := by
  rw [Target.place, Target.place]
  split_ifs <;> omega

/-- A digit of a number with the bytes as its digits. -/
theorem ofNat_ofDigits_div {digits : List UInt8} {j : ℕ} {digit : UInt8}
    (hdigit : digits[j]? = some digit) :
    UInt8.ofNat (Nat.ofDigits 256 (digits.map UInt8.toNat) / 256 ^ j) = digit := by
  induction digits generalizing j with
  | nil => simp at hdigit
  | cons first rest ih =>
    have hlt := first.toNat_lt
    rw [List.map_cons, Nat.ofDigits_cons]
    cases j with
    | zero =>
      obtain rfl : first = digit := by simpa using hdigit
      apply UInt8.toNat_inj.1
      rw [UInt8.toNat_ofNat']
      omega
    | succ j =>
      have hrest : (first.toNat + 256 * Nat.ofDigits 256 (rest.map UInt8.toNat)) / 256 =
          Nat.ofDigits 256 (rest.map UInt8.toNat) := by omega
      rw [pow_succ', ← Nat.div_div_eq_div_mul]
      rw [hrest]
      exact ih (by simpa using hdigit)

/-- A `long` that is loaded and stored is copied byte by byte. -/
theorem storeLong_loadLong (target : Target) (mem : Memory) (dst src : ℕ) :
    target.storeLong mem dst (target.loadLong mem src) =
      paste mem dst target.longSize fun i => mem (src + i) := by
  funext a
  rw [Target.storeLong, paste]
  split_ifs with hin
  · have hplace := place_lt target (i := a - dst) (by omega)
    rw [Target.byteOf, Target.loadLong]
    refine ofNat_ofDigits_div ?_
    rw [List.getElem?_map, List.getElem?_range hplace, Option.map_some,
      place_place target (by omega)]
  · rfl

theorem shiftLeft_or {high low i : ℕ} (hlow : low < 2 ^ i) :
    high <<< i ||| low = high * 2 ^ i + low := by
  rw [← Nat.shiftLeft_add_eq_or_of_lt hlow, Nat.shiftLeft_eq]

theorem ofDigits_replicate_lt (hd : d < 256) (count : ℕ) :
    Nat.ofDigits 256 (List.replicate count d) < 2 ^ (8 * count) := by
  have hlt := Nat.ofDigits_lt_base_pow_length (b := 256) (l := List.replicate count d) (by omega)
    fun digit hdigit => (List.eq_of_mem_replicate hdigit).trans_lt hd
  rwa [List.length_replicate, show 256 = 2 ^ 8 from rfl, ← pow_mul] at hlt

theorem fillLoop_eq (target : Target) (hd : d < 256) {count : ℕ}
    (hcount : count ≤ target.longSize) :
    (fun buffer => (buffer <<< 8) % target.space ||| d)^[count] 0 =
      Nat.ofDigits 256 (List.replicate count d) := by
  induction count with
  | zero => rfl
  | succ count ih =>
    have hlt := ofDigits_replicate_lt hd count
    have hfits : Nat.ofDigits 256 (List.replicate count d) <<< 8 < target.space := by
      rw [Nat.shiftLeft_eq, Target.space]
      calc Nat.ofDigits 256 (List.replicate count d) * 2 ^ 8
          < 2 ^ (8 * count) * 2 ^ 8 := Nat.mul_lt_mul_of_pos_right hlt (by decide)
        _ = 2 ^ (8 * (count + 1)) := by rw [← pow_add]; ring_nf
        _ ≤ 2 ^ (8 * target.longSize) := Nat.pow_le_pow_right (by decide) (by omega)
    rw [iterate_succ_apply', ih (by omega), Nat.mod_eq_of_lt hfits,
      shiftLeft_or (hd.trans_eq rfl), List.replicate_succ, Nat.ofDigits_cons]
    omega

theorem fillWord_eq (target : Target) (hd : d < 256) :
    target.fillWord d = Nat.ofDigits 256 (List.replicate target.longSize d) := by
  rw [Target.fillWord]
  split_ifs with hsize
  · have hpair : d <<< 8 ||| d = d * 256 + d := shiftLeft_or hd
    have hspace : target.space = 2 ^ 32 := by rw [Target.space, hsize]
    have hquad : (d * 256 + d) <<< 16 ||| (d * 256 + d) = (d * 256 + d) * 2 ^ 16 + (d * 256 + d) :=
      shiftLeft_or (by omega)
    rw [hpair, hspace, hsize, Nat.mod_eq_of_lt (by omega), Nat.or_comm,
      Nat.mod_eq_of_lt (by rw [Nat.shiftLeft_eq]; omega), hquad]
    simp only [List.replicate, Nat.ofDigits_cons, Nat.ofDigits_nil]
    omega
  · exact fillLoop_eq target hd le_rfl

theorem storeLong_fillWord (target : Target) (mem : Memory) (dst : ℕ) (hd : d < 256) :
    target.storeLong mem dst (target.fillWord d) =
      paste mem dst target.longSize fun _ => UInt8.ofNat d := by
  have hdigits : List.replicate target.longSize d =
      (List.replicate target.longSize (UInt8.ofNat d)).map UInt8.toNat := by
    rw [List.map_replicate, UInt8.toNat_ofNat_of_lt' hd]
  funext a
  rw [Target.storeLong, paste]
  split_ifs with hin
  · have hplace := place_lt target (i := a - dst) (by omega)
    rw [Target.byteOf, fillWord_eq target hd, hdigits]
    refine ofNat_ofDigits_div ?_
    rw [List.getElem?_replicate, if_pos hplace]
  · rfl

/-! ## Turns with single bytes -/

/-- A range of `n` bytes from a pointer on does not wrap around. -/
def Fits (target : Target) (p n : ℕ) : Prop :=
  0 < n → p + n ≤ target.space

theorem setByte_iterate (mem : Memory) (src : ℕ) (hfits : Fits target dst n) (hpos : 0 < n)
    {k : ℕ} (hk : k ≤ n) :
    (setByte target d)^[k] ⟨mem, dst, src⟩ =
      ⟨paste mem dst k fun _ => UInt8.ofNat d, target.add dst k, src⟩ := by
  have hend := hfits hpos
  induction k with
  | zero => rw [iterate_zero_apply, paste_zero, target.add_eq (by omega), Nat.add_zero]
  | succ k ih =>
    rw [iterate_succ_apply', ih (by omega), setByte]
    dsimp only
    rw [Target.add_add, target.add_eq (n := k) (by omega)]
    exact congrArg (Cursor.mk · _ _) paste_succ

/-- The destination may begin below the source, but not within it. -/
structure CopyFits (target : Target) (n : ℕ) (st : Cursor) : Prop where
  dst : Fits target st.dst n
  src : Fits target st.src n
  apart : st.dst ≤ st.src ∨ st.src + n ≤ st.dst

theorem copyByte_iterate {mem : Memory} (hfits : CopyFits target n ⟨mem, dst, src⟩)
    (hpos : 0 < n) {k : ℕ}
    (hk : k ≤ n) :
    (copyByte target)^[k] ⟨mem, dst, src⟩ =
      ⟨paste mem dst k fun i => mem (src + i), target.add dst k, target.add src k⟩ := by
  have hdst := hfits.dst hpos
  have hsrc := hfits.src hpos
  have hapart := hfits.apart
  dsimp only at hdst hsrc hapart
  induction k with
  | zero =>
    rw [iterate_zero_apply, paste_zero, target.add_eq (by omega),
      target.add_eq (by omega)]
    rfl
  | succ k ih =>
    have hread : paste mem dst k (fun i => mem (src + i)) (src + k) = mem (src + k) :=
      paste_of_notMem (by omega)
    rw [iterate_succ_apply', ih (by omega), copyByte]
    dsimp only
    rw [Target.add_add, Target.add_add, target.add_eq (p := dst) (n := k) (by omega),
      target.add_eq (p := src) (n := k) (by omega), hread]
    exact congrArg (Cursor.mk · _ _) paste_succ

theorem setByte_iterate_mem (mem : Memory) (src : ℕ) (hfits : Fits target dst n) :
    ((setByte target d)^[n] ⟨mem, dst, src⟩).mem = paste mem dst n fun _ => UInt8.ofNat d := by
  rcases Nat.eq_zero_or_pos n with rfl | hpos
  · rw [iterate_zero_apply, paste_zero]
  · rw [setByte_iterate mem src hfits hpos le_rfl]

theorem copyByte_iterate_mem (hfits : CopyFits target n ⟨mem, dst, src⟩) :
    ((copyByte target)^[n] ⟨mem, dst, src⟩).mem = paste mem dst n fun i => mem (src + i) := by
  rcases Nat.eq_zero_or_pos n with rfl | hpos
  · rw [iterate_zero_apply, paste_zero]
  · rw [copyByte_iterate hfits hpos le_rfl]

theorem copyByteDown_iterate (mem : Memory) (hdst : dst + n ≤ target.space)
    (hsrc : src + n ≤ target.space)
    (hbelow : src ≤ dst) {k : ℕ} (hk : k ≤ n) :
    (copyByteDown target)^[k] ⟨mem, target.add dst n, target.add src n⟩ =
      ⟨paste mem (dst + (n - k)) k fun i => mem (src + (n - k) + i), target.add dst (n - k),
        target.add src (n - k)⟩ := by
  induction k with
  | zero => rw [iterate_zero_apply, paste_zero, Nat.sub_zero]
  | succ k ih =>
    obtain ⟨left, hleft⟩ := Nat.exists_eq_add_of_lt hk
    have hcount : n - k = left + 1 := by omega
    have hcount' : n - (k + 1) = left := by omega
    have hread : paste mem (dst + (left + 1)) k (fun i => mem (src + (left + 1) + i))
        (src + left) = mem (src + left) := paste_of_notMem (by omega)
    rw [iterate_succ_apply', ih (by omega), copyByteDown, hcount, hcount']
    dsimp only
    rw [target.sub_add_succ (by omega), target.sub_add_succ (by omega), hread,
      target.add_eq (by omega), target.add_eq (by omega)]
    congr 1
    funext a
    by_cases hfirst : a = dst + left
    · subst hfirst
      rw [update_self, paste_of_mem (by omega) (by omega), Nat.sub_self, Nat.add_zero]
    · rw [update_of_ne hfirst]
      by_cases hin : dst + left ≤ a ∧ a < dst + left + (k + 1)
      · rw [paste_of_mem (by omega) (by omega), paste_of_mem hin.1 hin.2]
        congr 1
        omega
      · rw [paste_of_notMem (by omega), paste_of_notMem (by omega)]

/-! ## Turns with words -/

/-- A turn with a word does the same as the turns with its bytes, as long as there is room. -/
structure Unrolls (target : Target) (long byte : Cursor → Cursor) (room : ℕ → Cursor → Prop) :
    Prop where
  long_eq : ∀ n st, room (n + target.longSize) st → long st = byte^[target.longSize] st
  room_left : ∀ n st, room (n + target.longSize) st → room n (byte^[target.longSize] st)

theorem Unrolls.iterate {long byte : Cursor → Cursor} {room : ℕ → Cursor → Prop}
    (hunrolls : Unrolls target long byte room) (k : ℕ) {rest : ℕ}
    (hroom : room (rest + k * target.longSize) st) :
    long^[k] st = byte^[k * target.longSize] st := by
  induction k generalizing st with
  | zero => rw [Nat.zero_mul, iterate_zero_apply, iterate_zero_apply]
  | succ k ih =>
    rw [Nat.succ_mul, ← Nat.add_assoc] at hroom
    rw [iterate_succ_apply, hunrolls.long_eq _ _ hroom,
      ih (hunrolls.room_left _ _ hroom), ← iterate_add_apply, Nat.succ_mul]

/-- The loops with four words, one word and one byte copy as many bytes. -/
theorem Unrolls.loops_eq {long byte : Cursor → Cursor} {room : ℕ → Cursor → Prop}
    (hunrolls : Unrolls target long byte room) (st : Cursor) (hroom : room count st) :
    let blocks := whileAtLeast (4 * target.longSize) long^[4] count st
    let words := whileAtLeast target.longSize long blocks.2 blocks.1
    whileCount byte words.2 words.1 = byte^[count] st := by
  have hpos := target.longSize_pos
  have hblocks := Nat.div_add_mod count (4 * target.longSize)
  have hwords := Nat.div_add_mod (count % (4 * target.longSize)) target.longSize
  set blocks := count / (4 * target.longSize)
  set left := count % (4 * target.longSize)
  have hcount : left % target.longSize + (left / target.longSize + 4 * blocks) * target.longSize =
      count := by
    have hsum : (left / target.longSize + 4 * blocks) * target.longSize =
        target.longSize * (left / target.longSize) + 4 * target.longSize * blocks := by ring
    rw [hsum]
    linarith
  dsimp only
  rw [whileAtLeast_eq long^[4] (by omega), whileAtLeast_eq long hpos, whileCount_eq]
  dsimp only
  rw [← iterate_mul, ← iterate_add_apply long,
    hunrolls.iterate (left / target.longSize + 4 * blocks) (hcount ▸ hroom),
    ← iterate_add_apply byte, hcount]

theorem setLong_unrolls (target : Target) (hd : d < 256) :
    Unrolls target (setLong target (target.fillWord d)) (setByte target d)
      fun n st => Fits target st.dst n := by
  have hpos := target.longSize_pos
  refine ⟨fun n st hroom => ?_, fun n st hroom hn => ?_⟩
  · rw [setByte_iterate st.mem st.src hroom (by omega) (by omega), setLong,
      storeLong_fillWord target _ _ hd]
  · have hend := hroom (by omega)
    rw [setByte_iterate st.mem st.src hroom (by omega) (by omega)]
    dsimp only
    rw [target.add_eq (by omega)]
    omega

theorem copyLong_unrolls (target : Target) :
    Unrolls target (copyLong target) (copyByte target) (CopyFits target) := by
  have hpos := target.longSize_pos
  refine ⟨fun n st hroom => ?_, fun n st hroom => ?_⟩
  · rw [copyByte_iterate hroom (by omega) (by omega), copyLong,
      storeLong_loadLong]
  · have hdst := hroom.dst (by omega)
    have hsrc := hroom.src (by omega)
    have hapart := hroom.apart
    rw [copyByte_iterate hroom (by omega) (by omega)]
    rcases Nat.eq_zero_or_pos n with rfl | hn
    · refine ⟨fun hn => absurd hn (lt_irrefl _), fun hn => absurd hn (lt_irrefl _), ?_⟩
      exact (Nat.le_total _ _).imp_right id
    · have hnext : target.add st.dst target.longSize = st.dst + target.longSize :=
        target.add_eq (by omega)
      have hnext' : target.add st.src target.longSize = st.src + target.longSize :=
        target.add_eq (by omega)
      rw [hnext, hnext']
      exact ⟨fun _ => by dsimp only; omega, fun _ => by dsimp only; omega, by dsimp only; omega⟩

/-! ## The three functions -/

theorem rtMemset_eq (target : Target) (mem : Memory) {s count : ℕ} (c : Int)
    (hfits : s + count ≤ target.space) :
    rtMemset target mem s c count = paste mem s count fun _ => UInt8.ofNat (c % 256).toNat := by
  have hd : (c % 256).toNat < 256 := by omega
  have hroom : Fits target s count := fun _ => hfits
  have hbytes := setByte_iterate_mem (d := (c % 256).toNat) mem s hroom
  have hloops := (setLong_unrolls target hd).loops_eq ⟨mem, s, s⟩ hroom
  rw [rtMemset]
  dsimp only at hloops ⊢
  split_ifs
  · rw [hloops, hbytes]
  · rw [whileCount_eq, hbytes]

theorem rtMemcpy_eq_bytes (target : Target) (mem : Memory) (hcount : count < 2 ^ 31)
    (hroom : CopyFits target count ⟨mem, dst, src⟩) :
    rtMemcpy target mem dst src count =
      some (whileCount (copyByte target) count ⟨mem, dst, src⟩).mem := by
  have hloops := (copyLong_unrolls target).loops_eq _ hroom
  rw [rtMemcpy, Nat.mod_eq_of_lt (by omega), whileCount_eq]
  dsimp only at hloops ⊢
  rw [if_neg (by omega)]
  split_ifs
  · rw [hloops]
  · rfl

theorem rtMemmove_eq (target : Target) (mem : Memory) (hdst : dst + n ≤ target.space)
    (hsrc : src + n ≤ target.space) :
    rtMemmove target mem dst src n = paste mem dst n fun i => mem (src + i) := by
  rw [rtMemmove]
  split_ifs with hover
  · have hdown := copyByteDown_iterate mem hdst hsrc hover.1.le le_rfl
    rw [whileCount_eq, hdown, Nat.sub_self, Nat.add_zero, Nat.add_zero]
  · -- behind a range that begins below another one, the address space goes on
    have hapart : dst ≤ src ∨ src + n ≤ dst := by
      by_contra hnot
      rw [target.add_eq (by omega)] at hover
      omega
    rw [whileCount_eq]
    exact copyByte_iterate_mem ⟨fun _ => hdst, fun _ => hsrc, hapart⟩

/-- Moving is right for any overlap, filling sets the bytes to `c` modulo 256, copying without
an overlap does what the loop over bytes does, and the rest of the memory stays. -/
theorem memory_primitives (target : Target) (mem : Memory) :
    (∀ dest src n, n < 2 ^ 31 → dest + n ≤ target.space → src + n ≤ target.space →
      rtMemmove target mem dest src n = paste mem dest n fun i => mem (src + i)) ∧
    (∀ s c count, count < 2 ^ 31 → s + count ≤ target.space →
      rtMemset target mem s c count = paste mem s count fun _ => UInt8.ofNat (c % 256).toNat) ∧
    ∀ dst src count, count < 2 ^ 31 → dst + count ≤ target.space → src + count ≤ target.space →
      (dst + count ≤ src ∨ src + count ≤ dst) →
      rtMemcpy target mem dst src count =
          some (whileCount (copyByte target) count ⟨mem, dst, src⟩).mem ∧
        rtMemcpy target mem dst src count = some (paste mem dst count fun i => mem (src + i)) := by
  refine ⟨fun dest src n _ hdest hsrc => rtMemmove_eq target mem hdest hsrc,
    fun s c count _ hfits => rtMemset_eq target mem c hfits,
    fun dst src count hcount hdst hsrc hapart => ?_⟩
  have hroom : CopyFits target count ⟨mem, dst, src⟩ :=
    ⟨fun _ => hdst, fun _ => hsrc, by dsimp only; omega⟩
  have hbytes := rtMemcpy_eq_bytes target mem hcount hroom
  refine ⟨hbytes, ?_⟩
  rw [hbytes, whileCount_eq, copyByte_iterate_mem hroom]

/-- Ten bytes move up by four, over themselves. -/
theorem memory_primitives_overlap :
    rtMemmove ⟨4, .inl rfl, false⟩ (fun a => UInt8.ofNat a) 104 100 10 =
        paste (fun a => UInt8.ofNat a) 104 10 (fun i => UInt8.ofNat (100 + i)) ∧
      rtMemcpy ⟨8, .inr rfl, true⟩ (fun a => UInt8.ofNat a) 256 8 77 =
        some (paste (fun a => UInt8.ofNat a) 256 77 fun i => UInt8.ofNat (8 + i)) :=
  ⟨(memory_primitives ⟨4, .inl rfl, false⟩ _).1 104 100 10 (by decide) (by decide) (by decide),
    ((memory_primitives ⟨8, .inr rfl, true⟩ _).2.2 256 8 77 (by decide) (by decide) (by decide)
      (by decide)).2⟩

end RtThread.MemoryCopy
