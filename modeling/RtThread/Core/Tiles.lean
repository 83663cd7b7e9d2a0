import Mathlib

set_option linter.all false

/-!
# Tiles with headers

An interval of addresses that is cut into tiles.  A tile starts with a header of fixed size
and reaches up to the next header, and a tile of no length that is in use closes the list.
Tiles are in use or not; two neighbours that are not in use are joined.

The tiles are a plain list, so the edits of a memory manager (a tile is cut in two, two tiles
are joined, a tile changes its st) are edits of a list, and what follows for the sizes and
for the sets of tiles is computed here once.
-/

namespace RtThread.Core

structure Tile where
  address : ℕ
  used : Bool
  deriving DecidableEq

namespace Tile

variable {header : ℕ} {before rest tiles : List Tile} {tile left right : Tile} {start : ℕ}

def addresses (tiles : List Tile) : List ℕ :=
  tiles.map address

/-- The headers are in order and do not overlap. -/
def Spaced (header : ℕ) (tiles : List Tile) : Prop :=
  tiles.Pairwise fun left right => left.address + header ≤ right.address

/-- No two neighbours are both free. -/
def Coalesced (tiles : List Tile) : Prop :=
  tiles.IsChain fun left right => left.used ∨ right.used

/-- The addresses of the tiles that are not in use. -/
def unused (tiles : List Tile) : List ℕ :=
  addresses (tiles.filter fun tile => !tile.used)

/-- The addresses behind the headers of the tiles in use. -/
def payloads (header : ℕ) (tiles : List Tile) : List ℕ :=
  (tiles.filter used).map fun tile => tile.address + header

/-- The bytes behind the headers of the tiles that are not in use. -/
def freeBytes (header : ℕ) : List Tile → ℕ
  | [] => 0
  | [_] => 0
  | left :: right :: rest =>
    (if left.used then 0 else right.address - left.address - header) +
      freeBytes header (right :: rest)

theorem freeBytes_single : freeBytes header [tile] = 0 := rfl

theorem freeBytes_cons_cons : freeBytes header (left :: right :: rest) =
    (if left.used then 0 else right.address - left.address - header) +
      freeBytes header (right :: rest) := rfl

@[simp]
theorem addresses_cons : addresses (tile :: rest) = tile.address :: addresses rest := rfl

@[simp]
theorem addresses_append : addresses (before ++ rest) = addresses before ++ addresses rest :=
  List.map_append

theorem addresses_insert_subset {later : List Tile} (fresh : Tile) {tile' : Tile}
    (haddress : tile'.address = tile.address) (hlater : later ⊆ rest) :
    addresses (before ++ tile' :: fresh :: later) ⊆
      fresh.address :: addresses (before ++ tile :: rest) := by
  intro address hmem
  rw [addresses_append, List.mem_append, addresses_cons, addresses_cons, haddress] at hmem
  rw [addresses_append, addresses_cons, List.mem_cons, List.mem_append]
  rcases hmem with hbefore | hmem
  · exact .inr (.inl hbefore)
  · rcases List.mem_cons.1 hmem with hat | hmem
    · exact .inr (.inr (hat ▸ List.mem_cons_self))
    · rcases List.mem_cons.1 hmem with hfresh | hmem
      · exact .inl hfresh
      · exact .inr (.inr (List.mem_cons_of_mem _ (List.map_subset _ hlater hmem)))

theorem mem_addresses (hmem : tile ∈ tiles) : tile.address ∈ addresses tiles :=
  List.mem_map_of_mem hmem

@[simp]
theorem unused_append : unused (before ++ rest) = unused before ++ unused rest := by
  simp [unused]

@[simp]
theorem unused_cons_true : unused (⟨start, true⟩ :: rest) = unused rest := rfl

@[simp]
theorem unused_cons_false : unused (⟨start, false⟩ :: rest) = start :: unused rest := rfl

theorem unused_append_cons :
    unused (before ++ left :: rest) = unused (before ++ [left]) ++ unused rest := by
  rw [← unused_append, List.append_assoc, List.singleton_append]

@[simp]
theorem payloads_append :
    payloads header (before ++ rest) = payloads header before ++ payloads header rest := by
  simp [payloads]

@[simp]
theorem payloads_cons_true :
    payloads header (⟨start, true⟩ :: rest) = (start + header) :: payloads header rest := rfl

@[simp]
theorem payloads_cons_false :
    payloads header (⟨start, false⟩ :: rest) = payloads header rest := rfl

theorem mem_unused : start ∈ unused tiles ↔ ⟨start, false⟩ ∈ tiles := by
  simp only [unused, addresses, List.mem_map, List.mem_filter, Bool.not_eq_true']
  constructor
  · rintro ⟨⟨other, used⟩, ⟨hmem, hused⟩, rfl⟩
    exact hused ▸ hmem
  · intro hmem
    exact ⟨_, ⟨hmem, rfl⟩, rfl⟩

theorem mem_payloads {pointer : ℕ} : pointer ∈ payloads header tiles ↔
    ∃ start, ⟨start, true⟩ ∈ tiles ∧ pointer = start + header := by
  simp only [payloads, List.mem_map, List.mem_filter]
  constructor
  · rintro ⟨⟨other, used⟩, ⟨hmem, hused⟩, rfl⟩
    exact ⟨other, hused ▸ hmem, rfl⟩
  · rintro ⟨start, hmem, rfl⟩
    exact ⟨_, ⟨hmem, rfl⟩, rfl⟩

theorem perm_erase_of_perm_append_cons {free front back : List ℕ}
    (hperm : free.Perm (front ++ start :: back)) : (free.erase start).Perm (front ++ back) := by
  have hmiddle := (hperm.trans List.perm_middle).erase start
  rwa [List.erase_cons_head] at hmiddle

/-! ## Order -/

section Order

variable (hheader : 0 < header)
include hheader

theorem Spaced.lt (hspaced : Spaced header tiles) :
    (addresses tiles).Pairwise (· < ·) := by
  refine List.pairwise_map.2 (List.Pairwise.imp ?_ hspaced)
  intro left right hle
  omega

theorem Spaced.nodup (hspaced : Spaced header tiles) : (addresses tiles).Nodup :=
  (hspaced.lt hheader).imp fun hlt => hlt.ne

theorem Spaced.eq_of_address (hspaced : Spaced header tiles) (hleft : left ∈ tiles)
    (hright : right ∈ tiles) (heq : left.address = right.address) : left = right :=
  List.inj_on_of_nodup_map (hspaced.nodup hheader) hleft hright heq

theorem Spaced.unused_nodup (hspaced : Spaced header tiles) : (unused tiles).Nodup :=
  (hspaced.nodup hheader).sublist (List.filter_sublist.map Tile.address)

theorem Spaced.payloads_nodup (hspaced : Spaced header tiles) : (payloads header tiles).Nodup := by
  have hused : (addresses (tiles.filter used)).Nodup :=
    (hspaced.nodup hheader).sublist (List.filter_sublist.map Tile.address)
  have hmap : payloads header tiles = (addresses (tiles.filter used)).map (· + header) := by
    simp [payloads, addresses]
  rw [hmap]
  exact hused.map fun left right heq => Nat.add_right_cancel heq

/-- No address of the list lies between two neighbours. -/
theorem Spaced.not_mem_of_between (hspaced : Spaced header (before ++ left :: right :: rest))
    (hlow : left.address < start) (hhigh : start < right.address) :
    start ∉ addresses (before ++ left :: right :: rest) := by
  have horder := hspaced.lt hheader
  rw [addresses_append, addresses_cons, addresses_cons] at horder ⊢
  obtain ⟨-, hpart, hcross⟩ := List.pairwise_append.1 horder
  obtain ⟨-, hpart⟩ := List.pairwise_cons.1 hpart
  obtain ⟨hright, -⟩ := List.pairwise_cons.1 hpart
  intro hmem
  rcases List.mem_append.1 hmem with hbefore | hmem
  · have hlt := hcross start hbefore left.address List.mem_cons_self
    omega
  · rcases List.mem_cons.1 hmem with rfl | hmem
    · omega
    · rcases List.mem_cons.1 hmem with rfl | hmem
      · omega
      · have hlt := hright start hmem
        omega

end Order

theorem spaced_append : Spaced header (before ++ rest) ↔ Spaced header before ∧
    Spaced header rest ∧
      ∀ left ∈ before, ∀ right ∈ rest, left.address + header ≤ right.address :=
  List.pairwise_append

theorem Spaced.next_le (hspaced : Spaced header (before ++ left :: right :: rest)) :
    left.address + header ≤ right.address := by
  obtain ⟨-, hpart, -⟩ := spaced_append.1 hspaced
  exact (List.pairwise_cons.1 hpart).1 right List.mem_cons_self

theorem spaced_iff_isChain : Spaced header tiles ↔
    tiles.IsChain fun left right => left.address + header ≤ right.address := by
  have htrans : IsTrans Tile fun left right => left.address + header ≤ right.address :=
    ⟨fun _ _ _ hleft hright => by omega⟩
  exact List.isChain_iff_pairwise.symm

theorem Spaced.split {fresh : Tile} (hspaced : Spaced header (before ++ left :: right :: rest))
    (hlow : left.address + header ≤ fresh.address)
    (hhigh : fresh.address + header ≤ right.address) :
    Spaced header (before ++ left :: fresh :: right :: rest) := by
  rw [spaced_iff_isChain, List.isChain_append_cons_cons] at hspaced ⊢
  exact ⟨hspaced.1, hlow, List.isChain_cons_cons.2 ⟨hhigh, hspaced.2.2⟩⟩

theorem Spaced.join {gone : Tile} (hspaced : Spaced header (before ++ left :: gone :: rest)) :
    Spaced header (before ++ left :: rest) :=
  List.Pairwise.sublist (((List.sublist_cons_self gone rest).cons_cons left).append_left before)
    hspaced

theorem Spaced.setUsed {used : Bool} (hspaced : Spaced header (before ++ tile :: rest)) :
    Spaced header (before ++ ⟨tile.address, used⟩ :: rest) := by
  have haddresses : ∀ tiles, Spaced header tiles ↔
      (addresses tiles).Pairwise fun left right => left + header ≤ right := by
    intro tiles
    rw [addresses, List.pairwise_map]
    rfl
  rw [haddresses, addresses_append, addresses_cons] at hspaced ⊢
  exact hspaced

/-! ## Sizes -/

theorem freeBytes_append : freeBytes header (before ++ tile :: rest) =
    freeBytes header (before ++ [tile]) + freeBytes header (tile :: rest) := by
  induction before with
  | nil => simp [freeBytes_single]
  | cons first before ih =>
    cases before with
    | nil => simp [freeBytes_cons_cons, freeBytes_single]
    | cons second before =>
      simp only [List.cons_append, freeBytes_cons_cons] at ih ⊢
      rw [ih, Nat.add_assoc]

/-- The bytes before a tile do not depend on its state. -/
theorem freeBytes_snoc (start : ℕ) (used used' : Bool) :
    freeBytes header (before ++ [⟨start, used⟩]) =
      freeBytes header (before ++ [⟨start, used'⟩]) := by
  induction before with
  | nil => rfl
  | cons first before ih =>
    cases before with
    | nil => rfl
    | cons second before => simpa [freeBytes_cons_cons] using ih

theorem freeBytes_append_cons_cons (used : Bool) :
    freeBytes header (before ++ left :: right :: rest) =
      freeBytes header (before ++ [⟨left.address, used⟩]) +
        (if left.used then 0 else right.address - left.address - header) +
        freeBytes header (right :: rest) := by
  rw [freeBytes_append, freeBytes_cons_cons, freeBytes_snoc left.address left.used used,
    Nat.add_assoc]

/-- The free bytes fit between the first and the last header. -/
theorem Spaced.freeBytes_le (hspaced : Spaced header (left :: rest ++ [right])) :
    freeBytes header (left :: rest ++ [right]) + left.address + header ≤ right.address := by
  induction rest generalizing left with
  | nil =>
    have hle := (List.pairwise_cons.1 hspaced).1 right List.mem_cons_self
    simp only [List.singleton_append, freeBytes_cons_cons, freeBytes_single]
    split <;> omega
  | cons next rest ih =>
    have hle := (List.pairwise_cons.1 hspaced).1 next List.mem_cons_self
    have hrest := ih (List.pairwise_cons.1 hspaced).2
    simp only [List.cons_append, freeBytes_cons_cons] at hrest ⊢
    split <;> omega

theorem Spaced.length_le (hspaced : Spaced header (left :: rest ++ [right])) :
    (left :: rest ++ [right]).length * header + left.address ≤ right.address + header := by
  induction rest generalizing left with
  | nil =>
    have hle := (List.pairwise_cons.1 hspaced).1 right List.mem_cons_self
    simp only [List.singleton_append, List.length_cons, List.length_nil]
    omega
  | cons next rest ih =>
    have hle := (List.pairwise_cons.1 hspaced).1 next List.mem_cons_self
    have hrest := ih (List.pairwise_cons.1 hspaced).2
    rw [List.cons_append, List.length_cons, Nat.succ_mul]
    omega

theorem freeBytes_eq_sum {next : ℕ → ℕ}
    (hnext : tiles.IsChain fun left right => next left.address = right.address)
    (hlast : ∀ last ∈ tiles.getLast?, last.used = true) :
    freeBytes header tiles =
      ((unused tiles).map fun address => next address - address - header).sum := by
  induction tiles with
  | nil => rfl
  | cons first rest ih =>
    cases rest with
    | nil =>
      have hused : first.used = true := hlast first rfl
      have hnone : unused [first] = [] := by simp [unused, hused, addresses]
      rw [hnone]
      rfl
    | cons second rest =>
      obtain ⟨hfirst, hrest⟩ := List.isChain_cons_cons.1 hnext
      have ih := ih hrest (by simpa using hlast)
      obtain ⟨start, used⟩ := first
      cases used with
      | true => simpa [freeBytes_cons_cons] using ih
      | false => simp [freeBytes_cons_cons, ih, ← hfirst]

/-! ## Neighbours -/

theorem coalesced_append_cons_cons : Coalesced (before ++ left :: right :: rest) ↔
    Coalesced (before ++ [left]) ∧ (left.used ∨ right.used) ∧ Coalesced (right :: rest) :=
  List.isChain_append_cons_cons

/-- A tile in use is as good as any other one at the end. -/
theorem Coalesced.snoc_used {used : Bool} (hcoalesced : Coalesced (before ++ [⟨start, used⟩])) :
    Coalesced (before ++ [⟨start, true⟩]) := by
  rcases List.eq_nil_or_concat before with rfl | ⟨front, last, rfl⟩
  · exact List.isChain_singleton _
  · rw [List.concat_eq_append, List.append_assoc] at hcoalesced ⊢
    obtain ⟨hfront, -, -⟩ := coalesced_append_cons_cons.1 hcoalesced
    exact coalesced_append_cons_cons.2 ⟨hfront, .inr rfl, List.isChain_singleton _⟩

theorem coalesced_snoc {before : List Tile} (hbefore : Coalesced before)
    (hlast : ∀ last ∈ before.getLast?, last.used = true) : Coalesced (before ++ [tile]) := by
  refine List.isChain_append.2 ⟨hbefore, List.isChain_singleton tile, ?_⟩
  intro last hmem next _
  exact .inl (hlast last hmem)

/-! ## Tiles by state -/

/-- The addresses of the tiles in a state. -/
def inState (used : Bool) (tiles : List Tile) : List ℕ :=
  addresses (tiles.filter fun tile => tile.used = used)

@[simp]
theorem inState_append (used : Bool) :
    inState used (before ++ rest) = inState used before ++ inState used rest := by
  simp [inState]

@[simp]
theorem inState_cons_self (used : Bool) :
    inState used (⟨start, used⟩ :: rest) = start :: inState used rest := by
  simp [inState]

theorem inState_cons_of_ne {used used' : Bool} (hne : used' ≠ used) :
    inState used (⟨start, used'⟩ :: rest) = inState used rest := by
  simp [inState, hne]

theorem mem_inState {used : Bool} : start ∈ inState used tiles ↔ ⟨start, used⟩ ∈ tiles := by
  simp only [inState, addresses, List.mem_map, List.mem_filter, decide_eq_true_eq]
  constructor
  · rintro ⟨⟨other, used'⟩, ⟨hmem, rfl⟩, rfl⟩
    exact hmem
  · intro hmem
    exact ⟨_, ⟨hmem, rfl⟩, rfl⟩

theorem inState_sublist (used : Bool) (tiles : List Tile) :
    (inState used tiles).Sublist (addresses tiles) :=
  List.filter_sublist.map Tile.address

/-! ## Tiles that fill an interval -/

section Filled

variable {length length' : ℕ → ℕ} {middle stop : ℕ}

/-- The tiles fill the addresses from `start` to `stop`: behind each header are as many as
`length` says. -/
def Filled (header : ℕ) (length : ℕ → ℕ) : ℕ → List Tile → ℕ → Prop
  | start, [], stop => start = stop
  | start, tile :: rest, stop =>
    tile.address = start ∧ Filled header length (start + header + length start) rest stop

theorem filled_append : Filled header length start (before ++ rest) stop ↔
    ∃ middle, Filled header length start before middle ∧
      Filled header length middle rest stop := by
  induction before generalizing start with
  | nil => simp [Filled]
  | cons first before ih =>
    rw [List.cons_append, Filled, ih]
    simp only [Filled, and_assoc, exists_and_left]

theorem filled_middle : Filled header length start (before ++ tile :: rest) stop ↔
    Filled header length start before tile.address ∧
      Filled header length (tile.address + header + length tile.address) rest stop := by
  rw [filled_append]
  constructor
  · rintro ⟨middle, hbefore, rfl, hrest⟩
    exact ⟨hbefore, hrest⟩
  · rintro ⟨hbefore, hrest⟩
    exact ⟨tile.address, hbefore, rfl, hrest⟩

theorem Filled.bounds (hfilled : Filled header length start tiles stop) (hmem : tile ∈ tiles) :
    start ≤ tile.address ∧ tile.address + header + length tile.address ≤ stop := by
  induction tiles generalizing start with
  | nil => cases hmem
  | cons first rest ih =>
    obtain ⟨rfl, hrest⟩ := hfilled
    have hle : ∀ {start}, Filled header length start rest stop → start ≤ stop := by
      clear ih hmem hrest
      induction rest with
      | nil => exact fun hnil => hnil.le
      | cons next rest ih =>
        intro start hcons
        have := ih hcons.2
        omega
    rcases List.mem_cons.1 hmem with rfl | hmem
    · exact ⟨le_rfl, hle hrest⟩
    · obtain ⟨hlow, hhigh⟩ := ih hrest hmem
      exact ⟨by omega, hhigh⟩

theorem Filled.congr (hfilled : Filled header length start tiles stop)
    (hsame : ∀ tile ∈ tiles, length' tile.address = length tile.address) :
    Filled header length' start tiles stop := by
  induction tiles generalizing start with
  | nil => exact hfilled
  | cons first rest ih =>
    obtain ⟨rfl, hrest⟩ := hfilled
    obtain ⟨hfirst, hsame⟩ := List.forall_mem_cons.1 hsame
    refine ⟨rfl, ?_⟩
    rw [hfirst]
    exact ih hrest hsame

theorem Filled.bounds_of_mem {used : Bool} {block : ℕ}
    (hfilled : Filled header length start tiles stop) (hmem : block ∈ inState used tiles) :
    start ≤ block ∧ block + header + length block ≤ stop :=
  hfilled.bounds (mem_inState.1 hmem)

theorem Filled.length_mul_le (hfilled : Filled header length start tiles stop) :
    start + tiles.length * header ≤ stop := by
  induction tiles generalizing start with
  | nil => simpa using hfilled.le
  | cons first rest ih =>
    have hrest := ih hfilled.2
    rw [List.length_cons, Nat.succ_mul]
    omega

theorem Filled.existsUnique {address : ℕ} (hfilled : Filled header length start tiles stop)
    (hlow : start ≤ address) (hhigh : address < stop) :
    ∃! tile, tile ∈ tiles ∧ tile.address ≤ address ∧
      address < tile.address + header + length tile.address := by
  induction tiles generalizing start with
  | nil =>
    have heq : start = stop := hfilled
    omega
  | cons first rest ih =>
    obtain ⟨rfl, hrest⟩ := hfilled
    rcases Nat.lt_or_ge address (first.address + header + length first.address) with hlt | hge
    · refine ⟨first, ⟨List.mem_cons_self, hlow, hlt⟩, ?_⟩
      rintro other ⟨hmem, hother, -⟩
      rcases List.mem_cons.1 hmem with rfl | hmem
      · rfl
      · have := (hrest.bounds hmem).1
        omega
    · obtain ⟨tile, ⟨hmem, hle, hlt⟩, hunique⟩ := ih hrest hge
      refine ⟨tile, ⟨List.mem_cons_of_mem first hmem, hle, hlt⟩, ?_⟩
      rintro other ⟨hmem', hle', hlt'⟩
      rcases List.mem_cons.1 hmem' with rfl | hmem'
      · omega
      · exact hunique other ⟨hmem', hle', hlt'⟩

theorem Filled.pairwise (hfilled : Filled header length start tiles stop) :
    tiles.Pairwise fun left right => left.address + header + length left.address ≤
      right.address := by
  induction tiles generalizing start with
  | nil => exact List.Pairwise.nil
  | cons first rest ih =>
    obtain ⟨rfl, hrest⟩ := hfilled
    exact List.pairwise_cons.2 ⟨fun later hlater => (hrest.bounds hlater).1, ih hrest⟩

theorem Filled.pairwise_lt (hheader : 0 < header)
    (hfilled : Filled header length start tiles stop) :
    (addresses tiles).Pairwise (· < ·) := by
  refine List.pairwise_map.2 (hfilled.pairwise.imp ?_)
  intro left right hle
  omega

theorem Filled.apart (hfilled : Filled header length start tiles stop) (hleft : left ∈ tiles)
    (hright : right ∈ tiles) (hne : left ≠ right) :
    left.address + header + length left.address ≤ right.address ∨
      right.address + header + length right.address ≤ left.address := by
  have hpairs : tiles.Pairwise fun left right : Tile =>
      left.address + header + length left.address ≤ right.address ∨
        right.address + header + length right.address ≤ left.address :=
    hfilled.pairwise.imp Or.inl
  exact @List.Pairwise.forall _ _ _ ⟨fun _ _ => Or.symm⟩ hpairs left hleft right hright hne

end Filled

end Tile

end RtThread.Core
