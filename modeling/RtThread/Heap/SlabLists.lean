import RtThread.Core.LinkedCells
import RtThread.Heap.Slab

set_option linter.all false

/-!
# The lists of zones of the slab allocator

Every list of zones is a chain through `z_next`.  A zone is in the list of its chunk size as
long as it has a free chunk and is not kept on `zone_free`.  The pushes and pops of
`rt_malloc` and `rt_free`, and the loop that takes a zone out of the middle of its list, keep
this.
-/

namespace RtThread.Slab

open Function
open RtThread.Core RtThread.PageAlloc

/-! ## Chunk sizes -/

theorem le_roundUp {n unit : ℕ} (hpos : 0 < unit) : n ≤ roundUp n unit := by
  have hdiv := Nat.lt_div_mul_add hpos (a := n + (unit - 1))
  rw [roundUp]
  omega

theorem roundUp_lt {n unit : ℕ} (hpos : 0 < unit) : roundUp n unit < n + unit := by
  have hdiv := Nat.div_mul_le_self (n + (unit - 1)) unit
  rw [roundUp]
  omega

theorem chunkOffset_bounds (cfg : SlabConfig) {size : ℕ} (hpos : 0 < size) :
    cfg.sizeofSlabZone ≤ chunkOffset cfg size ∧
      chunkOffset cfg size < cfg.sizeofSlabZone + size + minChunkSize := by
  have hmin : 0 < minChunkSize := by decide
  rw [chunkOffset]
  split
  · have hlt := @roundUp_lt cfg.sizeofSlabZone size hpos
    exact ⟨le_roundUp hpos, by omega⟩
  · have hlt := @roundUp_lt cfg.sizeofSlabZone minChunkSize hmin
    exact ⟨le_roundUp hmin, by omega⟩

/-- The chunk size of a zone index. -/
def chunkSizeOf (zi : ℕ) : ℕ :=
  if zi < 16 then (zi + 1) * 8
  else if zi < 24 then (zi - 7) * 16
  else if zi < 32 then (zi - 15) * 32
  else if zi < 40 then (zi - 23) * 64
  else if zi < 48 then (zi - 31) * 128
  else if zi < 56 then (zi - 39) * 256
  else if zi < 64 then (zi - 47) * 512
  else (zi - 55) * 1024

theorem roundUp_div_bounds {n unit low high : ℕ} (hunit : 0 < unit) (hlow : low * unit < n + unit)
    (hhigh : n ≤ high * unit) :
    low ≤ roundUp n unit / unit ∧ roundUp n unit / unit ≤ high ∧
      roundUp n unit = roundUp n unit / unit * unit := by
  have hchunks : roundUp n unit / unit = (n + (unit - 1)) / unit := Nat.mul_div_cancel _ hunit
  rw [hchunks]
  refine ⟨?_, ?_, rfl⟩
  · rw [Nat.le_div_iff_mul_le hunit]
    omega
  · rw [← Nat.lt_succ_iff, Nat.div_lt_iff_lt_mul hunit, Nat.succ_mul]
    omega

theorem zoneindex_eq {n : ℕ} (hpos : 0 < n) (hlt : n < 16384) :
    (zoneindex n).2 = chunkSizeOf (zoneindex n).1 := by
  -- a unit is used for the requests of 8 to 16 chunks, the smallest one from the first chunk on
  have hband (unit low : ℕ) (hunit : 0 < unit) (hlow : low * unit < n + unit)
      (hhigh : n ≤ 16 * unit) (index : ℕ → ℕ)
      (hsize : ∀ chunks, low ≤ chunks → chunks ≤ 16 → chunkSizeOf (index chunks) = chunks * unit) :
      roundUp n unit = chunkSizeOf (index (roundUp n unit / unit)) := by
    obtain ⟨hfirst, hlast, hround⟩ := roundUp_div_bounds hunit hlow hhigh
    rw [hsize _ hfirst hlast, ← hround]
  rw [zoneindex]
  split_ifs
  · exact hband 8 1 (by omega) (by omega) (by omega) (· - 1) (by grind [chunkSizeOf])
  · exact hband 16 8 (by omega) (by omega) (by omega) (· + 7) (by grind [chunkSizeOf])
  · exact hband 32 8 (by omega) (by omega) (by omega) (· + 15) (by grind [chunkSizeOf])
  · exact hband 64 8 (by omega) (by omega) (by omega) (· + 23) (by grind [chunkSizeOf])
  · exact hband 128 8 (by omega) (by omega) (by omega) (· + 31) (by grind [chunkSizeOf])
  · exact hband 256 8 (by omega) (by omega) (by omega) (· + 39) (by grind [chunkSizeOf])
  · exact hband 512 8 (by omega) (by omega) (by omega) (· + 47) (by grind [chunkSizeOf])
  · exact hband 1024 8 (by omega) (by omega) (by omega) (· + 55) (by grind [chunkSizeOf])

theorem le_zoneindex (n : ℕ) : n ≤ (zoneindex n).2 := by
  simp only [zoneindex]
  split_ifs
  all_goals first | exact le_roundUp (by decide) | exact le_rfl

/-- A request below the limit is rounded to at most the limit. -/
theorem zoneindex_le {n limit : ℕ} (hlimit : limit = 8192 ∨ limit = 16384) (hpos : 0 < n)
    (hlt : n < limit) : (zoneindex n).1 < nzones ∧ (zoneindex n).2 ≤ limit := by
  simp only [zoneindex, roundUp, nzones]
  split_ifs <;> dsimp only <;> omega

/-! ## The lists of zones -/

/-- The links between zones. -/
def SlabHeap.zNext (heap : SlabHeap) : ℕ → Option ℕ :=
  fun z => (heap.zone z).zNext

/-- The lists of zones: `array` are those of `zone_array` and `cached` is `zone_free`. -/
structure Lists (heap : SlabHeap) (zones : List ℕ) (array : ℕ → List ℕ) (cached : List ℕ) :
    Prop where
  array_chain : ∀ zi, Chain heap.zNext (heap.zoneArray zi) (array zi)
  array_nodup : ∀ zi, (array zi).Nodup
  array_mem : ∀ zi z, z ∈ array zi ↔
    z ∈ zones ∧ (heap.zone z).zZoneindex = zi ∧ 0 < (heap.zone z).zNfree ∧ z ∉ cached
  cached_chain : Chain heap.zNext heap.zoneFree cached
  cached_nodup : cached.Nodup
  cached_zone : ∀ z ∈ cached, z ∈ zones
  cached_count : heap.zoneFreeCnt = cached.length

variable {heap heap' : SlabHeap} {zones zones' cached : List ℕ} {array : ℕ → List ℕ} {z zi : ℕ}
variable {zone : SlabZone} {value : Option ℕ}

theorem zNext_setZone (heap : SlabHeap) (z : ℕ) (zone : SlabZone) :
    (heap.setZone z zone).zNext = update heap.zNext z zone.zNext := by
  funext other
  by_cases hother : other = z
  · subst hother
    simp [SlabHeap.zNext, SlabHeap.setZone]
  · simp [SlabHeap.zNext, SlabHeap.setZone, hother]

@[simp]
theorem zone_setZone_self (heap : SlabHeap) (z : ℕ) (zone : SlabZone) :
    (heap.setZone z zone).zone z = zone :=
  update_self ..

theorem zone_setZone_of_ne (heap : SlabHeap) (zone : SlabZone) {other : ℕ} (hne : other ≠ z) :
    (heap.setZone z zone).zone other = heap.zone other :=
  update_of_ne hne ..

@[simp]
theorem zone_setZoneArray (heap : SlabHeap) (zi : ℕ) (value : Option ℕ) :
    (heap.setZoneArray zi value).zone = heap.zone := rfl

@[simp]
theorem zNext_setZoneArray (heap : SlabHeap) (zi : ℕ) (value : Option ℕ) :
    (heap.setZoneArray zi value).zNext = heap.zNext := rfl

/-- The lists see only the links, the indices and whether a zone has a free chunk. -/
theorem Lists.congr (hlists : Lists heap zones array cached) (hnext : heap'.zNext = heap.zNext)
    (harray : heap'.zoneArray = heap.zoneArray) (hfree : heap'.zoneFree = heap.zoneFree)
    (hcount : heap'.zoneFreeCnt = heap.zoneFreeCnt)
    (hzones : ∀ z ∈ zones, (heap'.zone z).zZoneindex = (heap.zone z).zZoneindex ∧
      (0 < (heap'.zone z).zNfree ↔ 0 < (heap.zone z).zNfree)) :
    Lists heap' zones array cached where
  array_chain zi := by
    rw [hnext, harray]
    exact hlists.array_chain zi
  array_nodup := hlists.array_nodup
  array_mem zi z := by
    rw [hlists.array_mem]
    refine and_congr_right fun hz => ?_
    rw [(hzones z hz).1, (hzones z hz).2]
  cached_chain := by
    rw [hnext, hfree]
    exact hlists.cached_chain
  cached_nodup := hlists.cached_nodup
  cached_zone := hlists.cached_zone
  cached_count := by rw [hcount, hlists.cached_count]

/-- The first zone of a list loses its last free chunk. -/
theorem Lists.drop (hlists : Lists heap zones array cached) {rest : List ℕ}
    (hlist : array zi = z :: rest) (hzone : zone.zNfree = 0) :
    Lists ((heap.setZone z { zone with zNext := none }).setZoneArray zi (heap.zNext z)) zones
      (update array zi rest) cached := by
  obtain ⟨hz, hindex, hfree, hcached⟩ := (hlists.array_mem zi z).1 (by simp [hlist])
  have hchain := hlists.array_chain zi
  have hnodup := hlists.array_nodup zi
  rw [hlist] at hchain hnodup
  obtain ⟨hnot, hnodup⟩ := List.nodup_cons.1 hnodup
  -- the other lists do not contain the zone
  have hothers : ∀ other ≠ zi, z ∉ array other := by
    intro other hne hmem
    exact hne (((hlists.array_mem other z).1 hmem).2.1.symm.trans hindex)
  refine ⟨fun other => ?_, fun other => ?_, fun other z' => ?_, ?_, hlists.cached_nodup,
    hlists.cached_zone, hlists.cached_count⟩
  · rw [zNext_setZoneArray, zNext_setZone]
    by_cases hother : other = zi
    · subst hother
      simp only [SlabHeap.setZoneArray, update_self]
      exact hchain.2.update_of_not_mem none hnot
    · simp only [SlabHeap.setZoneArray, update_of_ne hother]
      exact (hlists.array_chain other).update_of_not_mem none (hothers other hother)
  · by_cases hother : other = zi
    · subst hother
      rwa [update_self]
    · rw [update_of_ne hother]
      exact hlists.array_nodup other
  · rw [zone_setZoneArray]
    by_cases hz' : z' = z
    · subst hz'
      simp only [zone_setZone_self, hzone, lt_irrefl, false_and, and_false, iff_false]
      by_cases hother : other = zi
      · subst hother
        rwa [update_self]
      · rw [update_of_ne hother]
        exact hothers other hother
    · rw [zone_setZone_of_ne heap _ hz', ← hlists.array_mem]
      by_cases hother : other = zi
      · subst hother
        rw [update_self, hlist, List.mem_cons]
        simp [hz']
      · rw [update_of_ne hother]
  · rw [zNext_setZoneArray, zNext_setZone]
    exact hlists.cached_chain.update_of_not_mem none hcached

/-- A zone that is in no list and has a free chunk is put in front of a list. -/
theorem Lists.push (hlists : Lists heap zones array cached) (hcached : z ∉ cached)
    (hfull : z ∈ zones → (heap.zone z).zNfree = 0) (hzone : 0 < zone.zNfree)
    (hindex : zone.zZoneindex = zi) (hzones : ∀ other, other ≠ z → (other ∈ zones' ↔ other ∈ zones))
    (hz : z ∈ zones') (hnext : zone.zNext = heap.zoneArray zi) :
    Lists ((heap.setZone z zone).setZoneArray zi (some z)) zones'
      (update array zi (z :: array zi)) cached := by
  have hnot : ∀ other, z ∉ array other := by
    intro other hmem
    obtain ⟨hmem, -, hpos, -⟩ := (hlists.array_mem other z).1 hmem
    have hzero := hfull hmem
    omega
  refine ⟨fun other => ?_, fun other => ?_, fun other z' => ?_, ?_, hlists.cached_nodup,
    fun z' hz' => ?_, hlists.cached_count⟩
  · rw [zNext_setZoneArray, zNext_setZone, hnext]
    by_cases hother : other = zi
    · subst hother
      simp only [SlabHeap.setZoneArray, update_self]
      exact (hlists.array_chain other).push (hnot other)
    · simp only [SlabHeap.setZoneArray, update_of_ne hother]
      exact (hlists.array_chain other).update_of_not_mem _ (hnot other)
  · by_cases hother : other = zi
    · subst hother
      rw [update_self]
      exact List.nodup_cons.2 ⟨hnot other, hlists.array_nodup other⟩
    · rw [update_of_ne hother]
      exact hlists.array_nodup other
  · rw [zone_setZoneArray]
    by_cases hz' : z' = z
    · subst hz'
      rw [zone_setZone_self, hindex]
      by_cases hother : other = zi
      · subst hother
        simp [hz, hzone, hcached]
      · rw [update_of_ne hother]
        simp [hnot other, Ne.symm hother]
    · rw [zone_setZone_of_ne heap _ hz', hzones z' hz', ← hlists.array_mem]
      by_cases hother : other = zi
      · subst hother
        rw [update_self, List.mem_cons]
        simp [hz']
      · rw [update_of_ne hother]
  · rw [zNext_setZoneArray, zNext_setZone]
    exact hlists.cached_chain.update_of_not_mem _ hcached
  · have hne : z' ≠ z := fun heq => hcached (heq ▸ hz')
    exact (hzones z' hne).2 (hlists.cached_zone z' hz')

/-- The first zone of `zone_free` is no longer a zone. -/
theorem Lists.popZone {rest : List ℕ} (hlists : Lists heap zones array (z :: rest))
    (hzones : ∀ other, other ∈ zones' ↔ other ≠ z ∧ other ∈ zones) :
    Lists (popZone heap z) zones' array rest := by
  obtain ⟨hnot, hnodup⟩ := List.nodup_cons.1 hlists.cached_nodup
  refine ⟨hlists.array_chain, hlists.array_nodup, fun zi z' => ?_, hlists.cached_chain.2, hnodup,
    fun z' hz' => (hzones z').2 ⟨?_, hlists.cached_zone z' (List.mem_cons_of_mem _ hz')⟩, ?_⟩
  · rw [hlists.array_mem, hzones, List.mem_cons]
    tauto
  · exact fun heq => hnot (heq ▸ hz')
  · have hcount := hlists.cached_count
    simp [Slab.popZone, hcount]

/-- The loop of `rt_free` finds the link to a zone of the list, and the assignment through it
takes the zone out. -/
theorem findLink_spec {list : List ℕ} {pz : ZoneLink} {fuel : ℕ}
    (hchain : Chain heap.zNext (heap.deref pz) list) (hnodup : list.Nodup) (hz : z ∈ list)
    (hpz : ∀ link, pz = .next link → link ∉ list) (hfuel : list.length ≤ fuel) :
    ∃ pz', findLink heap z fuel pz = some pz' ∧ (pz' = pz ∨ ∃ link ∈ list, link ≠ z ∧
        pz' = .next link) ∧
      Chain (heap.assign pz' (heap.zNext z)).zNext ((heap.assign pz' (heap.zNext z)).deref pz)
        (list.erase z) := by
  induction list generalizing pz fuel with
  | nil => simp at hz
  | cons other rest ih =>
    obtain ⟨fuel, rfl⟩ := Nat.exists_eq_add_one.2 (Nat.lt_of_lt_of_le (by simp) hfuel)
    obtain ⟨hderef, hrest⟩ := hchain
    obtain ⟨hnot, hnodup⟩ := List.nodup_cons.1 hnodup
    rw [findLink, hderef]
    dsimp only
    by_cases hother : other = z
    · subst hother
      refine ⟨pz, if_pos rfl, .inl rfl, ?_⟩
      rw [List.erase_cons_head]
      cases pz with
      | array zi =>
        have hstart : (heap.setZoneArray zi (heap.zNext other)).zoneArray zi =
          heap.zNext other :=
          update_self ..
        rw [SlabHeap.assign, zNext_setZoneArray, SlabHeap.deref, hstart]
        exact hrest
      | next link =>
        have hlink := hpz link rfl
        rw [List.mem_cons, not_or] at hlink
        rw [SlabHeap.assign, zNext_setZone, SlabHeap.deref, zone_setZone_self]
        exact hrest.update_of_not_mem _ hlink.2
    · have hmem : z ∈ rest := by simpa [Ne.symm hother] using hz
      have hself : ∀ link, ZoneLink.next other = .next link → link ∉ rest := by
        rintro link heq
        obtain rfl := ZoneLink.next.inj heq
        exact hnot
      have hrest : Chain heap.zNext (heap.deref (.next other)) rest := hrest
      rw [if_neg hother]
      obtain ⟨pz', hfind, hlink, hchain'⟩ := ih hrest hnodup hmem hself (by simpa using hfuel)
      -- the link that is found is a zone of the list, so `pz` is not written
      obtain ⟨link, hlink_mem, hlink_ne, rfl⟩ : ∃ link ∈ other :: rest, link ≠ z ∧
          pz' = .next link := by
        rcases hlink with rfl | ⟨link, hlink, hne, rfl⟩
        · exact ⟨other, by simp, hother, rfl⟩
        · exact ⟨link, List.mem_cons_of_mem _ hlink, hne, rfl⟩
      refine ⟨_, hfind, .inr ⟨link, hlink_mem, hlink_ne, rfl⟩, ?_⟩
      rw [List.erase_cons_tail (by simpa using hother)]
      refine ⟨?_, hchain'⟩
      cases pz with
      | array zi => exact hderef
      | next start =>
        have hne : start ≠ link := fun heq => hpz start rfl (heq ▸ hlink_mem)
        rw [SlabHeap.assign, SlabHeap.deref, zone_setZone_of_ne heap _ hne]
        exact hderef

/-- A zone apart from its link. -/
def SlabZone.unlinked (zone : SlabZone) : SlabZone :=
  { zone with zNext := none }

theorem SlabZone.unlinked_eq {zone zone' : SlabZone} (hsame : zone'.unlinked = zone.unlinked) :
    zone'.zZoneindex = zone.zZoneindex ∧ zone'.zNfree = zone.zNfree := by
  rw [unlinked, unlinked, SlabZone.mk.injEq] at hsame
  obtain ⟨-, hnfree, -, -, -, -, -, hindex, -⟩ := hsame
  exact ⟨hindex, hnfree⟩

theorem unlinked_assign (heap : SlabHeap) (pz : ZoneLink) (value : Option ℕ) (z : ℕ) :
    ((heap.assign pz value).zone z).unlinked = (heap.zone z).unlinked := by
  cases pz with
  | array zi => rfl
  | next link =>
    by_cases hz : z = link
    · subst hz
      rw [SlabHeap.assign, zone_setZone_self]
      rfl
    · rw [SlabHeap.assign, zone_setZone_of_ne heap _ hz]

/-- An assignment inside a list leaves a list without common zones as it was. -/
theorem Chain.assign {start : Option ℕ} {list : List ℕ} {pz : ZoneLink}
    (hchain : Chain heap.zNext start list) (hpz : ∀ link, pz = .next link → link ∉ list) :
    Chain (heap.assign pz value).zNext start list := by
  cases pz with
  | array zi => exact hchain
  | next link =>
    rw [SlabHeap.assign, zNext_setZone]
    exact hchain.update_of_not_mem _ (hpz link rfl)

theorem Lists.retire (hlists : Lists heap zones array cached)
    (hz : z ∈ array (heap.zone z).zZoneindex)
    (hfuel : (array (heap.zone z).zZoneindex).length ≤ heap.pages.stop + 1) :
    ∃ heap', retireZone heap z = some heap' ∧
      Lists heap' zones (update array (heap.zone z).zZoneindex
        ((array (heap.zone z).zZoneindex).erase z)) (z :: cached) ∧
      heap' = { heap with
        zone := heap'.zone
        zoneArray := heap'.zoneArray
        zoneFree := heap'.zoneFree
        zoneFreeCnt := heap'.zoneFreeCnt } ∧
      (heap'.zone z).unlinked = { (heap.zone z).unlinked with zMagic := -1 } ∧
      ∀ other ≠ z, (heap'.zone other).unlinked = (heap.zone other).unlinked := by
  set zi := (heap.zone z).zZoneindex with hzi
  have hnodup := hlists.array_nodup zi
  have hstart : Chain heap.zNext (heap.deref (.array zi)) (array zi) := hlists.array_chain zi
  have hhead : ∀ link, ZoneLink.array zi = .next link → link ∉ array zi := by
    intro link heq
    cases heq
  obtain ⟨pz, hfind, hpz, hchain⟩ := findLink_spec hstart hnodup hz hhead hfuel
  -- the link is the head of the list or a zone of it
  have hlink : ∀ link, pz = .next link → link ∈ array zi ∧ link ≠ z := by
    rintro link rfl
    rcases hpz with hpz | ⟨link', hmem, hne, heq⟩
    · contradiction
    · obtain rfl := ZoneLink.next.inj heq
      exact ⟨hmem, hne⟩
  have hzone : (heap.assign pz (heap.zNext z)).zone z = heap.zone z := by
    cases pz with
    | array zi => rfl
    | next link => exact zone_setZone_of_ne heap _ (hlink link rfl).2.symm
  have hothers : ∀ other ≠ zi, (heap.assign pz (heap.zNext z)).zoneArray other =
      heap.zoneArray other := by
    intro other hne
    cases pz with
    | array zi' =>
      rcases hpz with hpz | ⟨link, -, -, heq⟩
      · obtain rfl := ZoneLink.array.inj hpz
        exact update_of_ne hne ..
      · contradiction
    | next link => rfl
  have hkept : (heap.assign pz (heap.zNext z)).zoneFree = heap.zoneFree ∧
      (heap.assign pz (heap.zNext z)).zoneFreeCnt = heap.zoneFreeCnt := by
    cases pz <;> exact ⟨rfl, rfl⟩
  obtain ⟨hzones, -, hfree, hcached⟩ := (hlists.array_mem zi z).1 hz
  have hapart : ∀ other ≠ zi, ∀ link ∈ array zi, link ∉ array other := by
    intro other hne link hmem hmem'
    have hindex := ((hlists.array_mem zi link).1 hmem).2.1
    exact hne (((hlists.array_mem other link).1 hmem').2.1.symm.trans hindex)
  set heap₁ := heap.assign pz (heap.zNext z) with hheap₁
  set zone := { heap₁.zone z with zMagic := -1, zNext := heap₁.zoneFree } with hzone'
  have hunlinked : ∀ other ≠ z, ((heap₁.setZone z zone).zone other).unlinked =
      (heap.zone other).unlinked := by
    intro other hne
    rw [zone_setZone_of_ne heap₁ zone hne]
    exact unlinked_assign ..
  refine ⟨{ heap₁.setZone z zone with zoneFree := some z, zoneFreeCnt := heap₁.zoneFreeCnt + 1 },
    by rw [retireZone, ← hzi, hfind]; rfl, ?_, ?_, ?_, hunlinked⟩
  · refine ⟨fun other => ?_, fun other => ?_, fun other z' => ?_, ?_,
      List.nodup_cons.2 ⟨hcached, hlists.cached_nodup⟩,
      List.forall_mem_cons.2 ⟨hzones, hlists.cached_zone⟩, ?_⟩
    · change Chain (heap₁.setZone z zone).zNext (heap₁.zoneArray other) _
      rw [zNext_setZone]
      by_cases hother : other = zi
      · subst hother
        rw [update_self]
        exact Chain.update_of_not_mem _ hnodup.not_mem_erase hchain
      · rw [update_of_ne hother, hothers other hother]
        refine Chain.update_of_not_mem _ (hapart other hother z hz) ?_
        exact Chain.assign (hlists.array_chain other)
          fun link hpz => hapart other hother link (hlink link hpz).1
    · by_cases hother : other = zi
      · subst hother
        rw [update_self]
        exact hnodup.erase z
      · rw [update_of_ne hother]
        exact hlists.array_nodup other
    · change _ ↔ _ ∧ ((heap₁.setZone z zone).zone z').zZoneindex = other ∧
        0 < ((heap₁.setZone z zone).zone z').zNfree ∧ _
      by_cases hz' : z' = z
      · subst hz'
        simp only [List.mem_cons, true_or, not_true, and_false, iff_false]
        by_cases hother : other = zi
        · subst hother
          rw [update_self]
          exact hnodup.not_mem_erase
        · rw [update_of_ne hother]
          exact hapart other hother z' hz
      · have hsame := hunlinked z' hz'
        obtain ⟨hindex, hnfree⟩ := SlabZone.unlinked_eq hsame
        rw [hindex, hnfree, List.mem_cons, not_or]
        simp only [hz', not_false_eq_true, true_and]
        rw [← hlists.array_mem]
        by_cases hother : other = zi
        · subst hother
          rw [update_self, List.mem_erase_of_ne hz']
        · rw [update_of_ne hother]
    · change Chain (heap₁.setZone z zone).zNext (some z) (z :: cached)
      rw [zNext_setZone, hzone']
      rw [hkept.1]
      refine Chain.push hcached (Chain.assign hlists.cached_chain fun link hpz hmem => ?_)
      exact ((hlists.array_mem zi link).1 (hlink link hpz).1).2.2.2 hmem
    · change heap₁.zoneFreeCnt + 1 = (z :: cached).length
      rw [hkept.2, hlists.cached_count, List.length_cons]
  · cases pz <;> rfl
  · change ((heap₁.setZone z zone).zone z).unlinked = _
    rw [zone_setZone_self, hzone', hzone]
    rfl

end RtThread.Slab
