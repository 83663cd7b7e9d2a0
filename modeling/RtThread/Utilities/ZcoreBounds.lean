import RtThread.Utilities.ZcoreData

set_option linter.all false

/-!
# The room of a received subpacket

The three receiving loops compare their place with the end of the buffer before they read, not
before they store, and a packed run is stored with another length than the one compared.  What
they store and whether they return is decided by the values that `zread_byte` takes from the
bytes that arrive.
-/

namespace RtThread.Zmodem

/-- All values that `zread_byte` reads from an input, up to one that waits for more. -/
def readValues (input : List UInt8) : List Int :=
  match _hread : zreadByte input with
  | none => []
  | some (res, rest) => res :: readValues rest
termination_by input.length
decreasing_by exact zreadByte_length _hread

def IsData (res : Int) : Prop :=
  0 ≤ res ∧ res ≤ 0xff

/-- `GOTCRCE`, `GOTCRCG`, `GOTCRCQ` and `GOTCRCW`. -/
def IsFrameEnd (res : Int) : Prop :=
  res = (zcrce.toNat ||| gotor : ℕ) ∨ res = (zcrcg.toNat ||| gotor : ℕ) ∨
    res = (zcrcq.toNat ||| gotor : ℕ) ∨ res = (zcrcw.toNat ||| gotor : ℕ)

instance (res : Int) : Decidable (IsData res) :=
  inferInstanceAs (Decidable (_ ∧ _))

instance (res : Int) : Decidable (IsFrameEnd res) :=
  inferInstanceAs (Decidable (_ ∨ _))

/-- Behind a frame end: the check bytes, or a value that is no byte and no frame end. -/
def Closes (crcLen : ℕ) (vals : List Int) : Prop :=
  (∃ res ∈ vals, ¬ IsData res ∧ ¬ IsFrameEnd res) ∨ crcLen ≤ vals.countP (fun res => IsData res)

/-- What a byte of data makes of `c` and of the number of stored bytes, or `none` when the
receiver refuses it. -/
abbrev Size := Int → ℕ → UInt8 → Option (Int × ℕ)

def plainSize : Size :=
  fun c count _ => some (c, count + 1)

/-- A run is compared with the length `c - 0x40` and stored with the length `res`. -/
def packedSize (len : ℕ) : Size := fun c count res =>
  if c = 0 then if res = zresc then some (-1, count) else some (0, count + 1)
  else if c = -1 then
    if 0x20 ≤ res ∧ res < 0x40 then
      if count + ((res.toNat : Int) - 0x1d) > len then none else some (0, count + 0x20)
    else if res = 0x40 then some (0, count + 1)
    else some (res.toNat, count)
  else if c - 0x40 < 1 then none
  else if count + (c - 0x40) > len then none
  else some (0, count + res.toNat)

/-- What the bytes of a subpacket stand for. -/
def unpacked (size : Size) (start : Int × ℕ) (bytes : List UInt8) : Option (Int × ℕ) :=
  bytes.foldlM (fun place byte => size place.1 place.2 byte) start

/-- The data of a subpacket stays in the buffer, and something ends it: a byte that is refused, a
count beyond the limit of the loop, or a value that is no byte of data. -/
def Settles (size : Size) (crcLen : ℕ) (limit : Int) (len : ℕ) (start : Int × ℕ)
    (vals : List Int) : Prop :=
  ∃ (front : List UInt8) (back : List Int),
    vals = front.map (fun byte => (byte.toNat : Int)) ++ back ∧
    (∀ part, part <+: front → ∀ place, unpacked size start part = some place → place.2 ≤ len) ∧
    ((∀ place, unpacked size start front = some place → limit < place.2) ∨
      ∃ res more, back = res :: more ∧ ¬ IsData res ∧ (IsFrameEnd res → Closes crcLen more))

/-- A receiving function has returned and has stored as many bytes as fit. -/
def Bounded {Crc : Type} (len : ℕ) (result : Option (Int × RecState Crc × List UInt8)) : Prop :=
  ∃ r, result = some r ∧ r.2.1.pos ≤ len

/-! ## Values -/

theorem readValues_none {input : List UInt8} (hread : zreadByte input = none) :
    readValues input = [] := by
  rw [readValues]
  split
  · rfl
  · next hsome =>
      rw [hread] at hsome
      cases hsome

variable {res : Int}

theorem readValues_some {input rest : List UInt8} (hread : zreadByte input = some (res, rest)) :
    readValues input = res :: readValues rest := by
  rw [readValues]
  split
  · next hnone =>
      rw [hread] at hnone
      cases hnone
  · next hsome =>
      rw [hread] at hsome
      cases hsome
      rfl

theorem IsData.exists_byte (hdata : IsData res) : ∃ byte : UInt8, res = byte.toNat := by
  obtain ⟨hlow, hhigh⟩ := hdata
  refine ⟨UInt8.ofNat res.toNat, ?_⟩
  rw [UInt8.toNat_ofNat', Nat.mod_eq_of_lt (by omega), Int.toNat_of_nonneg hlow]

theorem isData_byte (byte : UInt8) : IsData byte.toNat :=
  ⟨Int.natCast_nonneg _, by have hlt := byte.toNat_lt; omega⟩

theorem IsFrameEnd.not_data (hend : IsFrameEnd res) : ¬ IsData res := by
  rcases hend with rfl | rfl | rfl | rfl <;> decide

variable {crcLen : ℕ}

theorem closes_nil (hpos : 0 < crcLen) : ¬ Closes crcLen [] := by
  rintro (⟨res, hres, -⟩ | hcount)
  · exact absurd hres List.not_mem_nil
  · exact absurd hcount (Nat.not_le.2 hpos)

variable {vals : List Int}

theorem closes_frameEnd (hend : IsFrameEnd res) :
    Closes crcLen (res :: vals) ↔ Closes crcLen vals := by
  rw [Closes, Closes, List.countP_cons_of_neg (by simpa using hend.not_data)]
  simp [hend]

theorem closes_byte {byte : UInt8} :
    Closes (crcLen + 1) ((byte.toNat : Int) :: vals) ↔ crcLen = 0 ∨ Closes crcLen vals := by
  rw [Closes, Closes, List.countP_cons_of_pos (by simpa using isData_byte byte)]
  simp only [List.exists_mem_cons_iff, isData_byte, not_true_eq_false, false_and, false_or,
    Nat.add_le_add_iff_right]
  rcases Nat.eq_zero_or_pos crcLen with rfl | hpos
  · simp
  · simp [hpos.ne']

theorem closes_other (hdata : ¬ IsData res) (hend : ¬ IsFrameEnd res) :
    Closes crcLen (res :: vals) :=
  Or.inl ⟨res, List.mem_cons_self, hdata, hend⟩

/-! ## One value -/

section Settles

variable {size : Size} {crcLen len : ℕ} {limit : Int} {start : Int × ℕ} {vals : List Int}

theorem settles_beyond (hlimit : limit < start.2) :
    Settles size crcLen limit len start vals ↔ start.2 ≤ len := by
  constructor
  · rintro ⟨front, back, -, hfits, -⟩
    exact hfits [] List.nil_prefix start rfl
  · intro hfits
    refine ⟨[], vals, rfl, fun part hpart place hplace => ?_, Or.inl fun place hplace => ?_⟩
    · rw [List.prefix_nil.1 hpart] at hplace
      exact Option.some.inj hplace ▸ hfits
    · exact Option.some.inj hplace ▸ hlimit

theorem settles_nil (hlimit : (start.2 : Int) ≤ limit) :
    ¬ Settles size crcLen limit len start [] := by
  rintro ⟨front, back, hvals, -, hends⟩
  obtain ⟨hfront, rfl⟩ := List.append_eq_nil_iff.1 hvals.symm
  rw [List.map_eq_nil_iff.1 hfront] at hends
  rcases hends with hbeyond | ⟨res, more, hmore, -⟩
  · exact absurd (hbeyond start rfl) (Int.not_lt.2 hlimit)
  · cases hmore

theorem settles_notData {res : Int} (hlimit : (start.2 : Int) ≤ limit) (hdata : ¬ IsData res) :
    Settles size crcLen limit len start (res :: vals) ↔
      start.2 ≤ len ∧ (IsFrameEnd res → Closes crcLen vals) := by
  constructor
  · rintro ⟨front, back, hvals, hfits, hends⟩
    refine ⟨hfits [] List.nil_prefix start rfl, ?_⟩
    cases front with
    | cons byte front =>
      rw [List.map_cons, List.cons_append] at hvals
      exact absurd ((List.cons.inj hvals).1 ▸ isData_byte byte) hdata
    | nil =>
      rcases hends with hbeyond | ⟨res', more, rfl, -, hcloses⟩
      · exact absurd (hbeyond start rfl) (Int.not_lt.2 hlimit)
      · obtain ⟨rfl, rfl⟩ := List.cons.inj hvals
        exact hcloses
  · rintro ⟨hfits, hcloses⟩
    refine ⟨[], res :: vals, rfl, fun part hpart place hplace => ?_,
      Or.inr ⟨res, vals, rfl, hdata, hcloses⟩⟩
    rw [List.prefix_nil.1 hpart] at hplace
    exact Option.some.inj hplace ▸ hfits

theorem unpacked_cons (byte : UInt8) (bytes : List UInt8) :
    unpacked size start (byte :: bytes) =
      (size start.1 start.2 byte).bind fun place => unpacked size place bytes :=
  List.foldlM_cons

/-- No byte makes the count smaller. -/
def Grows (size : Size) : Prop :=
  ∀ c count byte place, size c count byte = some place → count ≤ place.2

theorem settles_refused {byte : UInt8}
    (hsize : size start.1 start.2 byte = none) :
    Settles size crcLen limit len start ((byte.toNat : Int) :: vals) ↔ start.2 ≤ len := by
  constructor
  · rintro ⟨front, back, -, hfits, -⟩
    exact hfits [] List.nil_prefix start rfl
  · intro hfits
    have hnone (bytes : List UInt8) : unpacked size start (byte :: bytes) = none := by
      rw [unpacked_cons, hsize]
      rfl
    refine ⟨[byte], vals, rfl, fun part hpart place hplace => ?_, Or.inl fun place hplace => ?_⟩
    · cases part with
      | nil => exact Option.some.inj hplace ▸ hfits
      | cons first part =>
        obtain ⟨rfl, -⟩ := List.cons_prefix_cons.1 hpart
        rw [hnone] at hplace
        cases hplace
    · rw [hnone] at hplace
      cases hplace

theorem settles_stored {byte : UInt8} {next : Int × ℕ} (hgrows : Grows size)
    (hlimit : (start.2 : Int) ≤ limit) (hsize : size start.1 start.2 byte = some next) :
    Settles size crcLen limit len start ((byte.toNat : Int) :: vals) ↔
      Settles size crcLen limit len next vals := by
  have hnext (bytes : List UInt8) :
      unpacked size start (byte :: bytes) = unpacked size next bytes := by
    rw [unpacked_cons, hsize]
    rfl
  constructor
  · rintro ⟨front, back, hvals, hfits, hends⟩
    cases front with
    | nil =>
      rcases hends with hbeyond | ⟨res, more, rfl, hdata, -⟩
      · exact absurd (hbeyond start rfl) (Int.not_lt.2 hlimit)
      · exact absurd ((List.cons.inj hvals).1 ▸ isData_byte byte) hdata
    | cons first front =>
      obtain ⟨hfirst, rfl⟩ := List.cons.inj hvals
      obtain rfl : byte = first := UInt8.toNat_inj.1 (Int.ofNat_inj.1 hfirst)
      refine ⟨front, back, rfl, fun part hpart place hplace => ?_, ?_⟩
      · exact hfits (byte :: part) (List.cons_prefix_cons.2 ⟨rfl, hpart⟩) place
          ((hnext part).trans hplace)
      · rwa [hnext] at hends
  · rintro ⟨front, back, rfl, hfits, hends⟩
    refine ⟨byte :: front, back, rfl, fun part hpart place hplace => ?_, ?_⟩
    · cases part with
      | nil =>
        have hle := hgrows _ _ _ _ hsize
        exact Option.some.inj hplace ▸ hle.trans (hfits [] List.nil_prefix next rfl)
      | cons first part =>
        obtain ⟨rfl, hrest⟩ := List.cons_prefix_cons.1 hpart
        exact hfits part hrest place ((hnext part).symm.trans hplace)
    · rwa [hnext]

end Settles

/-! ## The loops -/

section Loop

variable {Check : Type} {updcrc : UInt8 → Check → Check} {crcLen len : ℕ} {wrong : Check → Bool}
  {store : RecState Check → UInt8 → Turn (RecState Check)} {limit : Int} {st : RecState Check}
  {input : List UInt8}

theorem zrecLoop_beyond {turn : RecState Check → Int → Turn (RecState Check)}
    (hplace : limit < st.pos) : zrecLoop limit turn st input = some (rtError, st, input) := by
  rw [zrecLoop, if_neg (Int.not_le.2 hplace)]

theorem zrecLoop_wait {turn : RecState Check → Int → Turn (RecState Check)}
    (hplace : (st.pos : Int) ≤ limit) (hread : zreadByte input = none) :
    zrecLoop limit turn st input = none := by
  rw [zrecLoop, if_pos hplace]
  split
  · rfl
  · next hsome =>
      rw [hread] at hsome
      cases hsome

theorem zrecTurn_isFrameEnd {res : Int} (hend : IsFrameEnd res) :
    ∃ crc, zrecTurn updcrc crcLen wrong store st res =
      .goOn { st with c := res, crc := crc, flag := true } := by
  obtain ⟨frameend, hframe, rfl⟩ : ∃ frameend, FrameEnd frameend ∧ res = gotFrameEnd frameend := by
    rcases hend with rfl | rfl | rfl | rfl
    · exact ⟨zcrce, Or.inl rfl, rfl⟩
    · exact ⟨zcrcg, Or.inr (Or.inl rfl), rfl⟩
    · exact ⟨zcrcq, Or.inr (Or.inr (Or.inl rfl)), rfl⟩
    · exact ⟨zcrcw, Or.inr (Or.inr (Or.inr rfl)), rfl⟩
  exact ⟨_, zrecTurn_frameEnd hframe⟩

theorem zrecTurn_other {res : Int} (hdata : ¬ IsData res) (hend : ¬ IsFrameEnd res) :
    ∃ code, zrecTurn updcrc crcLen wrong store st res = .done code st := by
  have hbig : res < 0 ∨ 0xff < res := by
    unfold IsData at hdata
    omega
  unfold IsFrameEnd at hend
  rw [zrecTurn, if_pos hbig, if_neg hend]
  split_ifs
  · exact ⟨zcan, rfl⟩
  · exact ⟨res, rfl⟩

theorem bounded_some {r : Int × RecState Check × List UInt8} :
    Bounded len (some r) ↔ r.2.1.pos ≤ len := by
  simp [Bounded]

/-- Behind a frame end nothing is stored, and the loop ends with the last check byte or with a
value that is neither a byte nor a frame end. -/
theorem bounded_flag (hflag : st.flag = true) (hlimit : (st.pos : Int) ≤ limit)
    (hcnt : st.crcCnt < crcLen) :
    Bounded len (zrecLoop limit (zrecTurn updcrc crcLen wrong store) st input) ↔
      st.pos ≤ len ∧ Closes (crcLen - st.crcCnt) (readValues input) := by
  induction hleft : input.length using Nat.strong_induction_on generalizing st input with
  | _ left ih =>
    cases hread : zreadByte input with
    | none =>
      rw [zrecLoop_wait hlimit hread, readValues_none hread]
      refine iff_of_false (fun ⟨r, hr, _⟩ => by cases hr) fun hcloses => ?_
      exact closes_nil (Nat.sub_pos_of_lt hcnt) hcloses.2
    | some read =>
      obtain ⟨res, rest⟩ := read
      have hless := hleft ▸ zreadByte_length hread
      rw [zrecLoop_read hlimit hread, readValues_some hread]
      by_cases hdata : IsData res
      · obtain ⟨byte, rfl⟩ := hdata.exists_byte
        obtain ⟨more, hmore⟩ : ∃ more, crcLen - st.crcCnt = more + 1 :=
          ⟨crcLen - st.crcCnt - 1, by omega⟩
        rw [zrecTurn_byte, if_pos hflag, hmore, closes_byte]
        split_ifs with hgoOn hwrong
        · have hnext := @ih rest.length hless { st with
            crc := updcrc byte st.crc, crcCnt := st.crcCnt + 1 } rest hflag hlimit hgoOn rfl
          have hcount : crcLen - (st.crcCnt + 1) = more := by omega
          have hmore' : more ≠ 0 := by omega
          dsimp only at hnext ⊢
          rw [hnext, hcount, or_iff_right hmore']
        · have hzero : more = 0 := by omega
          simp [bounded_some, hzero]
        · have hzero : more = 0 := by omega
          simp [bounded_some, hzero]
      · by_cases hend : IsFrameEnd res
        · obtain ⟨crc, hturn⟩ := @zrecTurn_isFrameEnd _ updcrc crcLen wrong store st _ hend
          rw [hturn, closes_frameEnd hend]
          exact @ih rest.length hless { st with c := res, crc := crc, flag := true } rest
            rfl hlimit hcnt rfl
        · obtain ⟨code, hturn⟩ := @zrecTurn_other _ updcrc crcLen wrong store st _ hdata hend
          rw [hturn]
          simp [bounded_some, closes_other hdata hend]

/-- What the storing of a byte does to `c` and to the place. -/
def Sizes (store : RecState Check → UInt8 → Turn (RecState Check)) (size : Size) : Prop :=
  ∀ st byte,
    (size st.c st.pos byte = none ∧
      ∃ code after, store st byte = .done code after ∧ after.pos = st.pos) ∨
    ∃ after, store st byte = .goOn after ∧ size st.c st.pos byte = some (after.c, after.pos) ∧
      after.flag = st.flag ∧ after.crcCnt = st.crcCnt

theorem bounded_iff_settles {size : Size} (hsizes : Sizes store size) (hgrows : Grows size)
    (hcrcLen : 0 < crcLen) (hflag : st.flag = false) (hcnt : st.crcCnt = 0) :
    Bounded len (zrecLoop limit (zrecTurn updcrc crcLen wrong store) st input) ↔
      Settles size crcLen limit len (st.c, st.pos) (readValues input) := by
  induction hleft : input.length using Nat.strong_induction_on generalizing st input with
  | _ left ih =>
    by_cases hlimit : (st.pos : Int) ≤ limit
    · cases hread : zreadByte input with
      | none =>
        rw [zrecLoop_wait hlimit hread, readValues_none hread]
        exact iff_of_false (fun ⟨r, hr, _⟩ => by cases hr) (settles_nil hlimit)
      | some read =>
        obtain ⟨res, rest⟩ := read
        have hless := hleft ▸ zreadByte_length hread
        rw [zrecLoop_read hlimit hread, readValues_some hread]
        by_cases hdata : IsData res
        · obtain ⟨byte, rfl⟩ := hdata.exists_byte
          rw [zrecTurn_byte, if_neg (by simp [hflag])]
          rcases hsizes { st with crc := updcrc byte st.crc } byte with
            ⟨hsize, code, after, hstore, hpos⟩ | ⟨after, hstore, hsize, hflag', hcnt'⟩
          · rw [hstore, settles_refused hsize]
            exact bounded_some.trans (by rw [hpos])
          · rw [hstore, settles_stored hgrows hlimit hsize]
            exact ih rest.length hless (hflag'.trans hflag) (hcnt'.trans hcnt) rfl
        · rw [settles_notData hlimit hdata]
          by_cases hend : IsFrameEnd res
          · obtain ⟨crc, hturn⟩ := @zrecTurn_isFrameEnd _ updcrc crcLen wrong store st _ hend
            rw [hturn]
            refine (@bounded_flag Check updcrc crcLen len wrong store limit
              { st with c := res, crc := crc, flag := true } rest rfl hlimit
              (hcnt ▸ hcrcLen)).trans ?_
            simp [hend, hcnt]
          · obtain ⟨code, hturn⟩ := @zrecTurn_other _ updcrc crcLen wrong store st _ hdata hend
            rw [hturn]
            simp [bounded_some, hend]
    · rw [zrecLoop_beyond (Int.not_le.1 hlimit), bounded_some]
      have hbeyond : limit < ((st.c, st.pos) : Int × ℕ).2 := Int.not_le.1 hlimit
      exact (settles_beyond hbeyond).symm

end Loop

theorem grows_plain : Grows plainSize := by
  rintro c count byte place hsize
  exact (congrArg Prod.snd (Option.some.inj hsize)) ▸ Nat.le_succ count

theorem grows_packed (len : ℕ) : Grows (packedSize len) := by
  intro c count byte place hsize
  rw [packedSize] at hsize
  split_ifs at hsize <;> cases hsize <;> dsimp only <;> omega

theorem sizes_put {Check : Type} :
    Sizes (fun (st : RecState Check) byte => .goOn (st.put byte)) plainSize :=
  fun st byte => Or.inr ⟨st.put byte, rfl, rfl, rfl, rfl⟩

theorem putDown_pos {Check : Type} (st : RecState Check) (res : ℕ) :
    (st.putDown res).pos = st.pos + res := by
  induction res generalizing st with
  | zero => rfl
  | succ res ih =>
    rw [RecState.putDown, ih]
    exact Nat.add_right_comm st.pos 1 res

theorem sizes_spaces {len : ℕ} {st : RecState UInt32} {c : Int} (res : UInt8) :
    (st.pos + c > len → ∃ code after, zrecSpaces len st c res = .done code after ∧
      after.pos = st.pos) ∧
    (¬ st.pos + c > len → ∃ after, zrecSpaces len st c res = .goOn after ∧
      (after.c, after.pos) = (0, st.pos + res.toNat) ∧ after.flag = st.flag ∧
      after.crcCnt = st.crcCnt) := by
  rw [zrecSpaces]
  constructor
  · intro hlong
    rw [if_pos hlong]
    exact ⟨_, _, rfl, rfl⟩
  · intro hfits
    rw [if_neg hfits]
    obtain ⟨hflag, -, hcnt⟩ := putDown_frame st res.toNat
    exact ⟨_, rfl, Prod.ext rfl (putDown_pos st res.toNat), hflag, hcnt⟩

theorem sizes_packed (len : ℕ) : Sizes (zrecStore32r len) (packedSize len) := by
  intro st res
  rw [zrecStore32r, packedSize]
  split_ifs with hzero hesc hmark hspace hlong hquoted hshort hlong'
  · exact Or.inr ⟨_, rfl, rfl, rfl, rfl⟩
  · exact Or.inr ⟨_, rfl, by simp [RecState.put, hzero], rfl, rfl⟩
  · exact Or.inl ⟨rfl, (sizes_spaces 0x20).1 hlong⟩
  · obtain ⟨after, hstore, hplace, hframe⟩ := (sizes_spaces 0x20).2 hlong
    exact Or.inr ⟨after, hstore, congrArg some hplace.symm, hframe⟩
  · exact Or.inr ⟨_, rfl, rfl, rfl, rfl⟩
  · exact Or.inr ⟨_, rfl, rfl, rfl, rfl⟩
  · exact Or.inl ⟨rfl, _, _, rfl, rfl⟩
  · exact Or.inl ⟨rfl, (sizes_spaces res).1 hlong'⟩
  · obtain ⟨after, hstore, hplace, hframe⟩ := (sizes_spaces res).2 hlong'
    exact Or.inr ⟨after, hstore, congrArg some hplace.symm, hframe⟩

theorem unpacked_plain (c : Int) (count : ℕ) (bytes : List UInt8) :
    unpacked plainSize (c, count) bytes = some (c, count + bytes.length) := by
  induction bytes generalizing count with
  | nil => rfl
  | cons byte bytes ih =>
    rw [unpacked_cons]
    change unpacked plainSize (c, count + 1) bytes = _
    rw [ih, List.length_cons, Nat.add_right_comm, Nat.add_assoc]

/-- Bytes that are stored as they are settle behind a value that is none, if no more of them come
in front of it than there is room for. -/
theorem settles_plain {crcLen len : ℕ} {c : Int} {vals : List Int} :
    Settles plainSize crcLen len len (c, 0) vals ↔
      ∃ (front : List UInt8) (res : Int) (more : List Int),
        vals = front.map (fun byte => (byte.toNat : Int)) ++ res :: more ∧ front.length ≤ len ∧
          ¬ IsData res ∧ (IsFrameEnd res → Closes crcLen more) := by
  constructor
  · rintro ⟨front, back, rfl, hfits, hends⟩
    have hplace := unpacked_plain c 0 front
    rw [Nat.zero_add] at hplace
    have hle := hfits front (List.prefix_refl _) _ hplace
    rcases hends with hbeyond | ⟨res, more, rfl, hdata, hcloses⟩
    · exact absurd (hbeyond _ hplace) (Int.not_lt.2 (Int.ofNat_le.2 hle))
    · exact ⟨front, res, more, rfl, hle, hdata, hcloses⟩
  · rintro ⟨front, res, more, rfl, hle, hdata, hcloses⟩
    refine ⟨front, res :: more, rfl, fun part hpart place hplace => ?_,
      Or.inr ⟨res, more, rfl, hdata, hcloses⟩⟩
    rw [unpacked_plain, Nat.zero_add] at hplace
    exact Option.some.inj hplace ▸ hpart.length_le.trans hle

/-- What has arrived after a number of bytes. -/
def received (stream : ℕ → UInt8) (count : ℕ) : List UInt8 :=
  (List.range count).map stream

/-- The loops return with no more than the buffer takes exactly on the streams whose data settles
in it: with 16 check bits for the limit `len`, with 32 for the limit that the stray pointer
gives, and packed for the lengths that the runs are stored with. -/
theorem zrecData_bounded (stray : Stray) (buf : ℕ → UInt8) (len : ℕ) (stream : ℕ → UInt8) :
    ((∃ count, Bounded len (zrecData16 stray buf len (received stream count))) ↔
      ∃ count, Settles plainSize 2 len len (stray.c, 0) (readValues (received stream count))) ∧
    ((∃ count, Bounded len (zrecData32 stray buf len (received stream count))) ↔
      ∃ count, Settles plainSize 4 (stray.p + len) len (stray.c, 0)
        (readValues (received stream count))) ∧
    ((∃ count, Bounded len (zrecData32r stray buf len (received stream count))) ↔
      ∃ count, Settles (packedSize len) 4 len len (stray.c, 0)
        (readValues (received stream count))) :=
  ⟨exists_congr fun _ => bounded_iff_settles sizes_put grows_plain (by decide) rfl rfl,
    exists_congr fun _ => bounded_iff_settles sizes_put grows_plain (by decide) rfl rfl,
    exists_congr fun _ => bounded_iff_settles (sizes_packed len) (grows_packed len) (by decide)
      rfl rfl⟩

/-- A stream of nothing but data runs over the end, here of a buffer of one byte. -/
theorem zrecData16_overrun :
    ¬ ∀ (stray : Stray) (buf : ℕ → UInt8) (len : ℕ) (stream : ℕ → UInt8),
      ∃ count, Bounded len (zrecData16 stray buf len (received stream count)) := by
  intro hbounded
  obtain ⟨count, hcount⟩ := hbounded ⟨0, 0⟩ (fun _ => 0) 1 fun _ => 0x61
  have hsettles : Settles plainSize 2 (1 : ℕ) 1 (0, 0) (readValues _) :=
    (bounded_iff_settles sizes_put grows_plain (by decide) rfl rfl).1 hcount
  have hdata : ∀ res ∈ readValues (received (fun _ => 0x61) count), IsData res := by
    have hlist : received (fun _ => 0x61) count = List.replicate count 0x61 := by simp [received]
    rw [hlist]
    clear hsettles hcount hlist
    induction count with
    | zero => exact fun res hres => absurd hres (by simp [readValues, zreadByte])
    | succ count ih =>
      have hread : zreadByte (List.replicate (count + 1) 0x61) =
          some (0x61, List.replicate count 0x61) := rfl
      rw [readValues_some hread]
      exact List.forall_mem_cons.2 ⟨by decide, ih⟩
  obtain ⟨front, res, more, hvals, -, hnot, -⟩ := settles_plain.1 hsettles
  refine hnot (hdata res ?_)
  rw [hvals]
  exact List.mem_append_right _ List.mem_cons_self

end RtThread.Zmodem
